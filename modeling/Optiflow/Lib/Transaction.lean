import Mathlib.Data.Option.Basic
import Mathlib.Data.Nat.Notation

/-!
# Transactions

A transaction is a program of statements on a state.  Each statement may fail, by an error that the
environment has chosen for it: `fault n` is the error of the `n`-th statement, if it has one.  A
transaction that fails leaves the state as it was (`Tx.transaction`).

`Tx.Does f` says what a program does when no statement fails, and that it fails as soon as one does: no
error is dropped.  There is a rule for each way to build a program, and for a transaction
(`Tx.Does.transaction`).
-/

/-- A program of statements: its outcome, the number of the next statement, and the state.  `none` is a
program that does not return. -/
def Tx (ε S α : Type) : Type := (ℕ → Option ε) → ℕ → S → Option (Except ε α × ℕ × S)

namespace Tx

variable {ε S α β γ : Type}

/-- An error ends the program. -/
instance : Monad (Tx ε S) where
  pure a := fun _ n s => some (.ok a, n, s)
  bind x f := fun fault n s => (x fault n s).bind fun
    | (.ok a, n, s) => f a fault n s
    | (.error e, n, s) => some (.error e, n, s)

/-- One statement. -/
def statement (f : S → α × S) : Tx ε S α := fun fault n s =>
  match fault n with
  | some e => some (.error e, n + 1, s)
  | none => some (.ok (f s).1, n + 1, (f s).2)

/-- A statement that only reads. -/
def select (f : S → α) : Tx ε S α := statement fun s => (f s, s)

/-- A statement that only writes. -/
def exec (f : S → S) : Tx ε S Unit := statement fun s => ((), f s)

/-- A program that does not return. -/
def loop : Tx ε S α := fun _ _ _ => none

/-- The outcome of a transaction, the number of its statements, and the state it leaves: that of the
program, or when it fails the one before. -/
def transaction (x : Tx ε S α) (fault : ℕ → Option ε) (s : S) : Option (Except ε α × ℕ × S) :=
  (x fault 0 s).map fun
    | (.ok a, n, s') => (.ok a, n, s')
    | (.error e, n, _) => (.error e, n, s)

/-! ## What a program does -/

/-- Where `f` is defined, the program returns: with what `f` says when no statement fails, and with the
error of the statement that does. -/
def Does (x : Tx ε S α) (f : S → Option (α × S)) : Prop :=
  ∀ fault n s a s', f s = some (a, s') →
    (∃ m, n ≤ m ∧ (∀ i, n ≤ i → i < m → fault i = none) ∧ x fault n s = some (.ok a, m, s')) ∨
    ∃ i e t, n ≤ i ∧ fault i = some e ∧ x fault n s = some (.error e, i + 1, t)

variable {x : Tx ε S α} {f f' : S → Option (α × S)}

theorem Does.congr (h : x.Does f) (hf : ∀ s, f' s = f s) : x.Does f' :=
  fun fault n s a s' hs => h fault n s a s' ((hf s).symm.trans hs)

theorem does_pure (a : α) : (pure a : Tx ε S α).Does fun s => some (a, s) := by
  intro fault n s a' s' h
  obtain ⟨rfl, rfl⟩ := Prod.mk.inj (Option.some.inj h)
  exact Or.inl ⟨n, Nat.le_refl n, fun i hi hi' => absurd hi' (by omega), rfl⟩

theorem does_loop : (loop : Tx ε S α).Does fun _ => none := fun _ _ _ _ _ h => by cases h

theorem does_statement (f : S → α × S) : (statement f : Tx ε S α).Does fun s => some (f s) := by
  intro fault n s a s' h
  have hf : f s = (a, s') := Option.some.inj h
  cases hn : fault n with
  | some e =>
    exact Or.inr ⟨n, e, s, Nat.le_refl n, hn, by simp [statement, hn]⟩
  | none =>
    refine Or.inl ⟨n + 1, Nat.le_succ n, fun i hi hi' => ?_, by simp [statement, hn, hf]⟩
    obtain rfl : i = n := by omega
    exact hn

theorem Does.bind {k : α → Tx ε S β} {g : α → S → Option (β × S)} (hx : x.Does f)
    (hk : ∀ a, (k a).Does (g a)) : (x >>= k).Does fun s => (f s).bind fun r => g r.1 r.2 := by
  intro fault n s b t h
  obtain ⟨⟨a, s'⟩, hf, hg⟩ := Option.bind_eq_some_iff.1 h
  obtain ⟨m, hnm, hnone, hrun⟩ | ⟨i, e, u, hi, he, hrun⟩ := hx fault n s a s' hf
  · have hbind : (x >>= k) fault n s = k a fault m s' := by
      show (x fault n s).bind _ = _
      rw [hrun]
      rfl
    obtain ⟨l, hml, hnone', hrun'⟩ | ⟨i, e, u, hi, he, hrun'⟩ := hk a fault m s' b t hg
    · refine Or.inl ⟨l, by omega, fun i hi hi' => ?_, hbind.trans hrun'⟩
      by_cases him : i < m
      · exact hnone i hi him
      · exact hnone' i (by omega) hi'
    · exact Or.inr ⟨i, e, u, by omega, he, hbind.trans hrun'⟩
  · refine Or.inr ⟨i, e, u, hi, he, ?_⟩
    show (x fault n s).bind _ = _
    rw [hrun]
    rfl

theorem does_foldlM {k : β → α → Tx ε S β} {g : β → α → S → Option (β × S)}
    (hk : ∀ b a, (k b a).Does (g b a)) (l : List α) (b : β) :
    (l.foldlM k b).Does fun s => l.foldlM (fun r a => g r.1 a r.2) (b, s) := by
  induction l generalizing b with
  | nil => exact does_pure b
  | cons a l ih =>
    rw [List.foldlM_cons]
    exact ((hk b a).bind ih).congr fun s => List.foldlM_cons ..

theorem does_ite {p : Prop} [Decidable p] {y : Tx ε S α} {g : S → Option (α × S)} (hx : x.Does f)
    (hy : y.Does g) : (if p then x else y).Does fun s => if p then f s else g s := by
  by_cases hp : p
  · simpa only [if_pos hp] using hx
  · simpa only [if_neg hp] using hy

/-- **A transaction does everything or nothing**: nothing exactly when one of its statements failed. -/
theorem Does.transaction (h : x.Does f) (fault : ℕ → Option ε) {s s' : S} {a : α}
    (hf : f s = some (a, s')) :
    ∃ r n t, x.transaction fault s = some (r, n, t) ∧
      ((∀ i < n, fault i = none) → r = .ok a ∧ t = s') ∧
      ((∃ i < n, fault i ≠ none) → (∃ e, r = .error e) ∧ t = s) := by
  obtain ⟨m, -, hnone, hrun⟩ | ⟨i, e, u, -, he, hrun⟩ := h fault 0 s a s' hf
  · refine ⟨_, _, _, by rw [Tx.transaction, hrun]; rfl, fun _ => ⟨rfl, rfl⟩, ?_⟩
    rintro ⟨i, hi, hfault⟩
    exact absurd (hnone i (Nat.zero_le i) hi) hfault
  · refine ⟨_, _, _, by rw [Tx.transaction, hrun]; rfl, fun hnone => ?_, fun _ => ⟨⟨e, rfl⟩, rfl⟩⟩
    have hi : fault i = none := hnone i (Nat.lt_succ_self i)
    cases he.symm.trans hi

end Tx
