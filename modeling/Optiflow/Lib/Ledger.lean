import Optiflow.Lib.Interleave
import Mathlib.Algebra.BigOperators.Group.List.Basic
import Mathlib.Algebra.Order.BigOperators.Group.List

/-!
# Ledgers

Every thread has an account with at most one credit in it.  Some steps pay a credit to the thread that
takes them, some cost one, and an answer that earns needs one.  A program is `Solvent` when it never
spends what it does not have.  If all programs of a run are, then its costs and its earning answers are
covered by its payments (`earned_add_costs_le_pays`).  `Pays` is the case without costs.
-/

universe u

namespace Interleave

open Machine

variable {S Q R O V : Type} {E : Type → Type u}

/-- A thread whose answer earns. -/
def Thread.earned (earns : Q → R → Bool) (th : Thread Q E R) : Bool :=
  match th.prog with
  | .ret r => earns th.origin r
  | .call _ _ => false

variable (sys : Machine S Q R O V E) (earns : Q → R → Bool) (costs pays : Step S Q O V E → Bool)

/-- The program of `q` holds a credit if `b`, and spends only what it has. -/
def Solvent (q : Q) : Bool → Prog E R → Prop
  | b, .ret r => earns q r = true → b = true
  | b, .call e k => ∀ s o a s', sys.exec o e s = some (a, s') →
      (costs (.call s q o e a) = true → b = true) ∧
        Solvent q ((b && !costs (.call s q o e a)) || pays (.call s q o e a)) (k a)

variable {sys earns costs pays} {q : Q}

theorem solvent_ret {r : R} (h : earns q r = false) {b : Bool} :
    Solvent sys earns costs pays q b (.ret r) := fun hr => absurd hr (by simp [h])

/-- A call that costs nothing. -/
theorem solvent_call {α : Type} {e : E α} {k : α → Prog E R} {b : Bool}
    (he : ∀ s o a s', sys.exec o e s = some (a, s') → costs (.call s q o e a) = false ∧
      Solvent sys earns costs pays q (b || pays (.call s q o e a)) (k a)) :
    Solvent sys earns costs pays q b (.call e k) := by
  intro s o a s' hx
  obtain ⟨hcosts, hk⟩ := he s o a s' hx
  rw [hcosts]
  exact ⟨fun h => absurd h (by decide), by simpa using hk⟩

/-- A call that costs and pays nothing. -/
theorem solvent_free {α : Type} {e : E α} {k : α → Prog E R} {b : Bool}
    (hcosts : ∀ s o a, costs (.call s q o e a) = false)
    (hpays : ∀ s o a, pays (.call s q o e a) = false)
    (h : ∀ s o a s', sys.exec o e s = some (a, s') → Solvent sys earns costs pays q b (k a)) :
    Solvent sys earns costs pays q b (.call e k) := by
  refine solvent_call fun s o a s' hx => ⟨hcosts s o a, ?_⟩
  rw [hpays, Bool.or_false]
  exact h s o a s' hx

/-- Who spends nothing and earns nothing is solvent. -/
theorem solvent_of_free (hcosts : ∀ {α : Type} (s : S) (o : O) (e : E α) (a : α),
    costs (.call s q o e a) = false) (hearns : ∀ r, earns q r = false) {b : Bool} (p : Prog E R) :
    Solvent sys earns costs pays q b p := by
  induction p generalizing b with
  | ret r => exact solvent_ret (hearns r)
  | call e k ih => exact solvent_call fun s o a _ _ => ⟨hcosts s o e a, ih a⟩

theorem earned_imp_of_solvent {th : Thread Q E R} {b : Bool}
    (h : Solvent sys earns costs pays th.origin b th.prog) (he : th.earned earns = true) :
    b = true := by
  obtain ⟨q, p⟩ := th
  cases p with
  | ret r => exact h he
  | call e k => cases he

/-- One entry of a list of accounts changes. -/
theorem countP_id_set {bs : List Bool} {i : ℕ} (hi : i < bs.length) (b : Bool) :
    (bs.set i b).countP id + bs[i].toNat = bs.countP id + b.toNat := by
  have hpos : bs[i] = true → 0 < bs.countP id := fun h =>
    List.countP_pos_iff.2 ⟨_, List.getElem_mem hi, h⟩
  rw [List.countP_set hi]
  cases hb : bs[i] <;> cases b <;>
    simp only [hb, id, Bool.toNat_true, Bool.toNat_false, Bool.false_eq_true, if_true, if_false,
      forall_const] at hpos ⊢ <;> omega

variable {sch : Schedule S Q R O V E} {s₀ : S} {c : Config S Q R O V E}

/-- The accounts of a run: one for each thread, and what they hold and the run has cost was paid. -/
theorem exists_accounts (hstart : ∀ s q, costs (.start s q) = false)
    (henv : ∀ s v, costs (.env s v) = false)
    (hq : ∀ c q s, sch c (.start q) = true →
      Solvent sys earns costs pays q (pays (.start s q)) (sys.handler q))
    (h : sys.Reaches sch (.init s₀) c) :
    ∃ bs : List Bool,
      List.Forall₂ (fun th b => Solvent sys earns costs pays th.origin b th.prog) c.threads bs ∧
        bs.countP id + c.trace.countP costs ≤ c.trace.countP pays := by
  refine h.induct (C := fun _ => True) (I := fun c => ∃ bs : List Bool,
    List.Forall₂ (fun th b => Solvent sys earns costs pays th.origin b th.prog) c.threads bs ∧
      bs.countP id + c.trace.countP costs ≤ c.trace.countP pays)
    ⟨[], .nil, le_refl 0⟩ (fun _ _ => trivial) ?_
  rintro c m c' ⟨bs, hbs, hle⟩ hm hn -
  obtain ⟨q, s, rfl, -, rfl⟩ | ⟨i, o, q, α, e, k, a, s, -, hth, ha, rfl⟩ | ⟨v, s, -, -, rfl⟩ :=
    next_cases hn
  · refine ⟨bs ++ [pays (.start c.store q)],
      List.rel_append hbs (.cons (hq c q c.store hm) .nil), ?_⟩
    rw [List.countP_append, List.countP_singleton, List.countP_cons, List.countP_cons, hstart]
    simp only [id, Bool.false_eq_true, if_false]
    omega
  · obtain ⟨hi, hth⟩ := List.getElem?_eq_some_iff.1 hth
    have hlen := hbs.length_eq
    have hi' : i < bs.length := hlen ▸ hi
    have hp := (List.forall₂_iff_get.1 hbs).2 i hi hi'
    simp only [List.get_eq_getElem, hth] at hp
    obtain ⟨hcosts, hk⟩ := hp _ _ _ _ ha
    refine ⟨bs.set i ((bs[i] && !costs (.call c.store q o e a)) || pays (.call c.store q o e a)),
      List.forall₂_iff_get.2 ⟨by simpa using hlen, fun j hj hj' => ?_⟩, ?_⟩
    · simp only [List.get_eq_getElem, List.getElem_set]
      split
      · exact hk
      · exact (List.forall₂_iff_get.1 hbs).2 j _ _
    · have hset := countP_id_set hi'
        ((bs[i] && !costs (.call c.store q o e a)) || pays (.call c.store q o e a))
      rw [List.countP_cons, List.countP_cons]
      cases hb : bs[i] <;> cases hc : costs (.call c.store q o e a) <;>
        cases hpay : pays (.call c.store q o e a) <;> simp [hb, hc, hpay] at hset hcosts ⊢ <;> omega
  · refine ⟨bs, hbs, ?_⟩
    rw [List.countP_cons, List.countP_cons, henv]
    simp only [Bool.false_eq_true, if_false]
    omega

/-- **What a run spends, it was paid.** -/
theorem earned_add_costs_le_pays (hstart : ∀ s q, costs (.start s q) = false)
    (henv : ∀ s v, costs (.env s v) = false)
    (hq : ∀ c q s, sch c (.start q) = true →
      Solvent sys earns costs pays q (pays (.start s q)) (sys.handler q))
    (h : sys.Reaches sch (.init s₀) c) :
    c.threads.countP (Thread.earned earns) + c.trace.countP costs ≤ c.trace.countP pays := by
  obtain ⟨bs, hbs, hle⟩ := exists_accounts hstart henv hq h
  have hearned : c.threads.countP (Thread.earned earns) ≤ bs.countP id := by
    clear hle h
    generalize c.threads = ths at hbs
    induction hbs with
    | nil => exact le_refl 0
    | @cons th b ths bs hp _ ih =>
      rw [List.countP_cons, List.countP_cons]
      refine Nat.add_le_add ih ?_
      split
      · next he => simp [earned_imp_of_solvent hp he]
      · exact Nat.zero_le _
  omega

/-! ## Answers paid for by calls -/

variable (sys earns pays) in
/-- The program of `q` has paid, or makes a call that `pays` before an answer that `earns`. -/
def Pays (q : Q) (paid : Bool) (p : Prog E R) : Prop :=
  Solvent sys earns (fun _ => false) pays q paid p

/-- Who has paid may answer anything. -/
theorem pays_of_paid (p : Prog E R) : Pays sys earns pays q true p := by
  induction p with
  | ret r => exact fun _ => rfl
  | call e k ih => exact fun _ _ a _ _ => ⟨fun _ => rfl, ih a⟩

/-- Answers that earn nothing need no payment. -/
theorem pays_of_free (h : ∀ r, earns q r = false) {paid : Bool} (p : Prog E R) :
    Pays sys earns pays q paid p := by
  induction p generalizing paid with
  | ret r => exact solvent_ret (h r)
  | call e k ih => exact solvent_call fun _ _ a _ _ => ⟨rfl, ih a⟩

theorem pays_ret {r : R} (h : earns q r = false) {paid : Bool} :
    Pays sys earns pays q paid (.ret r) := solvent_ret h

/-- A call that pays, or after which the program still pays. -/
theorem pays_step {α : Type} {e : E α} {k : α → Prog E R} {paid : Bool}
    (h : ∀ s o a s', sys.exec o e s = some (a, s') →
      pays (.call s q o e a) = true ∨ Pays sys earns pays q paid (k a)) :
    Pays sys earns pays q paid (.call e k) := by
  refine solvent_call fun s o a s' hx => ⟨rfl, ?_⟩
  have key : Pays sys earns pays q (paid || pays (.call s q o e a)) (k a) := by
    cases hpay : pays (.call s q o e a) with
    | false => simpa [hpay] using h s o a s' hx
    | true => simpa using pays_of_paid (k a)
  exact key

/-- A call that need not pay. -/
theorem pays_call {α : Type} {e : E α} {k : α → Prog E R} {paid : Bool}
    (h : ∀ s o a s', sys.exec o e s = some (a, s') → Pays sys earns pays q paid (k a)) :
    Pays sys earns pays q paid (.call e k) :=
  pays_step fun s o a s' hx => Or.inr (h s o a s' hx)

/-- **The answers of a run are paid for by its calls.** -/
theorem answers_le_payments (hq : ∀ q, Pays sys earns pays q false (sys.handler q))
    (h : sys.Reaches sch (.init s₀) c) :
    c.threads.countP (Thread.earned earns) ≤ c.trace.countP pays := by
  have hstart : ∀ c q s, sch c (.start q) = true →
      Pays sys earns pays q (pays (.start s q)) (sys.handler q) := fun _ q s _ => by
    cases pays (.start s q) with
    | false => exact hq q
    | true => exact pays_of_paid _
  have hle := earned_add_costs_le_pays (fun _ _ => rfl) (fun _ _ => rfl) hstart h
  omega

end Interleave
