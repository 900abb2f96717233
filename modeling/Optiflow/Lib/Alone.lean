import Optiflow.Lib.Interleave

/-!
# Programs run alone

`Machine.Finishes` is a run of one program with nothing in between: the calls it made, its answer and
the store it leaves.  `Machine.Ends` reads a program backwards from what should hold at its end, over
all runs whose calls meet a condition (`Finishes.of_ends`), `Machine.MayEnd` over some such run, and
`Machine.Proceeds` says that such a run can always go on (`Proceeds.finishes`); with `Ends` and
`Proceeds` a program `Performs` its task.  `Machine.gets` runs a program up to the first call of a kind,
and `Machine.play` runs it with the oracles of a list.

A request run alone from a quiet configuration is a part of a sequential run (`Finishes.reaches`), and
what each of its calls does to the store (`Machine.Meets`), the request does (`Finishes.related`).
-/

universe u

namespace Interleave

variable {S Q R O V : Type} {E : Type → Type u}

namespace Machine

variable (sys : Machine S Q R O V E)

/-- A run of a program alone: its calls, its answer and the store after it. -/
inductive Finishes (q : Q) : Prog E R → S → List (Step S Q O V E) → R → S → Prop
  | ret (r : R) (s : S) : Finishes q (.ret r) s [] r s
  | call {α : Type} {e : E α} {k : α → Prog E R} {s s' t : S} {o : O} {a : α}
      {tr : List (Step S Q O V E)} {r : R} : sys.exec o e s = some (a, s') →
      Finishes q (k a) s' tr r t → Finishes q (.call e k) s (.call s q o e a :: tr) r t

/-- Every run whose calls meet `C` ends in `Φ`. -/
def Ends (C : Step S Q O V E → Prop) (q : Q) :
    Prog E R → S → (List (Step S Q O V E) → R → S → Prop) → Prop
  | .ret r, s, Φ => Φ [] r s
  | .call e k, s, Φ => ∀ o a s', C (.call s q o e a) → sys.exec o e s = some (a, s') →
      Ends C q (k a) s' fun tr => Φ (.call s q o e a :: tr)

/-- Every run whose calls meet `C` can go on until the program has answered. -/
def Proceeds (C : Step S Q O V E → Prop) (q : Q) : Prog E R → S → Prop
  | .ret _, _ => True
  | .call e k, s => (∃ o a s', C (.call s q o e a) ∧ sys.exec o e s = some (a, s')) ∧
      ∀ o a s', C (.call s q o e a) → sys.exec o e s = some (a, s') → Proceeds C q (k a) s'

/-- Some run whose calls meet `C` comes to an end, and every such run ends in `Φ`. -/
structure Performs (C : Step S Q O V E → Prop) (q : Q) (p : Prog E R) (s : S) (Φ : R → S → Prop) :
    Prop where
  run : ∃ tr r t, Finishes sys q p s tr r t ∧ ∀ st ∈ tr, C st
  ends : ∀ tr r t, Finishes sys q p s tr r t → (∀ st ∈ tr, C st) → Φ r t

/-- Some run whose calls meet `C` ends in `Φ`. -/
def MayEnd (C : Step S Q O V E → Prop) (q : Q) (p : Prog E R) (s : S) (Φ : R → S → Prop) : Prop :=
  ∃ tr r t, Finishes sys q p s tr r t ∧ (∀ st ∈ tr, C st) ∧ Φ r t

/-- Run alone, the program makes a call of the kind `stop`. -/
def gets (o : O) (stop : {α : Type} → E α → Bool) : Prog E R → S → Bool
  | .ret _, _ => false
  | .call e k, s => stop e || (sys.exec o e s).elim false fun r => gets o stop (k r.1) r.2

/-- The run with the oracles of a list. -/
def play (q : Q) : List O → Prog E R → S → Option (List (Step S Q O V E) × R × S)
  | _, .ret r, s => some ([], r, s)
  | [], .call _ _, _ => none
  | o :: os, .call e k, s => (sys.exec o e s).bind fun x =>
      (play q os (k x.1) x.2).map fun y => (.call s q o e x.1 :: y.1, y.2)

/-- Every call of a run meets `φ` in the store that it is made in. -/
def Meets (φ : {α : Type} → E α → S → Prop) : Prog E R → S → Prop
  | .ret _, _ => True
  | .call e k, s => φ e s ∧ ∀ o a s', sys.exec o e s = some (a, s') → Meets φ (k a) s'

variable {sys} {C : Step S Q O V E → Prop} {q : Q} {p : Prog E R} {s t : S} {r : R}
  {tr : List (Step S Q O V E)} {Φ Ψ : List (Step S Q O V E) → R → S → Prop}

theorem Finishes.of_ends (hf : sys.Finishes q p s tr r t) (h : sys.Ends C q p s Φ)
    (hC : ∀ st ∈ tr, C st) : Φ tr r t := by
  induction hf generalizing Φ with
  | ret r s => exact h
  | call hx _ ih =>
    exact ih (h _ _ _ (hC _ List.mem_cons_self) hx) fun st hst => hC st (List.mem_cons_of_mem _ hst)

/-- What always holds holds at the end. -/
theorem ends_of_forall (h : ∀ tr r t, Φ tr r t) : sys.Ends C q p s Φ := by
  induction p generalizing s Φ with
  | ret r => exact h [] r s
  | call e k ih => exact fun o a s' _ _ => ih a fun tr => h _

theorem Ends.mono (h : sys.Ends C q p s Φ) (hΦ : ∀ tr r t, Φ tr r t → Ψ tr r t) :
    sys.Ends C q p s Ψ := by
  induction p generalizing s Φ Ψ with
  | ret r => exact hΦ _ _ _ h
  | call e k ih => exact fun o a s' hC hx => ih a (h o a s' hC hx) fun tr => hΦ _

theorem Proceeds.finishes (h : sys.Proceeds C q p s) :
    ∃ tr r t, sys.Finishes q p s tr r t ∧ ∀ st ∈ tr, C st := by
  induction p generalizing s with
  | ret r => exact ⟨[], r, s, .ret r s, fun _ h => absurd h List.not_mem_nil⟩
  | call e k ih =>
    obtain ⟨⟨o, a, s', hC, hx⟩, hk⟩ := h
    obtain ⟨tr, r, t, hf, htr⟩ := ih a (hk o a s' hC hx)
    exact ⟨_, r, t, .call hx hf, List.forall_mem_cons.2 ⟨hC, htr⟩⟩

theorem MayEnd.ret {Φ : R → S → Prop} (h : Φ r s) : sys.MayEnd C q (.ret r) s Φ :=
  ⟨[], r, s, .ret r s, fun _ h => absurd h List.not_mem_nil, h⟩

theorem MayEnd.call {α : Type} {e : E α} {k : α → Prog E R} {s' : S} {o : O} {a : α}
    {Φ : R → S → Prop} (hx : sys.exec o e s = some (a, s')) (hC : C (.call s q o e a))
    (h : sys.MayEnd C q (k a) s' Φ) : sys.MayEnd C q (.call e k) s Φ := by
  obtain ⟨tr, r, t, hf, htr, hΦ⟩ := h
  exact ⟨_, r, t, .call hx hf, List.forall_mem_cons.2 ⟨hC, htr⟩, hΦ⟩

theorem Proceeds.performs {Φ : R → S → Prop} (h : sys.Proceeds C q p s)
    (he : sys.Ends C q p s fun _ => Φ) : sys.Performs C q p s Φ :=
  ⟨h.finishes, fun _ _ _ hf htr => hf.of_ends he htr⟩

theorem finishes_of_play {os : List O} (h : sys.play q os p s = some (tr, r, t)) :
    sys.Finishes q p s tr r t := by
  induction p generalizing os s tr with
  | ret r' =>
    simp only [play, Option.some.injEq, Prod.mk.injEq] at h
    obtain ⟨rfl, rfl, rfl⟩ := h
    exact .ret _ _
  | call e k ih =>
    cases os with
    | nil => cases h
    | cons o os =>
      simp only [play, Option.bind_eq_some_iff, Option.map_eq_some_iff, Prod.mk.injEq] at h
      obtain ⟨⟨a, s'⟩, hx, ⟨tr', r', t'⟩, hplay, rfl, rfl, rfl⟩ := h
      exact .call hx (ih a hplay)

/-- A kind of calls asks nothing of the store. -/
theorem meets_of_makes {φ : {α : Type} → E α → Prop} (h : p.Makes φ) :
    sys.Meets (fun e _ => φ e) p s := by
  induction p generalizing s with
  | ret r => trivial
  | call e k ih => exact ⟨h.1, fun o a s' _ => ih a (h.2 a)⟩

/-- What relates the stores before and after each call relates those before and after the run. -/
theorem Finishes.related {φ : {α : Type} → E α → S → Prop} {A : S → S → Prop}
    (hf : sys.Finishes q p s tr r t) (h : sys.Meets φ p s) (hrefl : ∀ s, A s s)
    (htrans : ∀ {s t u}, A s t → A t u → A s u)
    (hstep : ∀ {o} {α : Type} {e : E α} {a s s'}, φ e s → sys.exec o e s = some (a, s') → A s s') :
    A s t := by
  induction hf with
  | ret r s => exact hrefl s
  | call hx _ ih => exact htrans (hstep h.1 hx) (ih (h.2 _ _ _ hx))

/-- A request that starts when nothing else runs, and then runs alone, is a part of a run. -/
theorem Finishes.reaches {c₀ c : Config S Q R O V E} (hf : sys.Finishes q (sys.handler q) s tr r t)
    (hc : sys.Reaches sequential c₀ c) (hquiet : c.quiet = true) (hq : sys.launch q c.store = some s) :
    ∃ c', sys.Reaches sequential c₀ c' ∧ c'.store = t ∧ c'.quiet = true := by
  have key : ∀ {p s tr r t}, sys.Finishes q p s tr r t → ∀ c' : Config S Q R O V E,
      sys.Reaches sequential c₀ c' → c'.store = s → c'.threads = c.threads ++ [⟨q, p⟩] →
      ∃ c', sys.Reaches sequential c₀ c' ∧ c'.store = t ∧ c'.threads = c.threads ++ [⟨q, .ret r⟩] := by
    intro p s tr r t hf
    induction hf with
    | ret r s => exact fun c' hc' hs hth => ⟨c', hc', hs, hth⟩
    | @call α e k s s' t o a tr r hx _ ih =>
      rintro c' hc' rfl hth
      have hi : c'.threads[c.threads.length]? = some ⟨q, .call e k⟩ := by
        rw [hth, List.getElem?_append_right (Nat.le_refl _), Nat.sub_self]
        rfl
      have hn : sys.next c' (.step c.threads.length o) =
          some ⟨s', c'.threads.set c.threads.length ⟨q, k a⟩, .call c'.store q o e a :: c'.trace⟩ := by
        simp only [next, hi, hx, Option.map_some]
      refine ih _ (.move _ hc' rfl hn) rfl ?_
      rw [hth, List.set_append_right _ _ (Nat.le_refl _), Nat.sub_self]
      rfl
  have hn : sys.next c (.start q) =
      some ⟨s, c.threads ++ [⟨q, sys.handler q⟩], .start c.store q :: c.trace⟩ := by
    simp only [next, hq, Option.map_some]
  obtain ⟨c', hc', hs, hth⟩ := key hf _ (.move (.start q) hc hquiet hn) rfl rfl
  refine ⟨c', hc', hs, ?_⟩
  rw [Config.quiet, hth, List.all_append, Bool.and_eq_true]
  exact ⟨hquiet, rfl⟩

variable (sys q p s) in
/-- A test that the run with the oracles of a list passes. -/
theorem exists_finishes (P : List (Step S Q O V E) → R → S → Bool) (os : List O)
    (h : ((sys.play q os p s).elim false fun x => P x.1 x.2.1 x.2.2) = true) :
    ∃ tr r t, sys.Finishes q p s tr r t ∧ P tr r t = true := by
  cases hp : sys.play q os p s with
  | none =>
    rw [hp] at h
    cases h
  | some x =>
    rw [hp] at h
    exact ⟨x.1, x.2.1, x.2.2, finishes_of_play hp, h⟩

end Machine

end Interleave
