import Optiflow.Lib.RelyGuarantee

/-!
# Requests that start later

What a finished request has left in the store, and no move of the machine takes away, is found by every
request that starts afterwards (`Keeps.later`).  Requests that are still running at that time may see
either.
-/

universe u

namespace Interleave

open Machine

variable {S Q R O V : Type} {E : Type → Type u}

variable (sys : Machine S Q R O V E) in
/-- A property of the store that no move ends, and a relation between the stores before and after. -/
structure Machine.Keeps (I : S → Prop) (rel : S → S → Prop) : Prop where
  refl : ∀ s, rel s s
  trans : ∀ {s t u}, rel s t → rel t u → rel s u
  start : ∀ {q s s'}, sys.launch q s = some s' → I s → I s' ∧ rel s s'
  call : ∀ {o} {α : Type} {e : E α} {a s s'}, sys.exec o e s = some (a, s') → I s → I s' ∧ rel s s'
  env : ∀ {v s s'}, sys.env v s = some s' → I s → I s' ∧ rel s s'

/-- The outline of a standing property: whoever starts under it finds it at every call. -/
def Outline.standing (sys : Machine S Q R O V E) (I : S → Prop) (rel : S → S → Prop)
    (Φ : Q → R → Prop) : Outline sys where
  inv := I
  rely := rel
  pre _ _ _ _ := True
  post := Φ
  cond _ := True

variable {sys : Machine S Q R O V E} {I : S → Prop} {rel : S → S → Prop} {Φ : Q → R → Prop}

namespace Machine.Keeps

theorem safe_of_rel (hI : sys.Keeps I rel) {q : Q} {p : Prog E R} {s t : S}
    (h : (Outline.standing sys I rel Φ).Safe q p s) (hst : rel s t) :
    (Outline.standing sys I rel Φ).Safe q p t := by
  cases p with
  | ret r => exact h
  | call e k => exact fun u htu hu => h u (hI.trans hst htu) hu

/-- The requests that start under a standing property are answered as it says. -/
theorem later (hI : sys.Keeps I rel)
    (hsafe : ∀ q s, I s → (Outline.standing sys I rel Φ).Safe q (sys.handler q) s)
    {sch : Schedule S Q R O V E} {c c' : Config S Q R O V E} (h : sys.Reaches sch c c')
    (hc : I c.store) {j : ℕ} {q : Q} {r : R} (hj : c.threads.length ≤ j)
    (hth : c'.threads[j]? = some ⟨q, .ret r⟩) : Φ q r := by
  have key : I c'.store ∧ c.threads.length ≤ c'.threads.length ∧
      ∀ j th, c.threads.length ≤ j → c'.threads[j]? = some th →
        (Outline.standing sys I rel Φ).Safe th.origin th.prog c'.store := by
    refine h.induct (C := fun _ => True) (I := fun c' => I c'.store ∧
      c.threads.length ≤ c'.threads.length ∧ ∀ j th, c.threads.length ≤ j → c'.threads[j]? = some th →
        (Outline.standing sys I rel Φ).Safe th.origin th.prog c'.store)
      ⟨hc, le_rfl, fun j th hj hth => ?_⟩ (fun _ _ => trivial) ?_
    · exact absurd (List.getElem?_eq_some_iff.1 hth).1 (Nat.not_lt.2 hj)
    · rintro d m d' ⟨hd, hlen, hold⟩ - hn -
      obtain ⟨q, s, -, ha, rfl⟩ | ⟨i, o, q, α, e, k, a, s, -, hi, ha, rfl⟩ | ⟨v, s, -, hv, rfl⟩ :=
        next_cases hn
      · obtain ⟨hs, hrel⟩ := hI.start ha hd
        refine ⟨hs, by rw [List.length_append]; omega, fun j th hj hth => ?_⟩
        by_cases hlt : j < d.threads.length
        · rw [List.getElem?_append_left hlt] at hth
          exact hI.safe_of_rel (hold j th hj hth) hrel
        · rw [List.getElem?_append_right (Nat.not_lt.1 hlt)] at hth
          obtain rfl := List.mem_singleton.1 (List.mem_of_getElem? hth)
          exact hsafe q s hs
      · obtain ⟨hs, hrel⟩ := hI.call ha hd
        refine ⟨hs, by rw [List.length_set]; exact hlen, fun j th hj hth => ?_⟩
        by_cases hij : i = j
        · subst hij
          have hlt : i < d.threads.length := (List.getElem?_eq_some_iff.1 hi).1
          rw [List.getElem?_set_self hlt] at hth
          obtain rfl := Option.some.inj hth
          exact (hold i _ hj hi d.store (hI.refl _) hd).2 o a s trivial ha hs
        · rw [List.getElem?_set_ne hij] at hth
          exact hI.safe_of_rel (hold j th hj hth) hrel
      · obtain ⟨hs, hrel⟩ := hI.env hv hd
        exact ⟨hs, hlen, fun j th hj hth => hI.safe_of_rel (hold j th hj hth) hrel⟩
  exact key.2.2 j _ hj hth

end Machine.Keeps

end Interleave
