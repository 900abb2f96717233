import Optiflow.Lib.Interleave
import Mathlib.Algebra.BigOperators.Group.List.Basic
import Mathlib.Algebra.GroupWithZero.Nat

/-!
# Custody

Things pass between the store and the threads, and no step loses or duplicates one.  How much a thread
holds is read off its program, about which `shape` says as much as is needed for that.  What the store
and the threads of a run hold together is what its steps have made (`Custody.Valid.conserved`).
-/

universe u

namespace Interleave

open Machine

variable {S Q R O V : Type} {E : Type → Type u} {sys : Machine S Q R O V E}

theorem sum_map_toNat {ι : Type*} (p : ι → Bool) (l : List ι) :
    (l.map fun x => (p x).toNat).sum = l.countP p := by
  induction l with
  | nil => rfl
  | cons x l ih =>
    rw [List.map_cons, List.sum_cons, ih, List.countP_cons, Nat.add_comm]
    cases p x <;> rfl

/-- Who holds how much, and what a step makes. -/
structure Custody (sys : Machine S Q R O V E) where
  shape : Q → Prog E R → Prop
  held : Q → Prog E R → ℕ
  stored : S → ℕ
  made : Step S Q O V E → ℕ

namespace Custody

variable (K : Custody sys)

/-- No step loses or duplicates anything. -/
structure Valid : Prop where
  start : ∀ {q s s'}, sys.launch q s = some s' → K.shape q (sys.handler q) ∧
    K.stored s' + K.held q (sys.handler q) = K.stored s + K.made (.start s q)
  call : ∀ {q o} {α : Type} {e : E α} {k : α → Prog E R} {a s s'}, K.shape q (.call e k) →
    sys.exec o e s = some (a, s') → K.shape q (k a) ∧
      K.stored s' + K.held q (k a) = K.stored s + K.held q (.call e k) + K.made (.call s q o e a)
  env : ∀ {v s s'}, sys.env v s = some s' → K.stored s' = K.stored s + K.made (.env s v)

/-- What the threads hold. -/
def heldBy (threads : List (Thread Q E R)) : ℕ := (threads.map fun th => K.held th.origin th.prog).sum

variable {K}

/-- One thread goes on. -/
theorem heldBy_set {threads : List (Thread Q E R)} {i : ℕ} {th : Thread Q E R}
    (hi : threads[i]? = some th) (th' : Thread Q E R) :
    K.heldBy (threads.set i th') + K.held th.origin th.prog =
      K.heldBy threads + K.held th'.origin th'.prog := by
  induction threads generalizing i with
  | nil => cases hi
  | cons th₀ threads ih =>
    cases i with
    | zero =>
      obtain rfl : th₀ = th := by simpa using hi
      simp only [heldBy, List.set_cons_zero, List.map_cons, List.sum_cons]
      omega
    | succ i =>
      have := ih (i := i) (by simpa using hi)
      simp only [heldBy, List.set_cons_succ, List.map_cons, List.sum_cons] at this ⊢
      omega

variable {sch : Schedule S Q R O V E} {s₀ : S} {c : Config S Q R O V E}

/-- **Nothing is lost and nothing duplicated**, in any run. -/
theorem Valid.conserved (hK : K.Valid) (h : sys.Reaches sch (.init s₀) c) :
    K.stored c.store + K.heldBy c.threads = K.stored s₀ + (c.trace.map K.made).sum := by
  have key : (∀ th ∈ c.threads, K.shape th.origin th.prog) ∧
      K.stored c.store + K.heldBy c.threads = K.stored s₀ + (c.trace.map K.made).sum := by
    refine h.induct (C := fun _ => True) (I := fun c => (∀ th ∈ c.threads, K.shape th.origin th.prog) ∧
      K.stored c.store + K.heldBy c.threads = K.stored s₀ + (c.trace.map K.made).sum)
      ⟨fun _ hth => absurd hth List.not_mem_nil, rfl⟩ (fun _ _ => trivial) ?_
    rintro c m c' ⟨hshape, heq⟩ - hn -
    obtain ⟨q, s, -, ha, rfl⟩ | ⟨i, o, q, α, e, k, a, s, -, hth, ha, rfl⟩ | ⟨v, s, -, hv, rfl⟩ :=
      next_cases hn
    · obtain ⟨hq, hbalance⟩ := hK.start ha
      refine ⟨fun th hth => ?_, ?_⟩
      · rcases List.mem_append.1 hth with hth | hth
        · exact hshape th hth
        · exact List.mem_singleton.1 hth ▸ hq
      · have happend : K.heldBy (c.threads ++ [⟨q, sys.handler q⟩]) =
            K.heldBy c.threads + K.held q (sys.handler q) := by simp [heldBy]
        simp only [List.map_cons, List.sum_cons, happend]
        omega
    · obtain ⟨hk, hbalance⟩ := hK.call (hshape _ (List.mem_of_getElem? hth)) ha
      refine ⟨fun th hth' => ?_, ?_⟩
      · rcases List.mem_or_eq_of_mem_set hth' with hth' | rfl
        · exact hshape th hth'
        · exact hk
      · have hset := heldBy_set (K := K) hth ⟨q, k a⟩
        simp only [List.map_cons, List.sum_cons] at hset hbalance ⊢
        omega
    · have hbalance := hK.env hv
      refine ⟨hshape, ?_⟩
      simp only [List.map_cons, List.sum_cons]
      omega
  exact key.2

end Custody

end Interleave
