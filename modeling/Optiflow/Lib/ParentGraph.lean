import Mathlib.Logic.Relation
import Mathlib.Logic.Function.Basic
import Mathlib.Data.Fintype.Card
import Mathlib.Order.RelClasses

/-!
# Parent pointers

A node points at its parent or at nothing.  A node is *grounded* when climbing from it ends, and
`Climbs up x y` says that the climb from `x` passes `y`.  Pointing `x` at a node that does not climb
to `x` keeps every node grounded (`grounded_update`), and so does dropping pointers
(`Grounded.mono`).  Over finitely many grounded nodes, going down ends as well
(`wellFounded_children`).  Then the graph is acyclic if and only if every node is grounded
(`acyclic_iff_grounded`), and a move keeps it so exactly when the new parent does not climb to what is
moved (`acyclic_update_iff`).
-/

namespace ParentGraph

open Relation

variable {κ : Type} {up up' : κ → Option κ} {x y z : κ}

/-- The climb from `x` passes `y`; it starts at `x` itself. -/
def Climbs (up : κ → Option κ) : κ → κ → Prop := ReflTransGen fun a b => up a = some b

/-- The climb from `x` ends. -/
inductive Grounded (up : κ → Option κ) : κ → Prop
  | root {x : κ} : up x = none → Grounded up x
  | step {x y : κ} : up x = some y → Grounded up y → Grounded up x

/-- The node `n` steps up. -/
def ascend (up : κ → Option κ) : ℕ → κ → Option κ
  | 0, x => some x
  | n + 1, x => (up x).bind (ascend up n)

/-! ## Climbing -/

/-- A climb either has not left `x`, or goes through its parent. -/
theorem climbs_cases (h : Climbs up x z) : z = x ∨ ∃ y, up x = some y ∧ Climbs up y z := by
  obtain rfl | ⟨y, hxy, hyz⟩ := ReflTransGen.cases_head h
  · exact Or.inl rfl
  · exact Or.inr ⟨y, hxy, hyz⟩

theorem Climbs.head (h : up x = some y) (h' : Climbs up y z) : Climbs up x z :=
  ReflTransGen.head h h'

/-- The climb from `x` passes `y` in its first `n` steps. -/
def climbsWithin [DecidableEq κ] (up : κ → Option κ) : ℕ → κ → κ → Bool
  | 0, _, _ => false
  | n + 1, x, y => x = y || (up x).any fun z => climbsWithin up n z y

/-- Where the climb ends within the bound, the bounded test is exact. -/
theorem climbsWithin_iff [DecidableEq κ] {n : ℕ} (h : ascend up n x = none) :
    climbsWithin up n x y = true ↔ Climbs up x y := by
  induction n generalizing x with
  | zero => cases h
  | succ n ih =>
    simp only [climbsWithin, Bool.or_eq_true, decide_eq_true_eq]
    cases hx : up x with
    | none =>
      simp only [Option.any_none, Bool.false_eq_true, or_false]
      constructor
      · rintro rfl
        exact .refl
      · intro hxy
        obtain rfl | ⟨z, hz, -⟩ := climbs_cases hxy
        · rfl
        · cases hx.symm.trans hz
    | some z =>
      have hz : ascend up n z = none := by simpa [ascend, hx] using h
      rw [Option.any_some, ih hz]
      constructor
      · rintro (rfl | hzy)
        · exact .refl
        · exact .head hx hzy
      · intro hxy
        obtain rfl | ⟨z', hz', hzy⟩ := climbs_cases hxy
        · exact Or.inl rfl
        · obtain rfl : z = z' := Option.some.inj (hx.symm.trans hz')
          exact Or.inr hzy

/-! ## Grounded nodes -/

theorem grounded_iff_ascend : Grounded up x ↔ ∃ n, ascend up n x = none := by
  constructor
  · intro h
    induction h with
    | root h => exact ⟨1, by simp [ascend, h]⟩
    | step h _ ih =>
      obtain ⟨n, hn⟩ := ih
      exact ⟨n + 1, by simpa [ascend, h] using hn⟩
  · rintro ⟨n, hn⟩
    induction n generalizing x with
    | zero => cases hn
    | succ n ih =>
      cases h : up x with
      | none => exact .root h
      | some y =>
        simp only [ascend, h, Option.bind_some] at hn
        exact .step h (ih hn)

/-- Dropping pointers. -/
theorem Grounded.mono (h : Grounded up x) (hle : ∀ a b, up' a = some b → up a = some b) :
    Grounded up' x := by
  induction h with
  | @root x h =>
    cases h' : up' x with
    | none => exact .root h'
    | some y => cases h.symm.trans (hle x y h')
  | @step x y h _ ih =>
    cases h' : up' x with
    | none => exact .root h'
    | some z =>
      obtain rfl : y = z := Option.some.inj (h.symm.trans (hle x z h'))
      exact .step h' ih

/-- A grounded node does not come back to itself. -/
theorem Grounded.not_climbs (h : Grounded up x) (hxy : up x = some y) : ¬Climbs up y x := by
  induction h generalizing y with
  | root h => cases h.symm.trans hxy
  | @step x z h _ ih =>
    obtain rfl : z = y := Option.some.inj (h.symm.trans hxy)
    intro hback
    obtain rfl | ⟨w, hw, hwx⟩ := climbs_cases hback
    · exact ih hxy .refl
    · exact ih hw (hwx.tail h)

variable [DecidableEq κ]

/-- A climb passes every pointing node once, so it is no longer than their number. -/
theorem Grounded.ascend_eq_none (h : Grounded up x) {l : List κ}
    (hl : ∀ y, Climbs up x y → up y ≠ none → y ∈ l) : ascend up (l.length + 1) x = none := by
  induction h generalizing l with
  | root hx => simp [ascend, hx]
  | @step x y hx hy ih =>
    have hmem : x ∈ l := hl x .refl (by simp [hx])
    have hlen : (l.erase x).length + 1 = l.length := by
      have hpos := List.length_pos_of_mem hmem
      have herase := List.length_erase_of_mem hmem
      omega
    -- The climb does not come back to `x`.
    have habove : ascend up ((l.erase x).length + 1) y = none := ih fun z hyz hz => by
      have hne : z ≠ x := fun he => (Grounded.step hx hy).not_climbs hx (he ▸ hyz)
      exact (List.mem_erase_of_ne hne).2 (hl z (.head hx hyz) hz)
    rw [hlen] at habove
    simpa [ascend, hx] using habove

/-- **Moving a node**: pointing `x` at nothing, or at a node that does not climb to `x`, keeps every
node grounded. -/
theorem grounded_update (h : ∀ z, Grounded up z) {v : Option κ}
    (hv : ∀ p, v = some p → ¬Climbs up p x) (z : κ) : Grounded (Function.update up x v) z := by
  -- Off the climb to `x` nothing has changed.
  have away : ∀ p, Grounded up p → ¬Climbs up p x → Grounded (Function.update up x v) p := by
    intro p hp
    induction hp with
    | @root p hp =>
      intro hpx
      have hne : p ≠ x := fun he => hpx (he ▸ .refl)
      exact .root (by rw [Function.update_of_ne hne, hp])
    | @step p q hp _ ih =>
      intro hpx
      have hne : p ≠ x := fun he => hpx (he ▸ .refl)
      exact .step (by rw [Function.update_of_ne hne, hp]) (ih fun hq => hpx (.head hp hq))
  have hx : Grounded (Function.update up x v) x := by
    cases hvp : v with
    | none => exact .root (by rw [Function.update_self])
    | some p => exact .step (Function.update_self ..) (hvp ▸ away p (h p) (hv p hvp))
  induction h z with
  | @root z hz =>
    by_cases hzx : z = x
    · exact hzx ▸ hx
    · exact .root (by rw [Function.update_of_ne hzx, hz])
  | @step z y hz _ ih =>
    by_cases hzx : z = x
    · exact hzx ▸ hx
    · exact .step (by rw [Function.update_of_ne hzx, hz]) ih

omit [DecidableEq κ]

/-! ## Acyclic graphs -/

/-- No climb comes back to where it started. -/
def Acyclic (up : κ → Option κ) : Prop := ∀ x, ¬TransGen (fun a b => up a = some b) x x

theorem acyclic_of_grounded (h : ∀ x, Grounded up x) : Acyclic up := by
  intro x hx
  obtain ⟨y, hxy, hyx⟩ := TransGen.head'_iff.1 hx
  exact (h x).not_climbs hxy hyx

/-- Going down ends too when there are finitely many nodes. -/
theorem wellFounded_children [Finite κ] (h : ∀ z, Grounded up z) :
    WellFounded fun c x => up c = some x := by
  have : Std.Irrefl (TransGen fun c x : κ => up c = some x) := ⟨acyclic_of_grounded h⟩
  exact Subrelation.wf (r := TransGen fun c x : κ => up c = some x) (fun hcx => .single hcx)
    (Finite.wellFounded_of_trans_of_irrefl _)

theorem Acyclic.grounded [Finite κ] (h : Acyclic up) (x : κ) : Grounded up x := by
  have hirrefl : ∀ a, ¬TransGen (fun b a => up a = some b) a a := fun a ha =>
    h a (transGen_swap.1 ha)
  have : Std.Irrefl (TransGen fun b a : κ => up a = some b) := ⟨hirrefl⟩
  have hwf : WellFounded fun b a : κ => up a = some b :=
    Subrelation.wf (r := TransGen fun b a : κ => up a = some b) (fun hba => .single hba)
      (Finite.wellFounded_of_trans_of_irrefl _)
  induction x using hwf.induction with
  | h x ih =>
    cases hx : up x with
    | none => exact .root hx
    | some y => exact .step hx (ih y hx)

/-- A climb to `x` is one also when `x` points elsewhere. -/
theorem Climbs.update [DecidableEq κ] {v : Option κ} (h : Climbs up y x) :
    Climbs (Function.update up x v) y x := by
  induction h using ReflTransGen.head_induction_on with
  | refl => exact .refl
  | @head a b hab _ ih =>
    by_cases hax : a = x
    · exact hax ▸ .refl
    · exact .head (by rw [Function.update_of_ne hax, hab]) ih

/-- **A move is legal** exactly when the new parent does not climb to the node. -/
theorem acyclic_update_iff [Finite κ] [DecidableEq κ] (h : Acyclic up) :
    Acyclic (Function.update up x (some y)) ↔ ¬Climbs up y x := by
  constructor
  · intro hupdate hclimb
    exact hupdate x (TransGen.head' (Function.update_self ..) hclimb.update)
  · intro hclimb
    refine acyclic_of_grounded (grounded_update h.grounded fun p hp => ?_)
    exact Option.some.inj hp ▸ hclimb

end ParentGraph
