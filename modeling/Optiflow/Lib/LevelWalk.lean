import Mathlib.Data.List.Nodup
import Mathlib.Data.Set.Finite.List
import Mathlib.Data.Set.Finite.Lattice

/-!
# Walking a tree level by level

Members of a set `T` have an id and a home: a level named by the id of another member, or the top
level `none`.  A listing gives the members of one level (`Lists`).  The walk starts at the top and
goes on, round by round, to the level of every member it has listed (`round`, `visited`).  When every
home is a level that exists (`AtDepth`), the walk ends, visits no level twice, and whatever it lists on
the way it lists completely and once (`Lists.walk`).
-/

namespace LevelWalk

variable {κ ν β : Type}

/-- `list l` lists the members of `S` whose home is `l`, each once. -/
structure Lists (S : Set β) (home : β → Option κ) (list : Option κ → List β) : Prop where
  nodup : ∀ l, (list l).Nodup
  mem : ∀ l b, b ∈ list l ↔ b ∈ S ∧ home b = l

/-- Listing different levels lists nothing twice. -/
theorem Lists.flatMap {S : Set β} {home : β → Option κ} {list : Option κ → List β}
    (h : Lists S home list) {ls : List (Option κ)} (hls : ls.Nodup) :
    (ls.flatMap list).Nodup ∧ ∀ b, b ∈ ls.flatMap list ↔ b ∈ S ∧ home b ∈ ls := by
  constructor
  · refine List.nodup_flatMap.2 ⟨fun l _ => h.nodup l, hls.imp fun {l l'} hne b hb hb' => hne ?_⟩
    rw [← ((h.mem l b).1 hb).2, ← ((h.mem l' b).1 hb').2]
  · intro b
    simp only [List.mem_flatMap, h.mem]
    constructor
    · rintro ⟨l, hl, hb, rfl⟩
      exact ⟨hb, hl⟩
    · rintro ⟨hb, hl⟩
      exact ⟨_, hl, hb, rfl⟩

/-! ## Depth -/

section Depth

variable {T : Set ν} {id : ν → κ} {home : ν → Option κ}

/-- The level lies `n` below the top. -/
inductive AtDepth (T : Set ν) (id : ν → κ) (home : ν → Option κ) : ℕ → Option κ → Prop
  | top : AtDepth T id home 0 none
  | under {n : ℕ} {x : ν} : x ∈ T → AtDepth T id home n (home x) →
    AtDepth T id home (n + 1) (some (id x))

theorem atDepth_succ {n : ℕ} {l : Option κ} :
    AtDepth T id home (n + 1) l ↔ ∃ x ∈ T, AtDepth T id home n (home x) ∧ some (id x) = l := by
  constructor
  · rintro ⟨⟩
    exact ⟨_, ‹_›, ‹_›, rfl⟩
  · rintro ⟨x, hx, hn, rfl⟩
    exact .under hx hn

/-- A level has one depth. -/
theorem AtDepth.unique (hid : Set.InjOn id T) {n m : ℕ} {l : Option κ} (h : AtDepth T id home n l)
    (h' : AtDepth T id home m l) : n = m := by
  induction h generalizing m with
  | top =>
    cases h'
    rfl
  | @under n x hx _ ih =>
    cases m with
    | zero => cases h'
    | succ m =>
      obtain ⟨y, hy, hm, hyx⟩ := atDepth_succ.1 h'
      obtain rfl : y = x := hid hy hx (Option.some.inj hyx)
      rw [ih hm]

end Depth

/-! ## The walk -/

section Walk

variable (id : ν → κ) (list : Option κ → List ν)

/-- The levels reached in `n` rounds. -/
def round : ℕ → List (Option κ)
  | 0 => [none]
  | n + 1 => ((round n).flatMap list).map fun x => some (id x)

/-- The levels visited in the first `n` rounds. -/
def visited (n : ℕ) : List (Option κ) := (List.range n).flatMap (round id list)

variable {id list} {T : Set ν} {home : ν → Option κ}

/-- A round reaches the levels of its depth, each once. -/
theorem round_spec (hid : Set.InjOn id T) (h : Lists T home list) (n : ℕ) :
    (round id list n).Nodup ∧ ∀ l, l ∈ round id list n ↔ AtDepth T id home n l := by
  induction n with
  | zero =>
    refine ⟨List.nodup_singleton _, fun l => ?_⟩
    rw [round, List.mem_singleton]
    constructor
    · rintro rfl
      exact .top
    · intro hl
      cases hl
      rfl
  | succ n ih =>
    obtain ⟨hnodup, hmem⟩ := h.flatMap ih.1
    constructor
    · refine hnodup.map_on fun x hx y hy hxy => ?_
      exact hid ((hmem x).1 hx).1 ((hmem y).1 hy).1 (Option.some.inj hxy)
    · intro l
      simp only [round, List.mem_map, hmem, ih.2, atDepth_succ, and_assoc]

theorem visited_spec (hid : Set.InjOn id T) (h : Lists T home list) (n : ℕ) :
    (visited id list n).Nodup ∧
      ∀ l, l ∈ visited id list n ↔ ∃ m < n, AtDepth T id home m l := by
  constructor
  · refine List.nodup_flatMap.2 ⟨fun m _ => (round_spec hid h m).1, ?_⟩
    refine (List.nodup_range (n := n)).imp fun {m m'} hne l hl hl' => hne ?_
    exact (((round_spec hid h m).2 l).1 hl).unique hid (((round_spec hid h m').2 l).1 hl')
  · intro l
    simp only [visited, List.mem_flatMap, List.mem_range, (round_spec hid h _).2]

/-- **The walk ends** when every member has a home that exists and there are finitely many. -/
theorem exists_round_eq_nil (hid : Set.InjOn id T) (h : Lists T home list) (hT : T.Finite)
    (hhome : ∀ x ∈ T, ∃ n, AtDepth T id home n (home x)) :
    ∃ n, round id list n = [] ∧ ∀ m l, AtDepth T id home m l → m < n := by
  choose! depth hdepth using hhome
  obtain ⟨N, hN⟩ := (hT.image depth).bddAbove
  have hbound : ∀ m l, AtDepth T id home m l → m < N + 2 := by
    intro m l hm
    cases m with
    | zero => exact Nat.succ_pos _
    | succ m =>
      obtain ⟨x, hx, hm, -⟩ := atDepth_succ.1 hm
      have hmx : m = depth x := hm.unique hid (hdepth x hx)
      have hle : depth x ≤ N := hN (Set.mem_image_of_mem depth hx)
      omega
  refine ⟨N + 2, List.eq_nil_iff_forall_not_mem.2 fun l hl => ?_, hbound⟩
  exact absurd (hbound _ l (((round_spec hid h _).2 l).1 hl)) (lt_irrefl _)

/-- **What a walk lists** level by level, once it has ended: everything whose home exists, once. -/
theorem Lists.walk {S : Set β} {at' : β → Option κ} {items : Option κ → List β}
    (hitems : Lists S at' items) (hid : Set.InjOn id T) (h : Lists T home list) {n : ℕ}
    (hn : ∀ m l, AtDepth T id home m l → m < n) (hhome : ∀ b ∈ S, ∃ m, AtDepth T id home m (at' b)) :
    ((visited id list n).flatMap items).Nodup ∧
      ∀ b, b ∈ (visited id list n).flatMap items ↔ b ∈ S := by
  obtain ⟨hnodup, hmem⟩ := visited_spec hid h n
  obtain ⟨hnodup', hmem'⟩ := hitems.flatMap hnodup
  refine ⟨hnodup', fun b => (hmem' b).trans (and_iff_left_of_imp fun hb => ?_)⟩
  obtain ⟨m, hm⟩ := hhome b hb
  exact (hmem _).2 ⟨m, hn m _ hm, hm⟩

end Walk

end LevelWalk
