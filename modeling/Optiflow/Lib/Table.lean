import Mathlib.Data.List.Nodup
import Mathlib.Data.List.MinMax
import Mathlib.Algebra.BigOperators.Group.List.Basic
import Mathlib.Algebra.Order.BigOperators.Group.List
import Mathlib.Algebra.Ring.Int.Defs

/-!
# Tables with a primary key

A `Table` is a list of rows whose keys are distinct, together with its births: every key that was
ever in the table, with the row it was first inserted as.  Both facts are fields, so every operation
below returns a table that has them.  The operations are those of a row store: look up by key, insert
under a fresh key, `save` (update all columns, or insert when there is no such row), modify the rows
that match, delete the rows that match.  Each is described by its effect on membership (`mem_insert`,
`mem_save`, `mem_modify`, `mem_delete`); births only grow.
-/

/-- Rows of type `ρ` carry a primary key of type `κ`. -/
class Keyed (ρ : Type) (κ : outParam Type) where
  key : ρ → κ

export Keyed (key)

/-- Rows with distinct keys, and every key ever used with its first row. -/
structure Table (ρ : Type) {κ : Type} [Keyed ρ κ] where
  rows : List ρ
  births : List ρ
  nodup : (rows.map key).Nodup
  nodup_births : (births.map key).Nodup
  key_mem_births : ∀ r ∈ rows, key r ∈ births.map key

namespace Table

variable {ρ κ : Type} [Keyed ρ κ]

instance : Membership ρ (Table ρ) := ⟨fun t r => r ∈ t.rows⟩

theorem mem_def {t : Table ρ} {r : ρ} : r ∈ t ↔ r ∈ t.rows := Iff.rfl

/-- The table without rows. -/
def empty : Table ρ :=
  ⟨[], [], List.nodup_nil, List.nodup_nil, fun _ h => absurd h List.not_mem_nil⟩

@[simp] theorem not_mem_empty {r : ρ} : r ∉ (empty : Table ρ) := List.not_mem_nil

@[simp] theorem births_empty : (empty : Table ρ).births = [] := rfl

/-- A key names at most one row. -/
theorem eq_of_key {t : Table ρ} {r r' : ρ} (h : r ∈ t) (h' : r' ∈ t) (hk : key r = key r') :
    r = r' :=
  List.inj_on_of_nodup_map t.nodup h h' hk

/-- The key was in the table at some time. -/
def Used (t : Table ρ) (k : κ) : Prop := k ∈ t.births.map key

instance [DecidableEq κ] (t : Table ρ) (k : κ) : Decidable (t.Used k) :=
  inferInstanceAs (Decidable (k ∈ t.births.map key))

theorem used_of_mem {t : Table ρ} {r : ρ} (h : r ∈ t) : t.Used (key r) := t.key_mem_births r h

theorem used_iff {t : Table ρ} {k : κ} : t.Used k ↔ ∃ b ∈ t.births, key b = k := List.mem_map

/-- A key has one birth. -/
theorem eq_of_birth {t : Table ρ} {b b' : ρ} (h : b ∈ t.births) (h' : b' ∈ t.births)
    (hk : key b = key b') : b = b' :=
  List.inj_on_of_nodup_map t.nodup_births h h' hk

theorem Used.mono {t t' : Table ρ} (h : t.births ⊆ t'.births) {k : κ} (hk : t.Used k) :
    t'.Used k := by
  obtain ⟨b, hb, rfl⟩ := used_iff.1 hk
  exact used_iff.2 ⟨b, h hb, rfl⟩

/-! ## Reading -/

section Read

variable [DecidableEq κ]

/-- The row with a given key. -/
def get? (t : Table ρ) (k : κ) : Option ρ := t.rows.find? fun r => key r = k

theorem get?_eq_some {t : Table ρ} {k : κ} {r : ρ} : t.get? k = some r ↔ r ∈ t ∧ key r = k := by
  constructor
  · intro h
    exact ⟨List.mem_of_find?_eq_some h, by simpa using List.find?_some h⟩
  · rintro ⟨hr, rfl⟩
    cases h : t.get? (key r) with
    | none => simpa using List.find?_eq_none.1 h r hr
    | some r' =>
      have hr' : r' ∈ t := List.mem_of_find?_eq_some h
      have hk : key r' = key r := by simpa using List.find?_some h
      rw [eq_of_key hr' hr hk]

theorem get?_eq_none {t : Table ρ} {k : κ} : t.get? k = none ↔ ∀ r ∈ t, key r ≠ k := by
  simp [get?, List.find?_eq_none, mem_def]

theorem get?_of_mem {t : Table ρ} {r : ρ} (h : r ∈ t) : t.get? (key r) = some r :=
  get?_eq_some.2 ⟨h, rfl⟩

end Read

section First

variable {β : Type} [LinearOrder β]

/-- The matching row whose key ranks first. -/
def first (rank : κ → β) (p : ρ → Bool) (t : Table ρ) : Option ρ :=
  (t.rows.filter p).argmin fun r => rank (key r)

theorem mem_of_first {rank : κ → β} {p : ρ → Bool} {t : Table ρ} {r : ρ}
    (h : t.first rank p = some r) : r ∈ t ∧ p r = true :=
  List.mem_filter.1 (List.argmin_mem h)

theorem exists_first (rank : κ → β) {p : ρ → Bool} {t : Table ρ} {r : ρ} (hr : r ∈ t)
    (hp : p r = true) : ∃ r', t.first rank p = some r' := by
  rw [← Option.isSome_iff_exists, Option.isSome_iff_ne_none]
  intro h
  have : t.rows.filter p = [] := List.argmin_eq_none.1 h
  exact absurd (List.mem_filter.2 ⟨hr, hp⟩) (this ▸ List.not_mem_nil)

theorem first_eq_none {rank : κ → β} {p : ρ → Bool} {t : Table ρ} :
    t.first rank p = none ↔ ∀ r ∈ t, p r = false := by
  rw [first, List.argmin_eq_none, List.filter_eq_nil_iff]
  simp only [mem_def, Bool.not_eq_true]

end First

/-! ## Writing -/

/-- Insert a row under a key that was never used. -/
def insert (r : ρ) (t : Table ρ) (h : ¬t.Used (key r)) : Table ρ where
  rows := t.rows ++ [r]
  births := r :: t.births
  nodup := by
    rw [List.map_append, List.nodup_append]
    refine ⟨t.nodup, by simp, ?_⟩
    rintro _ ha _ hb rfl
    obtain ⟨x, hx, hxk⟩ := List.mem_map.1 ha
    simp only [List.map_cons, List.map_nil, List.mem_singleton] at hb
    exact h (hb ▸ hxk ▸ used_of_mem (t := t) hx)
  nodup_births := List.nodup_cons.2 ⟨h, t.nodup_births⟩
  key_mem_births := by
    intro x hx
    rcases List.mem_append.1 hx with hx | hx
    · exact List.mem_cons_of_mem _ (t.key_mem_births x hx)
    · rw [List.mem_singleton.1 hx]
      exact List.mem_cons_self

theorem mem_insert {r x : ρ} {t : Table ρ} (h : ¬t.Used (key r)) :
    x ∈ t.insert r h ↔ x = r ∨ x ∈ t := by
  simp only [mem_def, insert, List.mem_append, List.mem_singleton]
  exact or_comm

@[simp] theorem births_insert {r : ρ} {t : Table ρ} {h : ¬t.Used (key r)} :
    (t.insert r h).births = r :: t.births := rfl

/-- Apply `g` to the rows that match `p`; `g` leaves keys alone. -/
def modify (p : ρ → Bool) (g : ρ → ρ) (t : Table ρ) (hg : ∀ r, key (g r) = key r) : Table ρ where
  rows := t.rows.map fun r => if p r then g r else r
  births := t.births
  nodup := by
    have : (t.rows.map fun r => if p r then g r else r).map key = t.rows.map key := by
      rw [List.map_map]
      refine List.map_congr_left fun r _ => ?_
      simp only [Function.comp_apply]
      split
      · exact hg r
      · rfl
    rw [this]
    exact t.nodup
  nodup_births := t.nodup_births
  key_mem_births := by
    intro x hx
    obtain ⟨r, hr, rfl⟩ := List.mem_map.1 hx
    have : key (if p r then g r else r) = key r := by split <;> simp [hg]
    rw [this]
    exact t.key_mem_births r hr

theorem mem_modify {p : ρ → Bool} {g : ρ → ρ} {t : Table ρ} (hg : ∀ r, key (g r) = key r) {x : ρ} :
    x ∈ t.modify p g hg ↔ ∃ r ∈ t, x = if p r then g r else r := by
  simp only [mem_def, modify, List.mem_map, eq_comm]

@[simp] theorem births_modify {p : ρ → Bool} {g : ρ → ρ} {t : Table ρ}
    {hg : ∀ r, key (g r) = key r} : (t.modify p g hg).births = t.births := rfl

/-- A table is its rows and its births. -/
theorem ext_rows {t t' : Table ρ} (hrows : t.rows = t'.rows) (hbirths : t.births = t'.births) :
    t = t' := by
  cases t
  cases t'
  simp only [mk.injEq]
  exact ⟨hrows, hbirths⟩

/-- Two changes of the rows that come to one. -/
theorem modify_modify {p p' p'' : ρ → Bool} {g g' g'' : ρ → ρ} {t : Table ρ}
    (hg : ∀ r, key (g r) = key r) (hg' : ∀ r, key (g' r) = key r) (hg'' : ∀ r, key (g'' r) = key r)
    (h : ∀ r ∈ t, (if p' (if p r then g r else r) then g' (if p r then g r else r)
      else if p r then g r else r) = if p'' r then g'' r else r) :
    (t.modify p g hg).modify p' g' hg' = t.modify p'' g'' hg'' := by
  refine ext_rows ?_ rfl
  show (t.rows.map _).map _ = t.rows.map _
  rw [List.map_map]
  exact List.map_congr_left h

/-- Delete the rows that match `p`. -/
def delete (p : ρ → Bool) (t : Table ρ) : Table ρ where
  rows := t.rows.filter fun r => !p r
  births := t.births
  nodup := (List.Sublist.map key List.filter_sublist).nodup t.nodup
  nodup_births := t.nodup_births
  key_mem_births := fun r hr => t.key_mem_births r (List.mem_filter.1 hr).1

theorem mem_delete {p : ρ → Bool} {t : Table ρ} {x : ρ} : x ∈ t.delete p ↔ x ∈ t ∧ p x = false := by
  simp [mem_def, delete, List.mem_filter]

@[simp] theorem births_delete {p : ρ → Bool} {t : Table ρ} : (t.delete p).births = t.births := rfl

section Save

variable [DecidableEq κ]

/-- Looking up in a table that has `r` in place of the row with its key. -/
theorem get?_of_mem_iff {t t' : Table ρ} {r : ρ}
    (h : ∀ x, x ∈ t' ↔ x = r ∨ (x ∈ t ∧ key x ≠ key r)) (k : κ) :
    t'.get? k = if k = key r then some r else t.get? k := by
  refine Option.ext fun x => ?_
  split
  · next hk =>
    subst hk
    rw [get?_eq_some, h, Option.some.injEq]
    constructor
    · rintro ⟨rfl | ⟨-, hne⟩, hx⟩
      · rfl
      · exact absurd hx hne
    · rintro rfl
      exact ⟨Or.inl rfl, rfl⟩
  · next hk =>
    rw [get?_eq_some, get?_eq_some, h]
    constructor
    · rintro ⟨rfl | ⟨hx, -⟩, hxk⟩
      · exact absurd hxk.symm hk
      · exact ⟨hx, hxk⟩
    · rintro ⟨hx, rfl⟩
      exact ⟨Or.inr ⟨hx, hk⟩, rfl⟩

/-- Replace the row with the key of `r` by `r`, or append `r` when there is none. -/
def saveRows (r : ρ) (l : List ρ) : List ρ :=
  if l.any fun x => key x = key r then l.map fun x => if key x = key r then r else x else l ++ [r]

theorem mem_saveRows {r x : ρ} {l : List ρ} :
    x ∈ saveRows r l ↔ x = r ∨ (x ∈ l ∧ key x ≠ key r) := by
  unfold saveRows
  split
  · next h =>
    obtain ⟨y, hy, hyk⟩ := List.any_eq_true.1 h
    simp only [decide_eq_true_eq] at hyk
    rw [List.mem_map]
    constructor
    · rintro ⟨z, hz, rfl⟩
      split
      · exact Or.inl rfl
      · next hzk => exact Or.inr ⟨hz, hzk⟩
    · rintro (rfl | ⟨hx, hxk⟩)
      · exact ⟨y, hy, if_pos hyk⟩
      · exact ⟨x, hx, if_neg hxk⟩
  · next h =>
    simp only [List.any_eq_true, decide_eq_true_eq, not_exists, not_and] at h
    rw [List.mem_append, List.mem_singleton]
    constructor
    · rintro (hx | rfl)
      · exact Or.inr ⟨hx, h x hx⟩
      · exact Or.inl rfl
    · rintro (rfl | ⟨hx, -⟩)
      · exact Or.inr rfl
      · exact Or.inl hx

/-- Saving over the last row. -/
theorem saveRows_append {r y : ρ} {l : List ρ} (hy : key y = key r) (hl : ∀ x ∈ l, key x ≠ key r) :
    saveRows r (l ++ [y]) = l ++ [r] := by
  have hany : ((l ++ [y]).any fun x => key x = key r) = true := by simp [hy]
  have hmap : (l.map fun x => if key x = key r then r else x) = l.map id :=
    List.map_congr_left fun x hx => if_neg (hl x hx)
  rw [saveRows, if_pos hany, List.map_append, hmap, List.map_id, List.map_singleton, if_pos hy]

/-- Write all columns of `r` to the row with its key, inserting `r` when there is no such row. -/
def save (r : ρ) (t : Table ρ) : Table ρ where
  rows := saveRows r t.rows
  births := if t.Used (key r) then t.births else r :: t.births
  nodup := by
    unfold saveRows
    split
    · have : (t.rows.map fun x => if key x = key r then r else x).map key = t.rows.map key := by
        rw [List.map_map]
        refine List.map_congr_left fun x _ => ?_
        simp only [Function.comp_apply]
        split
        · next h => exact h.symm
        · rfl
      rw [this]
      exact t.nodup
    · next h =>
      simp only [List.any_eq_true, decide_eq_true_eq, not_exists, not_and] at h
      rw [List.map_append, List.nodup_append]
      refine ⟨t.nodup, by simp, ?_⟩
      rintro _ ha _ hb rfl
      obtain ⟨x, hx, hxk⟩ := List.mem_map.1 ha
      simp only [List.map_cons, List.map_nil, List.mem_singleton] at hb
      exact h x hx (hxk.trans hb)
  nodup_births := by
    split
    · exact t.nodup_births
    · next h => exact List.nodup_cons.2 ⟨h, t.nodup_births⟩
  key_mem_births := by
    intro x hx
    split
    · next h =>
      rcases mem_saveRows.1 hx with rfl | ⟨hx, -⟩
      · exact h
      · exact t.key_mem_births x hx
    · rcases mem_saveRows.1 hx with rfl | ⟨hx, -⟩
      · exact List.mem_cons_self
      · exact List.mem_cons_of_mem _ (t.key_mem_births x hx)

theorem mem_save {r x : ρ} {t : Table ρ} : x ∈ t.save r ↔ x = r ∨ (x ∈ t ∧ key x ≠ key r) :=
  mem_saveRows

theorem births_save {r : ρ} {t : Table ρ} (h : t.Used (key r)) : (t.save r).births = t.births :=
  if_pos h

theorem births_subset_save {r : ρ} {t : Table ρ} : t.births ⊆ (t.save r).births := by
  show t.births ⊆ if t.Used (key r) then t.births else r :: t.births
  split
  · exact List.Subset.refl _
  · exact List.subset_cons_self _ _

end Save

/-! ## Differences -/

/-- The rows whose key has no row in `t'`. -/
def minus [DecidableEq κ] (t t' : Table ρ) : List ρ := t.rows.filter fun r => (t'.get? (key r)).isNone

theorem mem_minus [DecidableEq κ] {t t' : Table ρ} {r : ρ} :
    r ∈ t.minus t' ↔ r ∈ t ∧ ∀ x ∈ t', key x ≠ key r := by
  rw [minus, List.mem_filter, Option.isNone_iff_eq_none, get?_eq_none]
  rfl

/-! ## Sums of a column -/

/-- The sum of a column. -/
def sumOf (f : ρ → ℤ) (t : Table ρ) : ℤ := (t.rows.map f).sum

theorem sumOf_insert {f : ρ → ℤ} {r : ρ} {t : Table ρ} {h : ¬t.Used (key r)} :
    (t.insert r h).sumOf f = t.sumOf f + f r := by
  simp [sumOf, insert]

theorem sumOf_modify {f : ρ → ℤ} {p : ρ → Bool} {g : ρ → ρ} {t : Table ρ}
    {hg : ∀ r, key (g r) = key r} (hf : ∀ r, f (g r) = f r) : (t.modify p g hg).sumOf f = t.sumOf f := by
  unfold sumOf modify
  rw [List.map_map]
  congr 1
  refine List.map_congr_left fun r _ => ?_
  simp only [Function.comp_apply]
  split
  · exact hf r
  · rfl

theorem sumOf_delete_le {f : ρ → ℤ} {p : ρ → Bool} {t : Table ρ} (hf : ∀ r ∈ t, 0 ≤ f r) :
    (t.delete p).sumOf f ≤ t.sumOf f := by
  refine List.Sublist.sum_le_sum (List.Sublist.map f List.filter_sublist) ?_
  intro x hx
  obtain ⟨r, hr, rfl⟩ := List.mem_map.1 hx
  exact hf r hr

/-- Saving over a row with the same value of the column leaves the sum alone. -/
theorem sumOf_save [DecidableEq κ] {f : ρ → ℤ} {r r₀ : ρ} {t : Table ρ} (h₀ : r₀ ∈ t)
    (hk : key r₀ = key r) (hf : f r₀ = f r) : (t.save r).sumOf f = t.sumOf f := by
  have hany : (t.rows.any fun x => key x = key r) = true :=
    List.any_eq_true.2 ⟨r₀, h₀, by simpa using hk⟩
  unfold sumOf save saveRows
  simp only [hany, if_true, List.map_map]
  congr 1
  refine List.map_congr_left fun x hx => ?_
  simp only [Function.comp_apply]
  split
  · next hxk => rw [← hf, eq_of_key h₀ hx (hk.trans hxk.symm)]
  · rfl

/-- Saving a row that was not there adds to the sum. -/
theorem sumOf_save_new [DecidableEq κ] {f : ρ → ℤ} {r : ρ} {t : Table ρ} (h : ∀ x ∈ t, key x ≠ key r) :
    (t.save r).sumOf f = t.sumOf f + f r := by
  have hany : ¬(t.rows.any fun x => key x = key r) = true := by
    simp only [List.any_eq_true, decide_eq_true_eq, not_exists, not_and]
    exact h
  have hrows : (t.save r).rows = t.rows ++ [r] := if_neg hany
  rw [sumOf, hrows, List.map_append, List.sum_append, List.map_singleton, List.sum_singleton]
  rfl

end Table
