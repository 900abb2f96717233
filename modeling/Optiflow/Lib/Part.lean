import Optiflow.Lib.Table

/-!
# Parts of a table

`Table.part p` are the rows that satisfy `p`, in the order of the table.  What is selected inside the part
is a matter of the part alone (`filter_part`), and so is what an operation on rows of the part makes of it
(`part_insert`, `part_modify`, `part_delete`, `part_save`).  Such an operation leaves the rows outside the
part alone (`SameOutside`).
-/

namespace Table

variable {ρ κ : Type} [Keyed ρ κ] {p q : ρ → Bool} {g : ρ → ρ} {r r₀ : ρ} {t t' u : Table ρ}

/-- The rows that satisfy `p`. -/
def part (p : ρ → Bool) (t : Table ρ) : List ρ := t.rows.filter p

theorem mem_part : r ∈ t.part p ↔ r ∈ t ∧ p r = true := List.mem_filter

/-! ## Reading -/

/-- A selection inside the part. -/
theorem filter_part (h : ∀ r ∈ t, q r = true → p r = true) :
    t.rows.filter q = (t.part p).filter q := by
  rw [part, List.filter_filter]
  refine List.filter_congr fun r hr => ?_
  cases hq : q r with
  | false => rfl
  | true => rw [h r hr hq, Bool.and_self]

theorem filter_congr (hpart : t.part p = t'.part p) (h : ∀ r ∈ t, q r = true → p r = true)
    (h' : ∀ r ∈ t', q r = true → p r = true) : t.rows.filter q = t'.rows.filter q := by
  rw [filter_part h, filter_part h', hpart]

theorem first_congr {β : Type} [LinearOrder β] {rank : κ → β} (hpart : t.part p = t'.part p)
    (h : ∀ r ∈ t, q r = true → p r = true) (h' : ∀ r ∈ t', q r = true → p r = true) :
    t.first rank q = t'.first rank q := by
  rw [first, first, filter_congr hpart h h']

/-- A sum over a column that is zero outside the part. -/
theorem sumOf_part {f : ρ → ℤ} (h : ∀ r, p r = false → f r = 0) : t.sumOf f = ((t.part p).map f).sum := by
  rw [sumOf, part]
  induction t.rows with
  | nil => rfl
  | cons r l ih =>
    cases hp : p r with
    | true =>
      rw [List.filter_cons_of_pos hp, List.map_cons, List.map_cons, List.sum_cons, List.sum_cons, ih]
    | false =>
      rw [List.filter_cons_of_neg (by simp [hp]), List.map_cons, List.sum_cons, ih, h r hp, zero_add]

/-! ## Writing -/

theorem part_insert (h : ¬t.Used (key r)) (hp : p r = true) : (t.insert r h).part p = t.part p ++ [r] := by
  rw [part, part, insert, List.filter_append, List.filter_cons_of_pos hp, List.filter_nil]

/-- Changing rows of the part, and leaving them in it. -/
theorem part_map {f : ρ → ρ} {l : List ρ} (h : ∀ r ∈ l, p (f r) = p r) :
    (l.map f).filter p = (l.filter p).map f := by
  rw [List.filter_map]
  congr 1
  exact List.filter_congr fun r hr => h r hr

theorem part_modify (hg : ∀ r, key (g r) = key r)
    (hq : ∀ r ∈ t, q r = true → p r = true ∧ p (g r) = true) :
    (t.modify q g hg).part p = (t.part p).map fun r => if q r then g r else r := by
  refine part_map fun r hr => ?_
  split
  · next h => rw [(hq r hr h).1, (hq r hr h).2]
  · rfl

theorem part_delete : (t.delete q).part p = (t.part p).filter fun r => !q r := by
  rw [part, part, delete, List.filter_filter, List.filter_filter]
  exact List.filter_congr fun r _ => Bool.and_comm _ _

section Save

variable [DecidableEq κ]

/-- Saving over a row of the part. -/
theorem part_save (h₀ : r₀ ∈ t) (hk : key r₀ = key r) (hp₀ : p r₀ = true) (hp : p r = true) :
    (t.save r).part p = (t.part p).map fun x => if key x = key r then r else x := by
  have hany : (t.rows.any fun x => key x = key r) = true :=
    List.any_eq_true.2 ⟨r₀, h₀, by simpa using hk⟩
  have hrows : (t.save r).rows = t.rows.map fun x => if key x = key r then r else x := if_pos hany
  rw [part, hrows]
  refine part_map fun x hx => ?_
  split
  · next hxk => rw [hp, eq_of_key hx h₀ (hxk.trans hk.symm), hp₀]
  · rfl

end Save

/-! ## Outside the part -/

/-- The rows outside the part are the same. -/
def SameOutside (p : ρ → Bool) (t t' : Table ρ) : Prop := ∀ r, p r = false → (r ∈ t' ↔ r ∈ t)

theorem SameOutside.refl (p : ρ → Bool) (t : Table ρ) : SameOutside p t t := fun _ _ => Iff.rfl

theorem SameOutside.trans (h : SameOutside p t t') (h' : SameOutside p t' u) : SameOutside p t u :=
  fun r hr => (h' r hr).trans (h r hr)

theorem sameOutside_insert (h : ¬t.Used (key r)) (hp : p r = true) : SameOutside p t (t.insert r h) := by
  intro x hx
  rw [mem_insert h, or_iff_right]
  rintro rfl
  rw [hp] at hx
  cases hx

theorem sameOutside_modify (hg : ∀ r, key (g r) = key r)
    (hq : ∀ r ∈ t, q r = true → p r = true ∧ p (g r) = true) : SameOutside p t (t.modify q g hg) := by
  intro x hx
  rw [mem_modify hg]
  constructor
  · rintro ⟨r, hr, rfl⟩
    split at hx
    · next h =>
      rw [(hq r hr h).2] at hx
      cases hx
    · next h =>
      rw [if_neg h]
      exact hr
  · intro hmem
    refine ⟨x, hmem, ?_⟩
    split
    · next h =>
      rw [(hq x hmem h).1] at hx
      cases hx
    · rfl

theorem sameOutside_delete (h : ∀ r, q r = true → p r = true) : SameOutside p t (t.delete q) := by
  intro x hx
  rw [mem_delete, and_iff_left]
  cases hq : q x with
  | false => rfl
  | true =>
    rw [h x hq] at hx
    cases hx

theorem sameOutside_save_of [DecidableEq κ] (h : ∀ x ∈ t, key x = key r → p x = true)
    (hp : p r = true) : SameOutside p t (t.save r) := by
  intro x hx
  rw [mem_save]
  constructor
  · rintro (rfl | ⟨hmem, -⟩)
    · rw [hp] at hx
      cases hx
    · exact hmem
  · refine fun hmem => Or.inr ⟨hmem, fun hxk => ?_⟩
    rw [h x hmem hxk] at hx
    cases hx

theorem sameOutside_save [DecidableEq κ] (h₀ : r₀ ∈ t) (hk : key r₀ = key r) (hp₀ : p r₀ = true)
    (hp : p r = true) : SameOutside p t (t.save r) :=
  sameOutside_save_of (fun _ hx hxk => eq_of_key hx h₀ (hxk.trans hk.symm) ▸ hp₀) hp

end Table
