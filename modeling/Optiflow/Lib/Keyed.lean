import Mathlib.Data.List.Nodup

/-!
# Lists of entries with keys

An update writes one field of the entries with a given key (`put`).  It is taken back by giving the field
the value that it had in an earlier list (`restore`).  Going back to the earlier list itself is the same
thing only when nothing else has changed: `restore_eq_iff`.
-/

universe u v w

namespace Keyed

/-- A field of the entries that is not part of the key. -/
structure Field {α : Type u} {κ : Type v} (key : α → κ) (β : Type w) where
  get : α → β
  set : β → α → α
  set_set : ∀ b b' x, set b (set b' x) = set b x
  set_get : ∀ x, set (get x) x = x
  key_set : ∀ b x, key (set b x) = key x

namespace Field

variable {α : Type u} {κ : Type v} {β : Type w} [DecidableEq κ] {key : α → κ} (field : Field key β)

def put (k : κ) (b : β) (l : List α) : List α := l.map fun x => if key x = k then field.set b x else x

/-- The field of the first entry with a key. -/
def look (k : κ) (l : List α) : Option β := (l.find? fun x => key x = k).map field.get

/-- The field of the entry with a key as it is in an earlier list `p`. -/
def restore (k : κ) (p l : List α) : List α := (field.look k p).elim l fun b => field.put k b l

variable {field} {k : κ} {b b' : β} {l p : List α}

@[simp] theorem keys_put : (field.put k b l).map key = l.map key := by
  unfold put
  rw [List.map_map]
  apply List.map_congr_left
  intro x _
  by_cases hx : key x = k
  · simp [hx, field.key_set]
  · simp [hx]

theorem put_put : field.put k b (field.put k b' l) = field.put k b l := by
  unfold put
  rw [List.map_map]
  apply List.map_congr_left
  intro x _
  by_cases hx : key x = k
  · simp [hx, field.key_set, field.set_set]
  · simp [hx]

theorem put_of_not_mem (h : k ∉ l.map key) : field.put k b l = l := by
  unfold put
  rw [List.map_congr_left (g := id), List.map_id]
  intro x hx
  exact if_neg fun hk => h (List.mem_map.2 ⟨x, hx, hk⟩)

theorem look_eq_none : field.look k l = none ↔ k ∉ l.map key := by
  simp [look]

/-- Writing what is there changes nothing. -/
theorem put_look (hl : (l.map key).Nodup) (h : field.look k l = some b) : field.put k b l = l := by
  obtain ⟨y, hy, rfl⟩ := Option.map_eq_some_iff.1 h
  have hyk : key y = k := by simpa using List.find?_some hy
  unfold put
  rw [List.map_congr_left (g := id), List.map_id]
  intro x hx
  by_cases hxk : key x = k
  · have : x = y := List.inj_on_of_nodup_map hl hx (List.mem_of_find?_eq_some hy) (hxk.trans hyk.symm)
    rw [if_pos hxk, this]
    exact field.set_get y
  · exact if_neg hxk

theorem keys_restore : (field.restore k p l).map key = l.map key := by
  unfold restore
  cases field.look k p with
  | none => rfl
  | some b => exact keys_put

/-- The earlier list is what taking back the update gives exactly when the lists agree but for the field
of the entry with the key. -/
theorem restore_eq_iff (b₀ : β) (hp : (p.map key).Nodup) :
    field.restore k p l = p ↔ field.put k b₀ l = field.put k b₀ p := by
  unfold restore
  cases hb : field.look k p with
  | none =>
    have hkp : k ∉ p.map key := look_eq_none.1 hb
    dsimp only [Option.elim]
    constructor
    · rintro rfl
      rfl
    · intro h
      rw [put_of_not_mem hkp] at h
      have hkl : k ∉ l.map key := by
        rw [← h, keys_put] at hkp
        exact hkp
      rwa [put_of_not_mem hkl] at h
  | some b =>
    dsimp only [Option.elim]
    constructor
    · intro h
      rw [← h, put_put]
    · intro h
      calc field.put k b l = field.put k b (field.put k b₀ l) := put_put.symm
        _ = field.put k b (field.put k b₀ p) := by rw [h]
        _ = field.put k b p := put_put
        _ = p := put_look hp hb

end Field

end Keyed
