import Mathlib.Data.Set.Image
import Mathlib.Logic.ExistsUnique

/-!
# Families with one current member

The members of a set fall into families (`fam`), carry a number (`num`) and may be current (`cur`).
The set is *shaped* when each family has exactly one current member and no two members of a family
carry the same number.  The lemmas say which changes keep the shape: a change of the members that
leaves the three functions alone (`Shaped.image`), a new family (`Shaped.insert`), a new current
member of a family whose other members step back (`Shaped.succeed`), making another member the
current one (`Shaped.refocus`), and removing whole families (`Shaped.sep`).
-/

namespace Family

variable {ρ L N : Type}

/-- Each family has one current member, and its members have different numbers. -/
structure Shaped (fam : ρ → L) (num : ρ → N) (cur : ρ → Prop) (M : Set ρ) : Prop where
  current : ∀ x ∈ M, ∃! y, y ∈ M ∧ fam y = fam x ∧ cur y
  injective : ∀ x ∈ M, ∀ y ∈ M, fam x = fam y → num x = num y → x = y

namespace Shaped

variable {fam : ρ → L} {num : ρ → N} {cur : ρ → Prop} {M : Set ρ} {φ : ρ → ρ}

theorem of_forall_notMem (h : ∀ x, x ∉ M) : Shaped fam num cur M :=
  ⟨fun x hx => absurd hx (h x), fun x hx => absurd hx (h x)⟩

/-- Two current members of a family are one. -/
theorem eq_of_current (h : Shaped fam num cur M) {x y : ρ} (hx : x ∈ M) (hy : y ∈ M)
    (hxy : fam x = fam y) (hcx : cur x) (hcy : cur y) : x = y :=
  (h.current x hx).unique ⟨hx, rfl, hcx⟩ ⟨hy, hxy.symm, hcy⟩

/-- A change that keeps family and number keeps the members of a family apart. -/
theorem injective_image (h : Shaped fam num cur M) (hfam : ∀ x ∈ M, fam (φ x) = fam x)
    (hnum : ∀ x ∈ M, num (φ x) = num x) :
    ∀ x ∈ φ '' M, ∀ y ∈ φ '' M, fam x = fam y → num x = num y → x = y := by
  rintro _ ⟨x, hx, rfl⟩ _ ⟨y, hy, rfl⟩ hf hn
  rw [hfam x hx, hfam y hy] at hf
  rw [hnum x hx, hnum y hy] at hn
  rw [h.injective x hx y hy hf hn]

/-- A change that keeps all three functions. -/
theorem image (h : Shaped fam num cur M) (hfam : ∀ x ∈ M, fam (φ x) = fam x)
    (hnum : ∀ x ∈ M, num (φ x) = num x) (hcur : ∀ x ∈ M, cur (φ x) ↔ cur x) :
    Shaped fam num cur (φ '' M) := by
  refine ⟨?_, h.injective_image hfam hnum⟩
  rintro _ ⟨x, hx, rfl⟩
  obtain ⟨y, ⟨hy, hyx, hcy⟩, -⟩ := h.current x hx
  refine ⟨φ y, ⟨⟨y, hy, rfl⟩, ?_, (hcur y hy).2 hcy⟩, ?_⟩
  · rw [hfam y hy, hfam x hx, hyx]
  · rintro _ ⟨⟨z, hz, rfl⟩, hzx, hcz⟩
    rw [hfam z hz, hfam x hx] at hzx
    rw [h.eq_of_current hz hy (hzx.trans hyx.symm) ((hcur z hz).1 hcz) hcy]

/-- Another member of a family becomes its current one. -/
theorem refocus (h : Shaped fam num cur M) {t : ρ} (ht : t ∈ M) (hfam : ∀ x ∈ M, fam (φ x) = fam x)
    (hnum : ∀ x ∈ M, num (φ x) = num x) (hin : ∀ x ∈ M, fam x = fam t → (cur (φ x) ↔ x = t))
    (hout : ∀ x ∈ M, fam x ≠ fam t → (cur (φ x) ↔ cur x)) : Shaped fam num cur (φ '' M) := by
  refine ⟨?_, h.injective_image hfam hnum⟩
  rintro _ ⟨x, hx, rfl⟩
  by_cases hxt : fam x = fam t
  · refine ⟨φ t, ⟨⟨t, ht, rfl⟩, ?_, (hin t ht rfl).2 rfl⟩, ?_⟩
    · rw [hfam t ht, hfam x hx, hxt]
    · rintro _ ⟨⟨z, hz, rfl⟩, hzx, hcz⟩
      rw [hfam z hz, hfam x hx] at hzx
      rw [(hin z hz (hzx.trans hxt)).1 hcz]
  · obtain ⟨y, ⟨hy, hyx, hcy⟩, -⟩ := h.current x hx
    have hyt : fam y ≠ fam t := fun he => hxt (hyx.symm.trans he)
    refine ⟨φ y, ⟨⟨y, hy, rfl⟩, ?_, (hout y hy hyt).2 hcy⟩, ?_⟩
    · rw [hfam y hy, hfam x hx, hyx]
    · rintro _ ⟨⟨z, hz, rfl⟩, hzx, hcz⟩
      rw [hfam z hz, hfam x hx] at hzx
      have hzt : fam z ≠ fam t := fun he => hxt (hzx.symm.trans he)
      rw [h.eq_of_current hz hy (hzx.trans hyx.symm) ((hout z hz hzt).1 hcz) hcy]

/-- A new current member joins its family, whose other members step back. -/
theorem succeed (h : Shaped fam num cur M) {t : ρ} (hct : cur t)
    (hfam : ∀ x ∈ M, fam (φ x) = fam x) (hnum : ∀ x ∈ M, num (φ x) = num x)
    (hin : ∀ x ∈ M, fam x = fam t → ¬cur (φ x) ∧ num x ≠ num t)
    (hout : ∀ x ∈ M, fam x ≠ fam t → (cur (φ x) ↔ cur x)) :
    Shaped fam num cur (insert t (φ '' M)) := by
  constructor
  · intro x hx
    by_cases hxt : fam x = fam t
    · refine ⟨t, ⟨Set.mem_insert _ _, hxt.symm, hct⟩, ?_⟩
      rintro y ⟨rfl | ⟨z, hz, rfl⟩, hyx, hcy⟩
      · rfl
      · rw [hfam z hz] at hyx
        exact absurd hcy (hin z hz (hyx.trans hxt)).1
    · obtain rfl | ⟨x, hx, rfl⟩ := hx
      · exact absurd rfl hxt
      · rw [hfam x hx] at hxt ⊢
        obtain ⟨y, ⟨hy, hyx, hcy⟩, -⟩ := h.current x hx
        have hyt : fam y ≠ fam t := fun he => hxt (hyx.symm.trans he)
        refine ⟨φ y, ⟨Set.mem_insert_of_mem _ ⟨y, hy, rfl⟩, ?_, (hout y hy hyt).2 hcy⟩, ?_⟩
        · rw [hfam y hy, hyx]
        · rintro _ ⟨rfl | ⟨z, hz, rfl⟩, hzx, hcz⟩
          · exact absurd hzx.symm hxt
          · rw [hfam z hz] at hzx
            have hzt : fam z ≠ fam t := fun he => hxt (hzx.symm.trans he)
            rw [h.eq_of_current hz hy (hzx.trans hyx.symm) ((hout z hz hzt).1 hcz) hcy]
  · rintro x (rfl | ⟨x, hx, rfl⟩) y (rfl | ⟨y, hy, rfl⟩) hf hn
    · rfl
    · rw [hfam y hy] at hf
      rw [hnum y hy] at hn
      exact absurd hn.symm (hin y hy hf.symm).2
    · rw [hfam x hx] at hf
      rw [hnum x hx] at hn
      exact absurd hn (hin x hx hf).2
    · rw [hfam x hx, hfam y hy] at hf
      rw [hnum x hx, hnum y hy] at hn
      rw [h.injective x hx y hy hf hn]

/-- Whole families go away. -/
theorem sep (h : Shaped fam num cur M) {M' : Set ρ} (hsub : M' ⊆ M)
    (hwhole : ∀ x ∈ M, ∀ y ∈ M', fam x = fam y → x ∈ M') : Shaped fam num cur M' := by
  refine ⟨fun x hx => ?_, fun x hx y hy => h.injective x (hsub hx) y (hsub hy)⟩
  obtain ⟨y, ⟨hy, hyx, hcy⟩, huniq⟩ := h.current x (hsub hx)
  refine ⟨y, ⟨hwhole y hy x hx hyx, hyx, hcy⟩, ?_⟩
  rintro z ⟨hz, hzx, hcz⟩
  exact huniq z ⟨hsub hz, hzx, hcz⟩

/-- A new family. -/
theorem insert (h : Shaped fam num cur M) {t : ρ} (hct : cur t) (ht : ∀ x ∈ M, fam x ≠ fam t) :
    Shaped fam num cur (insert t M) := by
  have hid : Shaped fam num cur (Insert.insert t (id '' M)) :=
    h.succeed hct (fun _ _ => rfl) (fun _ _ => rfl) (fun x hx he => absurd he (ht x hx))
      fun _ _ _ => Iff.rfl
  rwa [Set.image_id] at hid

end Shaped

end Family
