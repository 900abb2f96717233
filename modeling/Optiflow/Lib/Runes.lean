import Mathlib.Data.List.Basic
import Mathlib.Tactic.Common
import Optiflow.Lib.Json

/-!
# Runes

UTF-8 as `unicode/utf8` reads it: a byte that starts no well-formed rune stands alone and counts as
U+FFFD.  `toValidUTF8` writes it so, and a text is `ValidUTF8` if that changes nothing.  Texts are gone
through rune by rune (`runeInduction`).
-/

namespace Json

/-- The text with U+FFFD for every byte that is not UTF-8; the next `keep` bytes continue a rune. -/
def validFrom : Nat → Text → Text
  | _, [] => []
  | keep + 1, c :: s => c :: validFrom keep s
  | 0, c :: s =>
    match runeTail c s with
    | none => encodeRune 0xFFFD ++ validFrom 0 s
    | some keep => c :: validFrom keep s

def toValidUTF8 (s : Text) : Text := validFrom 0 s

/-- The text is UTF-8. -/
def ValidUTF8 (s : Text) : Prop := toValidUTF8 s = s

instance (s : Text) : Decidable (ValidUTF8 s) := inferInstanceAs (Decidable (_ = _))

section Runes

variable {c : UInt8} {s t : Text} {n : Nat}

theorem continues_take {low high : UInt8} (h : continues n low high s = true) (t : Text) :
    continues n low high (s.take n ++ t) = true := by
  induction n generalizing low high s with
  | zero => rfl
  | succ n ih =>
    cases s with
    | nil => cases h
    | cons c s =>
      simp only [continues, Bool.and_eq_true] at h
      simp only [List.take_succ_cons, List.cons_append, continues, Bool.and_eq_true]
      exact ⟨h.1, ih h.2⟩

/-- The bytes that continue a rune are there, and none of them is ASCII. -/
theorem length_of_continues {low high : UInt8} (hlow : 0x80 ≤ low)
    (h : continues n low high s = true) : n ≤ s.length ∧ ∀ x ∈ s.take n, 0x80 ≤ x := by
  induction n generalizing low high s with
  | zero => exact ⟨Nat.zero_le _, fun x hx => absurd hx (by simp)⟩
  | succ n ih =>
    cases s with
    | nil => cases h
    | cons c s =>
      simp only [continues, Bool.and_eq_true, decide_eq_true_eq] at h
      obtain ⟨⟨hc, -⟩, hs⟩ := h
      obtain ⟨hlen, hall⟩ := ih (by decide) hs
      refine ⟨Nat.succ_le_succ hlen, fun x hx => ?_⟩
      rcases List.mem_cons.1 hx with rfl | hx
      · exact UInt8.le_trans hlow hc
      · exact hall x hx

/-- A rune is ASCII, or other bytes continue it, and its tail is found by them alone. -/
theorem runeTail_cases (h : runeTail c s = some n) : (c < 0x80 ∧ n = 0) ∨
    ∃ low high, 0x80 ≤ low ∧ continues n low high s = true ∧
      ∀ t, continues n low high t = true → runeTail c t = some n := by
  unfold runeTail at h
  split at h
  · next hc => exact Or.inl ⟨hc, (Option.some.inj h).symm⟩
  · next h1 =>
    refine Or.inr ?_
    split at h
    · next h2 =>
      obtain ⟨hcont, rfl⟩ := Option.ite_some_none_eq_some.1 h
      exact ⟨_, _, by decide, hcont, fun t ht => by simp [runeTail, h1, h2, ht]⟩
    · next h2 =>
      split at h
      · next h3 =>
        obtain ⟨hcont, rfl⟩ := Option.ite_some_none_eq_some.1 h
        exact ⟨_, _, by split <;> decide, hcont, fun t ht => by
          simp only [runeTail, h1, h2, h3, ht, and_self, if_true, if_false]⟩
      · next h3 =>
        split at h
        · next h4 =>
          obtain ⟨hcont, rfl⟩ := Option.ite_some_none_eq_some.1 h
          exact ⟨_, _, by split <;> decide, hcont, fun t ht => by
            simp only [runeTail, h1, h2, h3, h4, ht, and_self, if_true, if_false]⟩
        · cases h

theorem runeTail_take (h : runeTail c s = some n) (t : Text) :
    runeTail c (s.take n ++ t) = some n := by
  obtain ⟨hc, rfl⟩ | ⟨low, high, -, hcont, hall⟩ := runeTail_cases h
  · simp [runeTail, hc]
  · exact hall _ (continues_take hcont t)

theorem le_length_of_runeTail (h : runeTail c s = some n) : n ≤ s.length := by
  obtain ⟨-, rfl⟩ | ⟨low, high, hlow, hcont, -⟩ := runeTail_cases h
  · exact Nat.zero_le _
  · exact (length_of_continues hlow hcont).1

theorem ge_of_mem_runeTail (h : runeTail c s = some n) {x : UInt8} (hx : x ∈ s.take n) : 0x80 ≤ x := by
  obtain ⟨-, rfl⟩ | ⟨low, high, hlow, hcont, -⟩ := runeTail_cases h
  · simp at hx
  · exact (length_of_continues hlow hcont).2 x hx

theorem runeTail_ascii (hc : c < 0x80) : runeTail c s = some 0 := by simp [runeTail, hc]

/-- Induction on the runes of a text; a byte that is not UTF-8 stands alone. -/
theorem runeInduction {P : Text → Prop} (nil : P [])
    (bad : ∀ c s, runeTail c s = none → P s → P (c :: s))
    (rune : ∀ c s n, runeTail c s = some n → P (s.drop n) → P (c :: s)) (s : Text) : P s := by
  induction hlen : s.length using Nat.strongRecOn generalizing s with
  | ind len ih =>
    cases s with
    | nil => exact nil
    | cons c s =>
      rw [List.length_cons] at hlen
      cases h : runeTail c s with
      | none => exact bad c s h (ih s.length (by omega) s rfl)
      | some n =>
        refine rune c s n h (ih (s.drop n).length ?_ _ rfl)
        rw [List.length_drop]
        omega

/-! ### A text that is made UTF-8 -/

theorem validFrom_keep (h : n ≤ s.length) : validFrom n s = s.take n ++ toValidUTF8 (s.drop n) := by
  induction n generalizing s with
  | zero => rfl
  | succ n ih =>
    cases s with
    | nil => exact absurd h (Nat.not_succ_le_zero n)
    | cons c s => rw [validFrom, ih (Nat.le_of_succ_le_succ h)]; rfl

theorem toValidUTF8_bad (h : runeTail c s = none) :
    toValidUTF8 (c :: s) = encodeRune 0xFFFD ++ toValidUTF8 s := by
  simp only [toValidUTF8, validFrom, h]

theorem toValidUTF8_rune (h : runeTail c s = some n) :
    toValidUTF8 (c :: s) = c :: (s.take n ++ toValidUTF8 (s.drop n)) := by
  rw [← validFrom_keep (le_length_of_runeTail h)]
  simp only [toValidUTF8, validFrom, h]

/-- A rune in front of a text. -/
theorem toValidUTF8_take (h : runeTail c s = some n) (t : Text) :
    toValidUTF8 (c :: (s.take n ++ t)) = c :: (s.take n ++ toValidUTF8 t) := by
  have hlen : (s.take n).length = n := List.length_take_of_le (le_length_of_runeTail h)
  rw [toValidUTF8_rune (runeTail_take h t), List.take_left' hlen, List.drop_left' hlen]

/-! ### Runes that are encoded -/

theorem toNat_toUInt8 {k : ℕ} (h : k < 256) : k.toUInt8.toNat = k := UInt8.toNat_ofNat_of_lt' h

/-- A byte between two bounds. -/
theorem le_toUInt8_iff {k : ℕ} (h : k < 256) (x : UInt8) : x ≤ k.toUInt8 ↔ x.toNat ≤ k := by
  rw [UInt8.le_iff_toNat_le, toNat_toUInt8 h]

theorem toUInt8_le_iff {k : ℕ} (h : k < 256) (x : UInt8) : k.toUInt8 ≤ x ↔ k ≤ x.toNat := by
  rw [UInt8.le_iff_toNat_le, toNat_toUInt8 h]

theorem toUInt8_eq_iff {k : ℕ} (h : k < 256) (x : UInt8) : k.toUInt8 = x ↔ k = x.toNat := by
  rw [← UInt8.toNat_inj, toNat_toUInt8 h]

/-- Whether a first byte starts a rune of two, three or four bytes. -/
theorem runeTail_two (hc : 0xC2 ≤ c ∧ c ≤ 0xDF) (h : continues 1 0x80 0xBF s = true) :
    runeTail c s = some 1 := by
  have h1 : ¬c < 0x80 := UInt8.not_lt.2 (UInt8.le_trans (by decide) hc.1)
  simp only [runeTail, if_neg h1, if_pos hc, h, if_true]

theorem runeTail_three (hc : 0xE0 ≤ c ∧ c ≤ 0xEF)
    (h : continues 2 (if c = 0xE0 then 0xA0 else 0x80) (if c = 0xED then 0x9F else 0xBF) s = true) :
    runeTail c s = some 2 := by
  have h1 : ¬c < 0x80 := UInt8.not_lt.2 (UInt8.le_trans (by decide) hc.1)
  have h2 : ¬(0xC2 ≤ c ∧ c ≤ 0xDF) := fun h2 =>
    absurd (UInt8.le_trans hc.1 h2.2) (by decide)
  simp only [runeTail, if_neg h1, if_neg h2, if_pos hc, h, if_true]

theorem runeTail_four (hc : 0xF0 ≤ c ∧ c ≤ 0xF4)
    (h : continues 3 (if c = 0xF0 then 0x90 else 0x80) (if c = 0xF4 then 0x8F else 0xBF) s = true) :
    runeTail c s = some 3 := by
  have h1 : ¬c < 0x80 := UInt8.not_lt.2 (UInt8.le_trans (by decide) hc.1)
  have h2 : ¬(0xC2 ≤ c ∧ c ≤ 0xDF) := fun h2 => absurd (UInt8.le_trans hc.1 h2.2) (by decide)
  have h3 : ¬(0xE0 ≤ c ∧ c ≤ 0xEF) := fun h3 => absurd (UInt8.le_trans hc.1 h3.2) (by decide)
  simp only [runeTail, if_neg h1, if_neg h2, if_neg h3, if_pos hc, h, if_true]

/-- The bytes of an encoded rune are read as one rune. -/
theorem exists_runeTail_encodeRune (r : ℕ) :
    ∃ c s, encodeRune r = c :: s ∧ runeTail c s = some s.length := by
  unfold encodeRune
  split
  · next h =>
    refine ⟨_, _, rfl, runeTail_ascii ?_⟩
    rw [UInt8.lt_iff_toNat_lt, toNat_toUInt8 (by omega)]
    exact h
  split
  · next h1 h2 =>
    have hc : 0xC0 + r / 64 < 256 := by omega
    have hd : 0x80 + r % 64 < 256 := by omega
    refine ⟨_, _, rfl, runeTail_two ?_ ?_⟩
    · rw [le_toUInt8_iff hc, toUInt8_le_iff hc]
      show 0xC2 ≤ _ ∧ _ ≤ 0xDF
      omega
    · simp only [continues, le_toUInt8_iff hd, toUInt8_le_iff hd, Bool.and_true, Bool.and_eq_true,
        decide_eq_true_eq]
      show 0x80 ≤ _ ∧ _ ≤ 0xBF
      omega
  split
  · exact ⟨_, _, rfl, by decide⟩
  split
  · next h1 h2 h3 h4 =>
    have hc : 0xE0 + r / 4096 < 256 := by omega
    have hd : 0x80 + r / 64 % 64 < 256 := by omega
    have he : 0x80 + r % 64 < 256 := by omega
    refine ⟨_, _, rfl, runeTail_three ?_ ?_⟩
    · rw [le_toUInt8_iff hc, toUInt8_le_iff hc]
      show 0xE0 ≤ _ ∧ _ ≤ 0xEF
      omega
    · simp only [continues, le_toUInt8_iff hd, toUInt8_le_iff hd, le_toUInt8_iff he, toUInt8_le_iff he,
        toUInt8_eq_iff hc, Bool.and_true, Bool.and_eq_true, decide_eq_true_eq, UInt8.reduceToNat]
      split_ifs <;> simp only [UInt8.reduceToNat] <;> omega
  · next h1 h2 h3 h4 =>
    have hc : 0xF0 + r / 262144 < 256 := by omega
    have hd : 0x80 + r / 4096 % 64 < 256 := by omega
    have he : 0x80 + r / 64 % 64 < 256 := by omega
    have hf : 0x80 + r % 64 < 256 := by omega
    refine ⟨_, _, rfl, runeTail_four ?_ ?_⟩
    · rw [le_toUInt8_iff hc, toUInt8_le_iff hc]
      show 0xF0 ≤ _ ∧ _ ≤ 0xF4
      omega
    · simp only [continues, le_toUInt8_iff hd, toUInt8_le_iff hd, le_toUInt8_iff he, toUInt8_le_iff he,
        le_toUInt8_iff hf, toUInt8_le_iff hf, toUInt8_eq_iff hc, Bool.and_true, Bool.and_eq_true,
        decide_eq_true_eq, UInt8.reduceToNat]
      split_ifs <;> simp only [UInt8.reduceToNat] <;> omega

/-- A rune that was encoded stays as it is. -/
theorem toValidUTF8_encodeRune (r : ℕ) (t : Text) :
    toValidUTF8 (encodeRune r ++ t) = encodeRune r ++ toValidUTF8 t := by
  obtain ⟨c, s, hr, htail⟩ := exists_runeTail_encodeRune r
  have h := toValidUTF8_take htail t
  rw [List.take_length] at h
  rw [hr]
  exact h

theorem ValidUTF8.encodeRune (h : ValidUTF8 t) (r : ℕ) : ValidUTF8 (encodeRune r ++ t) := by
  rw [ValidUTF8, toValidUTF8_encodeRune, h]

/-- ASCII in front of a text. -/
theorem toValidUTF8_ascii {a : Text} (ha : ∀ x ∈ a, x < 0x80) (t : Text) :
    toValidUTF8 (a ++ t) = a ++ toValidUTF8 t := by
  induction a with
  | nil => rfl
  | cons x a ih =>
    rw [List.forall_mem_cons] at ha
    rw [List.cons_append, toValidUTF8_rune (runeTail_ascii ha.1)]
    exact congrArg _ (ih ha.2)

end Runes

end Json
