import Mathlib.Algebra.Group.Int.Defs
import Mathlib.Algebra.Group.Nat.Defs
import Mathlib.Data.List.Basic
import Mathlib.Data.Nat.Notation
import Mathlib.Order.Lattice

/-!
# Byte strings and UUIDs

Go strings are byte strings (`GoString`).  A `UUID` is 128 bits; `UUID.string` is its 36-character
form, the one that goes into object keys and metadata, and `UUID.parse` is what `uuid.Parse` accepts:
that form, the same with `urn:uuid:` in front, the same inside braces, and 32 plain digits.
`UUID.parse_string` is the round trip, and with it no two ids have the same text.
-/

namespace Optiflow

/-- A Go string: bytes. -/
abbrev GoString := List UInt8

/-- The contents of an object. -/
abbrev Bytes := List UInt8

/-- A literal of the source; all of them are ASCII. -/
def lit (s : String) : GoString := s.toList.map fun c => UInt8.ofNat c.toNat

/-- A UUID. -/
abbrev UUID := BitVec 128

instance : LawfulBEq UUID := inferInstance

/-! ## Hexadecimal -/

/-- The lower-case digit of a number below 16. -/
def hexDigit (n : ℕ) : UInt8 := UInt8.ofNat (if n < 10 then 48 + n else 87 + n)

/-- The value of a digit, in either case. -/
def hexValue (c : UInt8) : Option ℕ :=
  if 48 ≤ c.toNat ∧ c.toNat ≤ 57 then some (c.toNat - 48)
  else if 97 ≤ c.toNat ∧ c.toNat ≤ 102 then some (c.toNat - 87)
  else if 65 ≤ c.toNat ∧ c.toNat ≤ 70 then some (c.toNat - 55)
  else none

/-- The last `k` digits of `n`. -/
def hexDigits : ℕ → ℕ → GoString
  | 0, _ => []
  | k + 1, n => hexDigits k (n / 16) ++ [hexDigit (n % 16)]

/-- The number that a string of digits stands for. -/
def hexNumber (s : GoString) : Option ℕ :=
  s.foldl (fun n c => n.bind fun n => (hexValue c).map fun d => 16 * n + d) (some 0)

@[simp] theorem length_hexDigits (k n : ℕ) : (hexDigits k n).length = k := by
  induction k generalizing n with
  | zero => rfl
  | succ k ih => simp [hexDigits, ih]

theorem hexValue_hexDigit : ∀ n < 16, hexValue (hexDigit n) = some n := by decide

theorem mem_hexDigits {c : UInt8} {k n : ℕ} (h : c ∈ hexDigits k n) : ∃ d < 16, c = hexDigit d := by
  induction k generalizing n with
  | zero => simp [hexDigits] at h
  | succ k ih =>
    rcases List.mem_append.1 h with h | h
    · exact ih h
    · exact ⟨n % 16, Nat.mod_lt _ (by decide), List.mem_singleton.1 h⟩

theorem hexNumber_hexDigits (k n : ℕ) : hexNumber (hexDigits k n) = some (n % 16 ^ k) := by
  induction k generalizing n with
  | zero => simp [hexDigits, hexNumber, Nat.mod_one]
  | succ k ih =>
    have hd : hexValue (hexDigit (n % 16)) = some (n % 16) :=
      hexValue_hexDigit _ (Nat.mod_lt _ (by decide))
    have hn : 16 * (n / 16 % 16 ^ k) + n % 16 = n % 16 ^ (k + 1) := by
      rw [Nat.pow_succ', Nat.mod_mul, Nat.add_comm]
    unfold hexNumber at ih ⊢
    rw [hexDigits, List.foldl_append, ih]
    simp only [List.foldl_cons, List.foldl_nil, Option.bind_some, hd, Option.map_some, hn]

/-! ## Text -/

namespace UUID

/-- The form `xxxxxxxx-xxxx-xxxx-xxxx-xxxxxxxxxxxx`. -/
def string (id : UUID) : GoString :=
  let h := hexDigits 32 id.toNat
  h.take 8 ++ lit "-" ++ (h.drop 8).take 4 ++ lit "-" ++ (h.drop 12).take 4 ++ lit "-" ++
    (h.drop 16).take 4 ++ lit "-" ++ h.drop 20

/-- 32 digits. -/
def ofHex (s : GoString) : Option UUID :=
  if s.length = 32 then (hexNumber s).map (BitVec.ofNat 128) else none

/-- The dashed form: dashes at 8, 13, 18 and 23, digits elsewhere. -/
def ofDashed (s : GoString) : Option UUID :=
  if s[8]? = some 45 ∧ s[13]? = some 45 ∧ s[18]? = some 45 ∧ s[23]? = some 45 then
    ofHex (s.take 8 ++ (s.drop 9).take 4 ++ (s.drop 14).take 4 ++ (s.drop 19).take 4 ++
      (s.drop 24).take 12)
  else none

/-- ASCII letters in lower case. -/
def lower (c : UInt8) : UInt8 := if 65 ≤ c.toNat ∧ c.toNat ≤ 90 then c + 32 else c

/-- `uuid.Parse`.  The length decides the form; the braces themselves are not looked at. -/
def parse (s : GoString) : Option UUID :=
  match s.length with
  | 36 => ofDashed s
  | 45 => if (s.take 9).map lower = lit "urn:uuid:" then ofDashed (s.drop 9) else none
  | 38 => ofDashed (s.drop 1)
  | 32 => ofHex s
  | _ => none

@[simp] theorem length_string (id : UUID) : (string id).length = 36 := by
  simp [string, lit]

/-- The text of an id is digits and dashes. -/
theorem mem_string {c : UInt8} {id : UUID} (h : c ∈ string id) : c = 45 ∨ ∃ d < 16, c = hexDigit d := by
  have hdash : lit "-" = [45] := rfl
  simp only [string, hdash, List.mem_append, List.mem_singleton] at h
  have hdigit : ∀ l : GoString, l ⊆ hexDigits 32 id.toNat → c ∈ l → c = 45 ∨ ∃ d < 16, c = hexDigit d :=
    fun l hl hc => Or.inr (mem_hexDigits (hl hc))
  have htake : ∀ (n m : ℕ) (l : GoString), (l.drop n).take m ⊆ l := fun n m l =>
    List.Subset.trans (List.take_subset _ _) (List.drop_subset _ _)
  obtain (((((((h | h) | h) | h) | h) | h) | h) | h) | h := h
  · exact hdigit _ (List.take_subset _ _) h
  · exact Or.inl h
  · exact hdigit _ (htake _ _ _) h
  · exact Or.inl h
  · exact hdigit _ (htake _ _ _) h
  · exact Or.inl h
  · exact hdigit _ (htake _ _ _) h
  · exact Or.inl h
  · exact hdigit _ (List.drop_subset _ _) h

/-- Without its dashes, the dashed form is 32 digits. -/
theorem ofDashed_append {a b c d e : GoString} (ha : a.length = 8) (hb : b.length = 4)
    (hc : c.length = 4) (hd : d.length = 4) (he : e.length = 12) :
    ofDashed (a ++ lit "-" ++ b ++ lit "-" ++ c ++ lit "-" ++ d ++ lit "-" ++ e) =
      ofHex (a ++ b ++ c ++ d ++ e) := by
  have hdash : lit "-" = [45] := rfl
  unfold ofDashed
  rw [hdash, if_pos]
  · simp [ha, hb, hc, hd, he, List.drop_append, List.take_of_length_le,
      List.drop_of_length_le]
  · simp [List.getElem?_append, ha, hb, hc, hd]

/-- Reading the text of an id gives the id. -/
@[simp] theorem parse_string (id : UUID) : parse (string id) = some id := by
  have hnum : hexNumber (hexDigits 32 id.toNat) = some id.toNat := by
    rw [hexNumber_hexDigits, Nat.mod_eq_of_lt (by simpa using id.isLt)]
  have hlen := length_hexDigits 32 id.toNat
  unfold parse
  rw [length_string]
  show ofDashed (string id) = some id
  unfold string
  generalize hexDigits 32 id.toNat = h at hnum hlen
  have hsplit : h.take 8 ++ (h.drop 8).take 4 ++ (h.drop 12).take 4 ++ (h.drop 16).take 4 ++
      h.drop 20 = h := by
    simp only [List.append_assoc, ← List.drop_drop (i := 4) (j := 8),
      ← List.drop_drop (i := 4) (j := 12), ← List.drop_drop (i := 4) (j := 16),
      List.take_append_drop]
  dsimp only
  rw [ofDashed_append (by simp [hlen]) (by simp [hlen]) (by simp [hlen]) (by simp [hlen])
    (by simp [hlen]), hsplit, ofHex, if_pos hlen, hnum]
  simp

theorem string_injective : Function.Injective string := by
  intro a b h
  have := congrArg parse h
  simpa using this

end UUID

end Optiflow
