import Optiflow.Lib.JsonStrings

/-!
# JSON that is written

`encoding/json` writes a string with its quotes, the characters of HTML and the line separators escaped
and U+FFFD for a byte that is not UTF-8 (`quote`), and a struct as an object (`object`).  What is written
is read back: a text `Spells` a value when the scanner delivers the value with the last byte of the text,
inside whatever is open.  A string comes back as `toValidUTF8` of it.
-/

namespace Json

/-! ## Writing -/

/-- ASCII that stands for itself: `htmlSafeSet`. -/
def htmlSafe (c : UInt8) : Bool :=
  0x20 ≤ c && c < 0x80 && c ≠ 0x22 && c ≠ 0x26 && c ≠ 0x3C && c ≠ 0x3E && c ≠ 0x5C

/-- The letter of a short escape. -/
def shortEscape (c : UInt8) : Option UInt8 :=
  if c = 0x5C then some 0x5C
  else if c = 0x22 then some 0x22
  else if c = 0x08 then some 0x62
  else if c = 0x0C then some 0x66
  else if c = 0x0A then some 0x6E
  else if c = 0x0D then some 0x72
  else if c = 0x09 then some 0x74
  else none

/-- A digit of `hex`. -/
def hexDigit (n : Nat) : UInt8 := if n < 10 then (0x30 + n).toUInt8 else (0x57 + n).toUInt8

/-- The long escape of a code unit. -/
def longEscape (r : Nat) : Text :=
  [0x5C, 0x75, hexDigit (r / 4096), hexDigit (r / 256 % 16), hexDigit (r / 16 % 16), hexDigit (r % 16)]

/-- What is written for a byte of ASCII. -/
def escapeByte (c : UInt8) : Text :=
  if htmlSafe c then [c]
  else match shortEscape c with
    | some e => [0x5C, e]
    | none => longEscape c.toNat

/-- The loop of `appendString`.  The next `n` bytes belong to a rune that is copied (`copied`), or that
was written as an escape. -/
def escapeFrom : Bool → Nat → Text → Text
  | _, _, [] => []
  | copied, n + 1, c :: s => if copied then c :: escapeFrom copied n s else escapeFrom copied n s
  | _, 0, c :: s =>
    if c < 0x80 then escapeByte c ++ escapeFrom true 0 s
    else match runeTail c s with
      | none => longEscape 0xFFFD ++ escapeFrom true 0 s
      | some n =>
        if c = 0xE2 ∧ s.take 2 = [0x80, 0xA8] then longEscape 0x2028 ++ escapeFrom false n s
        else if c = 0xE2 ∧ s.take 2 = [0x80, 0xA9] then longEscape 0x2029 ++ escapeFrom false n s
        else c :: escapeFrom true n s

/-- What stands between the quotes. -/
def escape (s : Text) : Text := escapeFrom true 0 s

/-- A string. -/
def quote (s : Text) : Text := 0x22 :: (escape s ++ [0x22])

/-- A member of an object: its name, a colon and the text of its value. -/
def memberText (m : Text × Text) : Text := quote m.1 ++ 0x3A :: m.2

/-- The members of an object, with commas between them. -/
def membersText : List (Text × Text) → Text
  | [] => []
  | [m] => memberText m
  | m :: m' :: ms => memberText m ++ 0x2C :: membersText (m' :: ms)

/-- An object, of names and the texts of their values. -/
def object (members : List (Text × Text)) : Text := 0x7B :: (membersText members ++ [0x7D])


section Strings

variable {c : UInt8} {s t : Text} {n : Nat}

/-! ### What is escaped -/

theorem escapeFrom_zero (b : Bool) : escapeFrom b 0 s = escape s := by
  cases s with
  | nil => rfl
  | cons c s => cases b <;> rfl

theorem escapeFrom_copied (h : n ≤ s.length) : escapeFrom true n s = s.take n ++ escape (s.drop n) := by
  induction n generalizing s with
  | zero => rfl
  | succ n ih =>
    cases s with
    | nil => exact absurd h (Nat.not_succ_le_zero n)
    | cons c s => rw [escapeFrom, ih (Nat.le_of_succ_le_succ h)]; rfl

theorem escapeFrom_skipped : escapeFrom false n s = escape (s.drop n) := by
  induction n generalizing s with
  | zero => exact escapeFrom_zero false
  | succ n ih =>
    cases s with
    | nil => rfl
    | cons c s => exact ih

theorem escape_ascii (hc : c < 0x80) : escape (c :: s) = escapeByte c ++ escape s := by
  simp only [escape, escapeFrom, hc, if_true]

theorem escape_bad (h : runeTail c s = none) : escape (c :: s) = longEscape 0xFFFD ++ escape s := by
  have hc : ¬c < 0x80 := fun hc => by simp [runeTail_ascii hc] at h
  simp only [escape, escapeFrom, hc, if_false, h]

/-- A rune that is not ASCII is copied, unless it is one of the two separators. -/
theorem escape_rune (hc : ¬c < 0x80) (h : runeTail c s = some n) :
    escape (c :: s) = c :: (s.take n ++ escape (s.drop n)) ∨
    ∃ r, (r = 0x2028 ∨ r = 0x2029) ∧ c :: s.take n = encodeRune r ∧
      escape (c :: s) = longEscape r ++ escape (s.drop n) := by
  have key : ∀ x : UInt8, c = 0xE2 ∧ s.take 2 = [0x80, x] → c :: s.take n = [0xE2, 0x80, x] := by
    rintro x ⟨rfl, hs⟩
    have hn : continues 2 0x80 0xBF s = true ∧ 2 = n := by simpa [runeTail] using h
    rw [← hn.2, hs]
  simp only [escape, escapeFrom, hc, if_false, h]
  split
  · next hs => exact Or.inr ⟨0x2028, Or.inl rfl, key _ hs, by rw [escapeFrom_skipped]; rfl⟩
  · split
    · next hs => exact Or.inr ⟨0x2029, Or.inr rfl, key _ hs, by rw [escapeFrom_skipped]; rfl⟩
    · exact Or.inl (by rw [escapeFrom_copied (le_length_of_runeTail h)]; rfl)

/-! ### What is read back -/

theorem hexValue_hexDigit : ∀ n < 16, hexValue (hexDigit n) = n := by decide

theorem u4_hexDigits {r : ℕ} (hr : r < 0x10000) :
    u4 (hexDigit (r / 4096)) (hexDigit (r / 256 % 16)) (hexDigit (r / 16 % 16)) (hexDigit (r % 16)) =
      r := by
  rw [u4, hexValue_hexDigit _ (by omega), hexValue_hexDigit _ (by omega),
    hexValue_hexDigit _ (by omega), hexValue_hexDigit _ (by omega)]
  omega

theorem unquote_longEscape {r : ℕ} (hr : r < 0x10000) (hs : highSurrogate r = false) :
    unquote (longEscape r ++ s) = encodeRune r ++ unquote s := by
  have h := u4_hexDigits hr
  have key := unquote_long (s := s) (h.symm ▸ hs :
    highSurrogate (u4 (hexDigit (r / 4096)) (hexDigit (r / 256 % 16)) (hexDigit (r / 16 % 16))
      (hexDigit (r % 16))) = false)
  rwa [h] at key

theorem shortEscape_cases {e : UInt8} (h : shortEscape c = some e) : e ≠ 0x75 ∧ unescape e = c := by
  unfold shortEscape at h
  split_ifs at h with h1 h2 h3 h4 h5 h6 h7 <;> cases h <;> subst_vars <;> decide

theorem unquote_escapeByte (hc : c < 0x80) : unquote (escapeByte c ++ s) = c :: unquote s := by
  unfold escapeByte
  split
  · next hsafe =>
    have hne : c ≠ 0x5C := by
      rintro rfl
      exact absurd hsafe (by decide)
    simpa using unquote_rune hne (runeTail_ascii hc)
  · split
    · next e he =>
      obtain ⟨hu, hun⟩ := shortEscape_cases he
      rw [List.cons_append, List.cons_append, List.nil_append, unquote_short hu, hun]
    · have hlt : c.toNat < 0x80 := hc
      have hlow : highSurrogate c.toNat = false := by
        simp only [highSurrogate, Bool.and_eq_false_iff, decide_eq_false_iff_not]
        exact Or.inl (by omega)
      rw [unquote_longEscape (by omega) hlow, encodeRune, if_pos hlt]
      simp

/-- **A string comes back as it was, but for the bytes that are not UTF-8.** -/
theorem unquote_escape (s : Text) : unquote (escape s) = toValidUTF8 s := by
  induction s using runeInduction with
  | nil => rfl
  | bad c s h ih =>
    rw [escape_bad h, unquote_longEscape (by decide) (by decide), ih, toValidUTF8_bad h]
  | rune c s n h ih =>
    by_cases hc : c < 0x80
    · obtain rfl : 0 = n := Option.some.inj (runeTail_ascii hc ▸ h)
      rw [escape_ascii hc, unquote_escapeByte hc, toValidUTF8_rune h]
      exact congrArg _ ih
    · have hne : c ≠ 0x5C := by
        rintro rfl
        exact hc (by decide)
      rw [toValidUTF8_rune h]
      obtain he | ⟨r, hr, hbytes, he⟩ := escape_rune hc h
      · rw [he, unquote_take hne h, ih]
      · rw [he, unquote_longEscape (by omega) (by obtain rfl | rfl := hr <;> decide), ih, ← hbytes]
        rfl

end Strings

/-! ## The scanner on what is written -/

/-- What comes of the bytes of a text, the last of which may end the outermost value. -/
def State.reads (st : State) : Text → Outcome
  | [] => .next st
  | c :: s =>
    match st.step c with
    | .next st => st.reads s
    | outcome => if s = [] then outcome else .error

/-- A number that no other value is around ends only with the byte after it. -/
def State.topNumber (st : State) : Bool :=
  st.stack.isEmpty && match st.mode with
    | .int0 | .int1 | .dot0 | .exp0 => true
    | _ => false

/-- The loop of `checkValid`: only space may follow the value. -/
def readAll (st : State) : Text → Except DecodeError Value
  | [] =>
    match st.step 0x20 with
    | .done v => .ok v
    | _ => .error .unexpectedEOF
  | c :: s =>
    match st.step c with
    | .next st => readAll st s
    | .done v => if (!st.topNumber || isSpace c) && s.all isSpace then .ok v else .error .malformed
    | .error => .error .malformed

/-- `json.Unmarshal`, up to the storing of the value. -/
def unmarshal (s : Text) : Except DecodeError Value := readAll ⟨.beginValue, [], []⟩ s

/-- Inside of open values, with room for `depth` more of them, the text is read as the value. -/
def Spells (depth : ℕ) (text : Text) (v : Value) : Prop :=
  ∀ stack : List Frame, stack.length + depth ≤ maxNestingDepth →
    State.reads ⟨.beginValue, [], stack⟩ text = deliver v stack

section Scanner

variable {st st' : State} {s t : Text} {c : UInt8} {stack : List Frame} {v : Value} {depth : ℕ}

theorem reads_append (h : st.reads s = .next st') (t : Text) : st.reads (s ++ t) = st'.reads t := by
  induction s generalizing st with
  | nil =>
    obtain rfl := Outcome.next.inj h
    rfl
  | cons c s ih =>
    rw [State.reads] at h
    rw [List.cons_append, State.reads]
    split at h
    · exact ih h
    · next hne =>
      split at h
      · exact absurd h (hne st')
      · cases h

theorem reads_cons (h : st.step c = .next st') (s : Text) : st.reads (c :: s) = st'.reads s := by
  rw [State.reads, h]

theorem reads_singleton (c : UInt8) : st.reads [c] = st.step c := by
  rw [State.reads]
  split <;> simp_all [State.reads]

theorem readValue_of_reads (h : st.reads s = .done v) (blank : Bool) (t : Text) :
    readValue blank st (s ++ t) = .ok v := by
  induction s generalizing st blank with
  | nil => cases h
  | cons c s ih =>
    rw [State.reads] at h
    rw [List.cons_append, readValue]
    split at h
    · next st' hst => exact (by rw [hst]; exact ih h _)
    · split at h
      · rw [h]
      · cases h

theorem scan_of_spells (h : Spells depth s v) (hd : depth ≤ maxNestingDepth) (t : Text) :
    scan (s ++ t) = .ok v :=
  readValue_of_reads (h [] (by simpa using hd)) true t

/-- What ends with a byte of its own is no number. -/
theorem topNumber_eq_false (h : st.step c = .done v) (hv : ∀ item, v ≠ .number item) :
    st.topNumber = false := by
  obtain ⟨mode, literal, stack⟩ := st
  cases stack with
  | cons f stack => rfl
  | nil =>
    have hend : State.endNumber ⟨mode, literal, []⟩ c ≠ .done v := fun hc =>
      hv literal (Outcome.done.inj hc).symm
    have hint : State.int0 ⟨mode, literal, []⟩ c ≠ .done v := by
      unfold State.int0
      split_ifs
      · exact Outcome.noConfusion
      · exact Outcome.noConfusion
      · exact hend
    cases mode with
    | int0 => exact absurd h hint
    | int1 | dot0 | exp0 =>
      simp only [State.step] at h
      split_ifs at h <;> first | exact absurd h hint | exact absurd h hend | cases h
    | _ => rfl

theorem readAll_of_reads (h : st.reads s = .done v) (hv : ∀ item, v ≠ .number item) :
    readAll st s = .ok v := by
  induction s generalizing st with
  | nil => cases h
  | cons c s ih =>
    rw [State.reads] at h
    rw [readAll]
    split at h
    · next st' hst => exact (by rw [hst]; exact ih h)
    · split at h
      · next hs =>
        rw [h, hs]
        simp [topNumber_eq_false h hv]
      · cases h

theorem unmarshal_of_spells (h : Spells depth s v) (hd : depth ≤ maxNestingDepth)
    (hv : ∀ item, v ≠ .number item) : unmarshal s = .ok v :=
  readAll_of_reads (h [] (by simpa using hd)) hv

/-! ### Strings -/

/-- The bytes that stand for themselves in a string. -/
def Plain (c : UInt8) : Prop := 0x20 ≤ c ∧ c ≠ 0x22 ∧ c ≠ 0x5C

theorem step_plain {l : Text} (hc : Plain c) :
    State.step ⟨.inString, l, stack⟩ c = .next ⟨.inString, l ++ [c], stack⟩ := by
  simp only [State.step, if_neg hc.2.1, if_neg hc.2.2, if_neg (UInt8.not_lt.2 hc.1), State.take]

theorem reads_plain {l : Text} (hs : ∀ c ∈ s, Plain c) :
    State.reads ⟨.inString, l, stack⟩ s = .next ⟨.inString, l ++ s, stack⟩ := by
  induction s generalizing l with
  | nil => rw [State.reads, List.append_nil]
  | cons c s ih =>
    rw [reads_cons (step_plain (hs c List.mem_cons_self)),
      ih fun x hx => hs x (List.mem_cons_of_mem _ hx), List.append_assoc, List.singleton_append]

theorem isHex_hexDigit : ∀ n < 16, isHex (hexDigit n) = true := by decide

theorem reads_longEscape {l : Text} {r : ℕ} (hr : r < 0x10000) :
    State.reads ⟨.inString, l, stack⟩ (longEscape r) = .next ⟨.inString, l ++ longEscape r, stack⟩ := by
  have h1 := isHex_hexDigit (r / 4096) (by omega)
  have h2 := isHex_hexDigit (r / 256 % 16) (by omega)
  have h3 := isHex_hexDigit (r / 16 % 16) (by omega)
  have h4 := isHex_hexDigit (r % 16) (by omega)
  simp [longEscape, State.reads, State.step, State.take, h1, h2, h3, h4]

theorem reads_escapeByte {l : Text} (hc : c < 0x80) :
    State.reads ⟨.inString, l, stack⟩ (escapeByte c) =
      .next ⟨.inString, l ++ escapeByte c, stack⟩ := by
  unfold escapeByte
  split
  · next hsafe =>
    refine reads_plain fun x hx => ?_
    obtain rfl := List.mem_singleton.1 hx
    simp only [htmlSafe, Bool.and_eq_true, decide_eq_true_eq] at hsafe
    exact ⟨hsafe.1.1.1.1.1.1, hsafe.1.1.1.1.2, hsafe.2⟩
  · split
    · next e he =>
      have hmem : e ∈ [0x62, 0x66, 0x6E, 0x72, 0x74, 0x5C, 0x2F, 0x22] ∧ e ≠ 0x75 := by
        unfold shortEscape at he
        split_ifs at he <;> cases he <;> decide
      have hesc : State.step ⟨.inString, l, stack⟩ 0x5C = .next ⟨.inStringEsc, l ++ [0x5C], stack⟩ := rfl
      rw [reads_cons hesc, reads_singleton]
      simp only [State.step, if_neg hmem.2, if_pos hmem.1, State.take, List.append_assoc,
        List.singleton_append]
    · have hlt : c.toNat < 0x80 := hc
      exact reads_longEscape (by omega)

theorem reads_escape (s : Text) {l : Text} :
    State.reads ⟨.inString, l, stack⟩ (escape s) = .next ⟨.inString, l ++ escape s, stack⟩ := by
  induction s using runeInduction generalizing l with
  | nil => exact congrArg (fun x => Outcome.next ⟨.inString, x, stack⟩) (List.append_nil l).symm
  | bad c s h ih =>
    rw [escape_bad h, reads_append (reads_longEscape (by decide)), ih, List.append_assoc]
  | rune c s n h ih =>
    by_cases hc : c < 0x80
    · obtain rfl : 0 = n := Option.some.inj (runeTail_ascii hc ▸ h)
      rw [List.drop_zero] at ih
      rw [escape_ascii hc, reads_append (reads_escapeByte hc), ih, List.append_assoc]
    · have hplain : ∀ x : UInt8, 0x80 ≤ x → Plain x := by
        intro x hx
        refine ⟨UInt8.le_trans (by decide) hx, ?_, ?_⟩ <;> rintro rfl <;> exact absurd hx (by decide)
      obtain he | ⟨r, hr, -, he⟩ := escape_rune hc h
      · have hcopied : ∀ x ∈ c :: s.take n, Plain x := by
          intro x hx
          rcases List.mem_cons.1 hx with rfl | hx
          · exact hplain _ (UInt8.not_lt.1 hc)
          · exact hplain _ (ge_of_mem_runeTail h hx)
        rw [he, ← List.cons_append, reads_append (reads_plain hcopied), ih, List.append_assoc]
      · rw [he, reads_append (reads_longEscape (by omega)), ih, List.append_assoc]

/-- From where a string may begin, a written one is delivered. -/
theorem reads_quote (h : st.step 0x22 = .next ⟨.inString, [], st.stack⟩) (s : Text) :
    st.reads (quote s) = deliver (.string (toValidUTF8 s)) st.stack := by
  rw [quote, reads_cons h, reads_append (reads_escape s), reads_singleton, List.nil_append]
  simp only [State.step, if_true, unquote_escape]

theorem spells_quote (s : Text) : Spells depth (quote s) (.string (toValidUTF8 s)) :=
  fun _ _ => reads_quote rfl s

/-! ### Objects -/

/-- The name of a member and its colon. -/
theorem reads_name {members : List (Text × Value)} (name : Text)
    (h : st.step 0x22 = .next ⟨.inString, [], st.stack⟩) (hst : st.stack = .objectKey members :: stack) :
    st.reads (quote name ++ [0x3A]) =
      .next ⟨.beginValue, [], .objectValue members (toValidUTF8 name) :: stack⟩ := by
  have hq : st.reads (quote name) =
      .next ⟨.endValue, [], .objectColon members (toValidUTF8 name) :: stack⟩ := by
    rw [reads_quote h, hst]
    rfl
  rw [reads_append hq, reads_singleton]
  rfl

/-- A member, from its name to its value. -/
theorem reads_member {members : List (Text × Value)} {m : Text × Text}
    (h : st.step 0x22 = .next ⟨.inString, [], st.stack⟩) (hst : st.stack = .objectKey members :: stack)
    (hroom : stack.length + (depth + 1) ≤ maxNestingDepth) (hv : Spells depth m.2 v) :
    st.reads (memberText m) =
      .next ⟨.endValue, [], .objectNext (members ++ [(toValidUTF8 m.1, v)]) :: stack⟩ := by
  rw [memberText, List.append_cons, reads_append (reads_name m.1 h hst), hv]
  · rfl
  · rw [List.length_cons]
    omega

theorem reads_members {ms : List (Text × Text)} {vs : List (Text × Value)}
    (hvs : List.Forall₂ (fun m v => v.1 = toValidUTF8 m.1 ∧ Spells depth m.2 v.2) ms vs) (hne : ms ≠ [])
    (hroom : stack.length + (depth + 1) ≤ maxNestingDepth) {members : List (Text × Value)}
    (h : st.step 0x22 = .next ⟨.inString, [], st.stack⟩)
    (hst : st.stack = .objectKey members :: stack) :
    st.reads (membersText ms ++ [0x7D]) = deliver (.object (members ++ vs)) stack := by
  induction hvs generalizing st members with
  | nil => exact absurd rfl hne
  | @cons m v ms vs hv hvs ih =>
    obtain ⟨hname, hv⟩ := hv
    have hm := reads_member h hst hroom hv
    rw [← hname] at hm
    cases hvs with
    | nil =>
      rw [membersText, reads_append hm, reads_singleton]
      rfl
    | @cons m' v' ms vs hv' hvs =>
      have hcomma : State.step ⟨.endValue, [], .objectNext (members ++ [(v.1, v.2)]) :: stack⟩ 0x2C =
          .next ⟨.beginString, [], .objectKey (members ++ [(v.1, v.2)]) :: stack⟩ := rfl
      rw [membersText, List.append_assoc, List.cons_append, reads_append hm, reads_cons hcomma,
        ih (List.cons_ne_nil _ _) rfl rfl, List.append_assoc, List.singleton_append]

/-- **An object is read back member by member.** -/
theorem spells_object {ms : List (Text × Text)} {vs : List (Text × Value)}
    (hvs : List.Forall₂ (fun m v => v.1 = toValidUTF8 m.1 ∧ Spells depth m.2 v.2) ms vs) :
    Spells (depth + 1) (object ms) (.object vs) := by
  intro stack hroom
  have hpush : State.step ⟨.beginValue, [], stack⟩ 0x7B =
      .next ⟨.beginStringOrEmpty, [], .objectKey [] :: stack⟩ := by
    have hlt : stack.length < maxNestingDepth := by omega
    simp [State.step, beginValue, isSpace, push, hlt]
  rw [object, reads_cons hpush]
  cases ms with
  | nil =>
    cases hvs
    rw [membersText, List.nil_append, reads_singleton]
    rfl
  | cons m ms =>
    have hbegin : State.step ⟨.beginStringOrEmpty, [], .objectKey [] :: stack⟩ 0x22 =
        .next ⟨.inString, [], .objectKey [] :: stack⟩ := rfl
    exact reads_members hvs (List.cons_ne_nil m ms) hroom hbegin rfl

end Scanner

end Json
