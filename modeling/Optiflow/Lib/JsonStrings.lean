import Optiflow.Lib.Runes

/-!
# The strings of JSON that is read

The scanner lets only complete escapes pass, so what it reads between quotes is UTF-8, whatever bytes the
text has (`utf8_scan`): a byte that is not UTF-8 comes back as U+FFFD, and so does half a pair of
surrogates.
-/

namespace Json

/-! ## What a string is read as -/

section Unquote

variable {c : UInt8} {s t : Text} {n : ℕ}

theorem pieces_keep (h : n ≤ s.length) :
    pieces n s = (s.take n).map Piece.byte ++ pieces 0 (s.drop n) := by
  induction n generalizing s with
  | zero => rfl
  | succ n ih =>
    cases s with
    | nil => exact absurd h (Nat.not_succ_le_zero n)
    | cons c s => rw [pieces, ih (Nat.le_of_succ_le_succ h)]; rfl

theorem join_bytes (bs : Text) (ps : List Piece) : join (bs.map Piece.byte ++ ps) = bs ++ join ps := by
  induction bs with
  | nil => rfl
  | cons b bs ih => rw [List.map_cons, List.cons_append, join, ih]; rfl

/-- A code unit that is not the first half of a pair. -/
theorem join_code {r : ℕ} (hr : highSurrogate r = false) (ps : List Piece) :
    join (.code r :: ps) = encodeRune r ++ join ps := by
  cases ps with
  | nil => simp [join]
  | cons p ps => cases p <;> simp [join, hr]

theorem unquote_rune (hc : c ≠ 0x5C) (h : runeTail c s = some n) :
    unquote (c :: s) = c :: (s.take n ++ unquote (s.drop n)) := by
  have hp : pieces 0 (c :: s) = .byte c :: pieces n s := by
    rw [pieces.eq_def]
    simp only [if_neg hc, h]
  rw [unquote, hp, join, pieces_keep (le_length_of_runeTail h), join_bytes, unquote]

theorem unquote_take (hc : c ≠ 0x5C) (h : runeTail c s = some n) (t : Text) :
    unquote (c :: (s.take n ++ t)) = c :: (s.take n ++ unquote t) := by
  have hlen : (s.take n).length = n := List.length_take_of_le (le_length_of_runeTail h)
  rw [unquote_rune hc (runeTail_take h t), List.take_left' hlen, List.drop_left' hlen]

theorem unquote_short {e : UInt8} (he : e ≠ 0x75) :
    unquote (0x5C :: e :: s) = unescape e :: unquote s := by
  have hp : pieces 0 (0x5C :: e :: s) = .byte (unescape e) :: pieces 0 s := by
    rw [pieces.eq_def]
    simp only [if_true, if_neg he]
  rw [unquote, hp, join, unquote]

theorem unquote_long {a b c d : UInt8} (h : highSurrogate (u4 a b c d) = false) :
    unquote (0x5C :: 0x75 :: a :: b :: c :: d :: s) = encodeRune (u4 a b c d) ++ unquote s := by
  simp only [unquote, pieces, if_true]
  exact join_code h _

end Unquote

/-! ## What is read is UTF-8 -/

/-- Bytes and complete escapes. -/
inductive Items : Text → Prop
  | nil : Items []
  | byte {c : UInt8} {s : Text} (hc : c ≠ 0x5C) (h : Items s) : Items (c :: s)
  | short {e : UInt8} {s : Text} (he : e < 0x80) (hu : e ≠ 0x75) (h : Items s) : Items (0x5C :: e :: s)
  | long {a b c d : UInt8} {s : Text} (h : Items s) : Items (0x5C :: 0x75 :: a :: b :: c :: d :: s)

section Valid

variable {s t : Text} {c : UInt8} {n : ℕ}

theorem Items.append (h : Items s) (ht : Items t) : Items (s ++ t) := by
  induction h with
  | nil => exact ht
  | byte hc _ ih => exact .byte hc ih
  | short he hu _ ih => exact .short he hu ih
  | long _ ih => exact .long ih

theorem Items.tail (h : Items (c :: s)) (hc : c ≠ 0x5C) : Items s := by
  cases h with
  | byte _ h => exact h
  | short _ _ _ => exact absurd rfl hc
  | long _ => exact absurd rfl hc

theorem Items.drop (h : Items s) (hn : ∀ x ∈ s.take n, x ≠ 0x5C) : Items (s.drop n) := by
  induction n generalizing s with
  | zero => exact h
  | succ n ih =>
    cases s with
    | nil => exact h
    | cons c s =>
      rw [List.take_succ_cons, List.forall_mem_cons] at hn
      exact ih (h.tail hn.1) hn.2

/-- A code unit, and the next one if the two are a pair. -/
theorem join_code_cases (r : ℕ) (ps : List Piece) :
    join (.code r :: ps) = encodeRune r ++ join ps ∨
    ∃ r' ps' x, ps = .code r' :: ps' ∧ lowSurrogate r' = true ∧
      join (.code r :: ps) = encodeRune x ++ join ps' := by
  cases ps with
  | nil => exact Or.inl (by simp [join])
  | cons p ps =>
    cases p with
    | byte c => exact Or.inl (by simp [join])
    | code r' =>
      rw [join]
      split
      · next hpair => exact Or.inr ⟨r', ps, _, rfl, (Bool.and_eq_true_iff.1 hpair).2, rfl⟩
      · exact Or.inl rfl

/-- The second half of a pair is a long escape. -/
theorem Items.of_pieces (h : Items s) {r : ℕ} {ps : List Piece} (hp : pieces 0 s = .code r :: ps)
    (hr : lowSurrogate r = true) : ∃ t, Items t ∧ t.length < s.length ∧ ps = pieces 0 t := by
  cases h with
  | nil => cases hp
  | @byte c s hc h =>
    rw [pieces.eq_def] at hp
    simp only [if_neg hc] at hp
    split at hp
    · obtain ⟨hr', -⟩ := List.cons.inj hp
      obtain rfl := Piece.code.inj hr'
      exact absurd hr (by decide)
    · cases hp
  | @short e s he hu h =>
    rw [pieces.eq_def] at hp
    simp only [if_true, if_neg hu] at hp
    cases hp
  | @long a b c d s h =>
    simp only [pieces, if_true] at hp
    exact ⟨s, h, by simp only [List.length_cons]; omega, (List.cons.inj hp).2.symm⟩

/-- **What stands between quotes, with complete escapes, is read as UTF-8.** -/
theorem validUTF8_unquote (h : Items s) : ValidUTF8 (unquote s) := by
  induction hlen : s.length using Nat.strongRecOn generalizing s with
  | ind len ih =>
    have code : ∀ (r : ℕ) (t : Text), Items t → t.length < len → ValidUTF8 (join (.code r :: pieces 0 t)) := by
      intro r t ht hlt
      obtain hj | ⟨r', ps', x, hps, hlow, hj⟩ := join_code_cases r (pieces 0 t)
      · exact hj ▸ (ih _ hlt ht rfl).encodeRune r
      · obtain ⟨u, hu, hut, rfl⟩ := ht.of_pieces hps hlow
        exact hj ▸ (ih _ (Nat.lt_trans hut hlt) hu rfl).encodeRune x
    cases h with
    | nil => rfl
    | @byte c s hc h =>
      rw [List.length_cons] at hlen
      cases htail : runeTail c s with
      | none =>
        have hp : pieces 0 (c :: s) = .code 0xFFFD :: pieces 0 s := by
          rw [pieces.eq_def]
          simp only [if_neg hc, htail]
        rw [unquote, hp]
        exact code _ s h (by omega)
      | some n =>
        have hrest : ValidUTF8 (unquote (s.drop n)) := by
          refine ih _ ?_ (h.drop fun x hx => ?_) rfl
          · rw [List.length_drop]
            omega
          · rintro rfl
            exact absurd (ge_of_mem_runeTail htail hx) (by decide)
        rw [ValidUTF8, unquote_rune hc htail, toValidUTF8_take htail, hrest]
    | @short e s he hu h =>
      have hascii : unescape e < 0x80 := by
        unfold unescape
        split_ifs <;> first | decide | exact he
      rw [ValidUTF8, unquote_short hu, toValidUTF8_rune (runeTail_ascii hascii)]
      exact congrArg _ (ih _ (by simp only [List.length_cons] at hlen; omega) h rfl)
    | @long a b c d s h =>
      have hp : pieces 0 (0x5C :: 0x75 :: a :: b :: c :: d :: s) = .code (u4 a b c d) :: pieces 0 s := by
        simp only [pieces, if_true]
      rw [unquote, hp]
      exact code _ s h (by simp only [List.length_cons] at hlen; omega)

/-! ### The invariant of the scanner -/

/-- Every string in the value is UTF-8; the names of members are left out. -/
inductive Value.UTF8 : Value → Prop
  | null : UTF8 .null
  | bool (b : Bool) : UTF8 (.bool b)
  | number (item : Text) : UTF8 (.number item)
  | string {s : Text} (h : ValidUTF8 s) : UTF8 (.string s)
  | array {elems : List Value} (h : ∀ v ∈ elems, UTF8 v) : UTF8 (.array elems)
  | object {members : List (Text × Value)} (h : ∀ m ∈ members, UTF8 m.2) : UTF8 (.object members)

def Frame.UTF8 : Frame → Prop
  | .array elems => ∀ v ∈ elems, v.UTF8
  | .objectKey members | .objectColon members _ | .objectValue members _ | .objectNext members =>
    ∀ m ∈ members, m.2.UTF8

/-- What has been read of a string: complete escapes, or all but the one that it ends in. -/
def Mode.reading (l : Text) : Mode → Prop
  | .inString => Items l
  | .inStringEsc => ∃ s, l = s ++ [0x5C] ∧ Items s
  | .inStringEscU left => ∃ s hs, l = s ++ 0x5C :: 0x75 :: hs ∧ hs.length + left = 3 ∧ Items s
  | .word _ v => v.UTF8
  | _ => True

structure State.UTF8 (st : State) : Prop where
  stack : ∀ f ∈ st.stack, f.UTF8
  literal : st.mode.reading st.literal

/-- What an outcome leaves is all right. -/
def Outcome.UTF8 : Outcome → Prop
  | .next st => st.UTF8
  | .done v => v.UTF8
  | .error => True

section Invariant

variable {st : State} {v : Value} {stack : List Frame}

theorem utf8_deliver (hv : v.UTF8) (hs : ∀ f ∈ stack, f.UTF8) : (deliver v stack).UTF8 := by
  cases stack with
  | nil => exact hv
  | cons f stack =>
    rw [List.forall_mem_cons] at hs
    obtain ⟨hf, hs⟩ := hs
    cases f with
    | array elems =>
      refine ⟨List.forall_mem_cons.2 ⟨fun x hx => ?_, hs⟩, trivial⟩
      rcases List.mem_append.1 hx with hx | hx
      · exact hf x hx
      · exact List.mem_singleton.1 hx ▸ hv
    | objectKey members =>
      cases v with
      | string key => exact ⟨List.forall_mem_cons.2 ⟨hf, hs⟩, trivial⟩
      | _ => trivial
    | objectColon members key => trivial
    | objectValue members key =>
      refine ⟨List.forall_mem_cons.2 ⟨fun x hx => ?_, hs⟩, trivial⟩
      rcases List.mem_append.1 hx with hx | hx
      · exact hf x hx
      · exact List.mem_singleton.1 hx ▸ hv
    | objectNext members => trivial

theorem utf8_endValue (h : ∀ f ∈ st.stack, f.UTF8) (c : UInt8) : (endValue st c).UTF8 := by
  obtain ⟨mode, literal, stack⟩ := st
  unfold endValue
  split
  · exact ⟨h, trivial⟩
  · cases stack with
    | nil => trivial
    | cons f stack =>
      obtain ⟨hf, hs⟩ := List.forall_mem_cons.1 h
      cases f with
      | array elems =>
        simp only
        split_ifs
        · exact ⟨h, trivial⟩
        · exact utf8_deliver (.array hf) hs
        · trivial
      | objectColon members key =>
        simp only
        split_ifs
        · exact ⟨List.forall_mem_cons.2 ⟨hf, hs⟩, trivial⟩
        · trivial
      | objectNext members =>
        simp only
        split_ifs
        · exact ⟨List.forall_mem_cons.2 ⟨hf, hs⟩, trivial⟩
        · exact utf8_deliver (.object hf) hs
        · trivial
      | _ => trivial

theorem utf8_push {f : Frame} {m : Mode} (hf : f.UTF8) (hm : m.reading []) (h : ∀ f ∈ stack, f.UTF8) :
    (push f m stack).UTF8 := by
  unfold push
  split
  · exact ⟨List.forall_mem_cons.2 ⟨hf, h⟩, hm⟩
  · trivial

theorem utf8_beginValue (h : st.UTF8) (c : UInt8) : (beginValue st c).UTF8 := by
  have hs := h.stack
  unfold beginValue
  split_ifs
  · exact h
  · exact utf8_push (fun m hm => absurd hm List.not_mem_nil) trivial hs
  · exact utf8_push (fun m hm => absurd hm List.not_mem_nil) trivial hs
  · exact ⟨hs, Items.nil⟩
  · exact ⟨hs, trivial⟩
  · exact ⟨hs, trivial⟩
  · exact ⟨hs, trivial⟩
  · exact ⟨hs, Value.UTF8.bool true⟩
  · exact ⟨hs, Value.UTF8.bool false⟩
  · exact ⟨hs, Value.UTF8.null⟩
  · trivial

theorem utf8_beginString (h : st.UTF8) (c : UInt8) : (beginString st c).UTF8 := by
  unfold beginString
  split_ifs
  · exact h
  · exact ⟨h.stack, Items.nil⟩
  · trivial

theorem utf8_endNumber (h : ∀ f ∈ st.stack, f.UTF8) (c : UInt8) : (st.endNumber c).UTF8 := by
  have hd := utf8_deliver (.number st.literal) h
  unfold State.endNumber
  split
  · next st' hst =>
    rw [hst] at hd
    exact utf8_endValue hd.stack c
  · exact hd

theorem utf8_int0 (h : ∀ f ∈ st.stack, f.UTF8) (c : UInt8) : (st.int0 c).UTF8 := by
  unfold State.int0
  split_ifs
  · exact ⟨h, trivial⟩
  · exact ⟨h, trivial⟩
  · exact utf8_endNumber h c

theorem utf8_expSign (h : ∀ f ∈ st.stack, f.UTF8) (c : UInt8) : (st.expSign c).UTF8 := by
  unfold State.expSign
  split_ifs
  · exact ⟨h, trivial⟩
  · trivial

/-- A string that goes on, or ends. -/
theorem utf8_inString {l : Text} (hs : ∀ f ∈ stack, f.UTF8) (hl : Items l) (c : UInt8) :
    (State.step ⟨.inString, l, stack⟩ c).UTF8 := by
  simp only [State.step]
  split_ifs with hquote hescape
  · exact utf8_deliver (.string (validUTF8_unquote hl)) hs
  · exact ⟨hs, l, hescape ▸ rfl, hl⟩
  · trivial
  · exact ⟨hs, hl.append (.byte hescape .nil)⟩

theorem utf8_inStringEsc {l : Text} (hs : ∀ f ∈ stack, f.UTF8) (hl : Items l) (c : UInt8) :
    (State.step ⟨.inStringEsc, l ++ [0x5C], stack⟩ c).UTF8 := by
  simp only [State.step]
  split_ifs with hu hshort
  · exact ⟨hs, l, [], by simp [hu], rfl, hl⟩
  · refine ⟨hs, ?_⟩
    have hascii : c < 0x80 := by
      simp only [List.mem_cons, List.not_mem_nil, or_false] at hshort
      rcases hshort with rfl | rfl | rfl | rfl | rfl | rfl | rfl | rfl <;> decide
    show Items (l ++ [0x5C] ++ [c])
    rw [List.append_assoc]
    exact hl.append (.short hascii hu .nil)
  · trivial

theorem utf8_inStringEscU {l hs : Text} {left : ℕ} (h : ∀ f ∈ stack, f.UTF8)
    (hlen : hs.length + left = 3) (hl : Items l) (c : UInt8) :
    (State.step ⟨.inStringEscU left, l ++ 0x5C :: 0x75 :: hs, stack⟩ c).UTF8 := by
  simp only [State.step]
  split_ifs with hhex hleft
  · refine ⟨h, ?_⟩
    obtain ⟨a, b, d, rfl⟩ : ∃ a b d, hs = [a, b, d] := List.length_eq_three.1 (by omega)
    show Items (l ++ [0x5C, 0x75, a, b, d] ++ [c])
    rw [List.append_assoc]
    exact hl.append (.long .nil)
  · refine ⟨h, l, hs ++ [c], by simp, ?_, hl⟩
    rw [List.length_append, List.length_singleton]
    omega
  · trivial

/-- One byte keeps the invariant. -/
theorem utf8_step (h : st.UTF8) (c : UInt8) : (st.step c).UTF8 := by
  obtain ⟨mode, literal, stack⟩ := st
  obtain ⟨hs, hl⟩ := h
  have hst : ∀ m : Mode, m.reading literal → State.UTF8 ⟨m, literal, stack⟩ := fun m hm => ⟨hs, hm⟩
  cases mode with
  | beginValue => exact utf8_beginValue (hst .beginValue trivial) c
  | beginValueOrEmpty =>
    simp only [State.step]
    split_ifs
    · exact utf8_endValue hs c
    · exact utf8_beginValue (hst .beginValueOrEmpty trivial) c
  | beginString => exact utf8_beginString (hst .beginString trivial) c
  | beginStringOrEmpty =>
    cases stack with
    | nil => trivial
    | cons f stack =>
      cases f with
      | objectKey members =>
        obtain ⟨hf, hs⟩ := List.forall_mem_cons.1 hs
        simp only [State.step]
        split_ifs
        · exact utf8_deliver (.object hf) hs
        · exact utf8_beginString (hst .beginStringOrEmpty trivial) c
      | _ => trivial
  | endValue => exact utf8_endValue hs c
  | inString => exact utf8_inString hs hl c
  | inStringEsc =>
    obtain ⟨l, rfl, hl⟩ := hl
    exact utf8_inStringEsc hs hl c
  | inStringEscU left =>
    obtain ⟨l, digits, rfl, hlen, hl⟩ := hl
    exact utf8_inStringEscU hs hlen hl c
  | word rest v =>
    cases rest with
    | nil => exact utf8_deliver hl hs
    | cons x rest =>
      simp only [State.step]
      split_ifs
      · trivial
      · exact utf8_deliver hl hs
      · exact ⟨hs, hl⟩
  | neg =>
    simp only [State.step]
    split_ifs <;> first | exact ⟨hs, trivial⟩ | trivial
  | int0 => exact utf8_int0 hs c
  | int1 =>
    simp only [State.step]
    split_ifs
    · exact ⟨hs, trivial⟩
    · exact utf8_int0 hs c
  | dot =>
    simp only [State.step]
    split_ifs
    · exact ⟨hs, trivial⟩
    · trivial
  | dot0 =>
    simp only [State.step]
    split_ifs
    · exact ⟨hs, trivial⟩
    · exact ⟨hs, trivial⟩
    · exact utf8_endNumber hs c
  | exp =>
    simp only [State.step]
    split_ifs
    · exact ⟨hs, trivial⟩
    · exact utf8_expSign hs c
  | expSign => exact utf8_expSign hs c
  | exp0 =>
    simp only [State.step]
    split_ifs
    · exact ⟨hs, trivial⟩
    · exact utf8_endNumber hs c

theorem utf8_readValue {s : Text} (h : st.UTF8) {blank : Bool} (hv : readValue blank st s = .ok v) :
    v.UTF8 := by
  induction s generalizing st blank with
  | nil =>
    have hstep := utf8_step h 0x20
    rw [readValue] at hv
    split at hv
    · next v' hd =>
      rw [hd] at hstep
      exact Except.ok.inj hv ▸ hstep
    · cases hv
  | cons c s ih =>
    have hstep := utf8_step h c
    rw [readValue] at hv
    split at hv
    · next st' hd =>
      rw [hd] at hstep
      exact ih hstep hv
    · next v' hd =>
      rw [hd] at hstep
      exact Except.ok.inj hv ▸ hstep
    · cases hv

/-- **Every string that is read is UTF-8.** -/
theorem utf8_scan {s : Text} (h : scan s = .ok v) : v.UTF8 :=
  have h₀ : State.UTF8 ⟨.beginValue, [], []⟩ := ⟨fun _ hf => absurd hf List.not_mem_nil, trivial⟩
  utf8_readValue h₀ h

end Invariant

end Valid

end Json
