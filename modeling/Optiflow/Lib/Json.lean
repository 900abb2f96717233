import Mathlib.Algebra.Group.Int.Defs
import Mathlib.Algebra.Group.Nat.Defs

/-!
# JSON, byte by byte

`encoding/json` reads a value with a scanner that looks at one byte at a time: `State.step` is its
step, with the stack of open arrays and objects, and `scan` the loop.  Here the open values are built on
that stack.  The scanner stops at the end of the first value, whatever follows, and a text that ends
early, or nests deeper than 10000, has no value.  Strings come without their quotes and escapes; numbers
stay as they are written.
-/

namespace Json

abbrev Text := List UInt8

inductive Value
  | null
  | bool (b : Bool)
  | number (item : Text)
  | string (s : Text)
  | array (elems : List Value)
  | object (members : List (Text × Value))

/-! ## Strings -/

/-- What `utf8.EncodeRune` writes. -/
def encodeRune (r : Nat) : Text :=
  if r < 0x80 then [r.toUInt8]
  else if r < 0x800 then [(0xC0 + r / 64).toUInt8, (0x80 + r % 64).toUInt8]
  else if 0xD800 ≤ r ∧ r < 0xE000 ∨ 0x10FFFF < r then [0xEF, 0xBF, 0xBD]
  else if r < 0x10000 then
    [(0xE0 + r / 4096).toUInt8, (0x80 + r / 64 % 64).toUInt8, (0x80 + r % 64).toUInt8]
  else
    [(0xF0 + r / 262144).toUInt8, (0x80 + r / 4096 % 64).toUInt8, (0x80 + r / 64 % 64).toUInt8,
      (0x80 + r % 64).toUInt8]

/-- `n` bytes continue a rune, the first of them between `low` and `high`. -/
def continues : Nat → UInt8 → UInt8 → Text → Bool
  | 0, _, _, _ => true
  | _ + 1, _, _, [] => false
  | n + 1, low, high, c :: s => low ≤ c && c ≤ high && continues n 0x80 0xBF s

/-- How many bytes of `s` belong to the rune that starts with `c`; `none` if it is not well-formed. -/
def runeTail (c : UInt8) (s : Text) : Option Nat :=
  let tail (n : Nat) (low high : UInt8) := if continues n low high s then some n else none
  if c < 0x80 then some 0
  else if 0xC2 ≤ c ∧ c ≤ 0xDF then tail 1 0x80 0xBF
  else if 0xE0 ≤ c ∧ c ≤ 0xEF then
    tail 2 (if c = 0xE0 then 0xA0 else 0x80) (if c = 0xED then 0x9F else 0xBF)
  else if 0xF0 ≤ c ∧ c ≤ 0xF4 then
    tail 3 (if c = 0xF0 then 0x90 else 0x80) (if c = 0xF4 then 0x8F else 0xBF)
  else none

def isDigit (c : UInt8) : Bool := 0x30 ≤ c && c ≤ 0x39

def isHex (c : UInt8) : Bool := isDigit c || 0x41 ≤ c && c ≤ 0x46 || 0x61 ≤ c && c ≤ 0x66

def hexValue (c : UInt8) : Nat :=
  if isDigit c then c.toNat - 0x30 else if c ≤ 0x46 then c.toNat - 0x37 else c.toNat - 0x57

def u4 (a b c d : UInt8) : Nat :=
  4096 * hexValue a + 256 * hexValue b + 16 * hexValue c + hexValue d

/-- The byte that a short escape stands for. -/
def unescape (c : UInt8) : UInt8 :=
  if c = 0x62 then 0x08
  else if c = 0x66 then 0x0C
  else if c = 0x6E then 0x0A
  else if c = 0x72 then 0x0D
  else if c = 0x74 then 0x09
  else c

/-- A piece of a string: a byte that stands for itself, or the code unit of a long escape. -/
inductive Piece
  | byte (c : UInt8)
  | code (r : Nat)

/-- The pieces between the quotes, whose escapes the scanner has checked.  The next `keep` bytes continue
a rune; a byte that is not UTF-8 becomes U+FFFD. -/
def pieces : Nat → Text → List Piece
  | _, [] => []
  | keep + 1, c :: s => .byte c :: pieces keep s
  | 0, c :: s =>
    if c = 0x5C then
      match s with
      | [] => []
      | e :: s =>
        if e = 0x75 then
          match s with
          | a :: b :: c :: d :: s => .code (u4 a b c d) :: pieces 0 s
          | _ => []
        else .byte (unescape e) :: pieces 0 s
    else
      match runeTail c s with
      | none => .code 0xFFFD :: pieces 0 s
      | some keep => .byte c :: pieces keep s

def highSurrogate (r : Nat) : Bool := 0xD800 ≤ r && r < 0xDC00

def lowSurrogate (r : Nat) : Bool := 0xDC00 ≤ r && r < 0xE000

/-- A pair of surrogates is one rune; a lone one becomes U+FFFD in `encodeRune`. -/
def join : List Piece → Text
  | [] => []
  | .byte c :: ps => c :: join ps
  | .code r :: ps =>
    match ps with
    | [] => encodeRune r
    | .byte c :: ps => encodeRune r ++ join (.byte c :: ps)
    | .code r' :: ps =>
      if highSurrogate r && lowSurrogate r' then
        encodeRune ((r - 0xD800) * 0x400 + (r' - 0xDC00) + 0x10000) ++ join ps
      else encodeRune r ++ join (.code r' :: ps)

/-- `unquoteBytes`. -/
def unquote (s : Text) : Text := join (pieces 0 s)

/-! ## The scanner -/

/-- The deepest nesting that is read. -/
def maxNestingDepth : Nat := 10000

/-- What the next byte may be: the `step` functions of the scanner.  `word` has the rest of the word and
the value that it stands for. -/
inductive Mode
  | beginValue
  | beginValueOrEmpty
  | beginString
  | beginStringOrEmpty
  | endValue
  | inString
  | inStringEsc
  | inStringEscU (left : Nat)
  | word (rest : Text) (v : Value)
  | neg
  | int0
  | int1
  | dot
  | dot0
  | exp
  | expSign
  | exp0

/-- An open array or object: of an object, the key of the next member may be due, or read, or its value
may be due, or read. -/
inductive Frame
  | array (elems : List Value)
  | objectKey (members : List (Text × Value))
  | objectColon (members : List (Text × Value)) (key : Text)
  | objectValue (members : List (Text × Value)) (key : Text)
  | objectNext (members : List (Text × Value))

/-- The scanner, with the bytes of the literal that it is in. -/
structure State where
  mode : Mode
  literal : Text
  stack : List Frame

/-- `done`: the outermost value has ended, before this byte or with it. -/
inductive Outcome
  | next (st : State)
  | done (v : Value)
  | error

def isSpace (c : UInt8) : Bool := c = 0x20 || c = 0x09 || c = 0x0D || c = 0x0A

/-- A value ends inside the open ones. -/
def deliver (v : Value) : List Frame → Outcome
  | [] => .done v
  | .array elems :: stack => .next ⟨.endValue, [], .array (elems ++ [v]) :: stack⟩
  | .objectKey members :: stack =>
    match v with
    | .string key => .next ⟨.endValue, [], .objectColon members key :: stack⟩
    | _ => .error
  | .objectValue members key :: stack =>
    .next ⟨.endValue, [], .objectNext (members ++ [(key, v)]) :: stack⟩
  | .objectColon _ _ :: _ | .objectNext _ :: _ => .error

def push (f : Frame) (m : Mode) (stack : List Frame) : Outcome :=
  if stack.length < maxNestingDepth then .next ⟨m, [], f :: stack⟩ else .error

/-- `stateEndValue`. -/
def endValue (st : State) (c : UInt8) : Outcome :=
  if isSpace c then .next { st with mode := .endValue }
  else match st.stack with
  | .objectColon members key :: stack =>
    if c = 0x3A then .next ⟨.beginValue, [], .objectValue members key :: stack⟩ else .error
  | .objectNext members :: stack =>
    if c = 0x2C then .next ⟨.beginString, [], .objectKey members :: stack⟩
    else if c = 0x7D then deliver (.object members) stack
    else .error
  | .array elems :: stack =>
    if c = 0x2C then .next ⟨.beginValue, [], .array elems :: stack⟩
    else if c = 0x5D then deliver (.array elems) stack
    else .error
  | _ => .error

/-- `stateBeginValue`. -/
def beginValue (st : State) (c : UInt8) : Outcome :=
  if isSpace c then .next st
  else if c = 0x7B then push (.objectKey []) .beginStringOrEmpty st.stack
  else if c = 0x5B then push (.array []) .beginValueOrEmpty st.stack
  else if c = 0x22 then .next ⟨.inString, [], st.stack⟩
  else if c = 0x2D then .next ⟨.neg, [c], st.stack⟩
  else if c = 0x30 then .next ⟨.int0, [c], st.stack⟩
  else if isDigit c then .next ⟨.int1, [c], st.stack⟩
  else if c = 0x74 then .next ⟨.word [0x72, 0x75, 0x65] (.bool true), [], st.stack⟩
  else if c = 0x66 then .next ⟨.word [0x61, 0x6C, 0x73, 0x65] (.bool false), [], st.stack⟩
  else if c = 0x6E then .next ⟨.word [0x75, 0x6C, 0x6C] .null, [], st.stack⟩
  else .error

/-- `stateBeginString`. -/
def beginString (st : State) (c : UInt8) : Outcome :=
  if isSpace c then .next st
  else if c = 0x22 then .next ⟨.inString, [], st.stack⟩
  else .error

namespace State

/-- The byte belongs to the literal. -/
def take (st : State) (m : Mode) (c : UInt8) : Outcome :=
  .next { st with mode := m, literal := st.literal ++ [c] }

/-- The number has ended before the byte. -/
def endNumber (st : State) (c : UInt8) : Outcome :=
  match deliver (.number st.literal) st.stack with
  | .next st => endValue st c
  | outcome => outcome

def int0 (st : State) (c : UInt8) : Outcome :=
  if c = 0x2E then st.take .dot c
  else if c = 0x65 ∨ c = 0x45 then st.take .exp c
  else st.endNumber c

def expSign (st : State) (c : UInt8) : Outcome :=
  if isDigit c then st.take .exp0 c else .error

/-- `scan.step`. -/
def step (st : State) (c : UInt8) : Outcome :=
  match st.mode with
  | .beginValue => beginValue st c
  | .beginValueOrEmpty => if c = 0x5D then endValue st c else beginValue st c
  | .beginString => beginString st c
  | .beginStringOrEmpty =>
    match st.stack with
    | .objectKey members :: stack =>
      if c = 0x7D then deliver (.object members) stack else beginString st c
    | _ => .error
  | .endValue => endValue st c
  | .inString =>
    if c = 0x22 then deliver (.string (unquote st.literal)) st.stack
    else if c = 0x5C then st.take .inStringEsc c
    else if c < 0x20 then .error
    else st.take .inString c
  | .inStringEsc =>
    if c = 0x75 then st.take (.inStringEscU 3) c
    else if c ∈ [0x62, 0x66, 0x6E, 0x72, 0x74, 0x5C, 0x2F, 0x22] then st.take .inString c
    else .error
  | .inStringEscU left =>
    if isHex c then st.take (if left = 0 then .inString else .inStringEscU (left - 1)) c else .error
  | .word [] v => deliver v st.stack
  | .word (x :: rest) v =>
    if c ≠ x then .error
    else if rest = [] then deliver v st.stack
    else .next { st with mode := .word rest v }
  | .neg =>
    if c = 0x30 then st.take .int0 c else if isDigit c then st.take .int1 c else .error
  | .int1 => if isDigit c then st.take .int1 c else st.int0 c
  | .int0 => st.int0 c
  | .dot => if isDigit c then st.take .dot0 c else .error
  | .dot0 =>
    if isDigit c then st.take .dot0 c
    else if c = 0x65 ∨ c = 0x45 then st.take .exp c
    else st.endNumber c
  | .exp => if c = 0x2B ∨ c = 0x2D then st.take .expSign c else st.expSign c
  | .expSign => st.expSign c
  | .exp0 => if isDigit c then st.take .exp0 c else st.endNumber c

end State

/-! ## Decoding -/

/-- Why a text does not decode: it is blank, it ends early, it is not JSON, or a value does not fit into
the variable that it is for. -/
inductive DecodeError
  | eof
  | unexpectedEOF
  | malformed
  | unmarshalType
deriving DecidableEq

/-- The loop of `Decoder.readValue`; `blank` says that only space has been read. -/
def readValue (blank : Bool) (st : State) : Text → Except DecodeError Value
  | [] =>
    -- A space shows whether the value was complete.
    match st.step 0x20 with
    | .done v => .ok v
    | _ => .error (if blank then .eof else .unexpectedEOF)
  | c :: s =>
    match st.step c with
    | .next st => readValue (blank && isSpace c) st s
    | .done v => .ok v
    | .error => .error .malformed

/-- The first value of a text. -/
def scan (s : Text) : Except DecodeError Value := readValue true ⟨.beginValue, [], []⟩ s

/-! ## Members and numbers -/

/-- `foldName`: names that differ in case only fold to the same.  The two runes outside ASCII that fold
to an ASCII letter are the long s and the sign of kelvin. -/
def foldName : Text → Text
  | [] => []
  | 0xC5 :: 0xBF :: s => 0x53 :: foldName s
  | 0xE2 :: 0x84 :: 0xAA :: s => 0x4B :: foldName s
  | c :: s => (if 0x61 ≤ c ∧ c ≤ 0x7A then c - 0x20 else c) :: foldName s

def parseDigits (n : Nat) : Text → Option Nat
  | [] => some n
  | c :: s => if isDigit c then parseDigits (10 * n + (c.toNat - 0x30)) s else none

/-- `strconv.ParseInt(item, 10, 64)`, of a number of JSON. -/
def parseInt (item : Text) : Option Int64 :=
  let (negative, digits) := match item with
    | 0x2D :: digits => (true, digits)
    | digits => (false, digits)
  if digits = [] then none
  else (parseDigits 0 digits).bind fun n =>
    let i : Int := if negative then -n else n
    if -2 ^ 63 ≤ i ∧ i < 2 ^ 63 then some (Int64.ofInt i) else none

namespace Value

/-- The last member of that name. -/
def member? (name : Text) : Value → Option Value
  | .object members =>
    (members.reverse.find? fun m => foldName m.1 = foldName name).map Prod.snd
  | _ => none

def int? : Value → Option Int64
  | .number item => parseInt item
  | _ => none

def string? : Value → Option Text
  | .string s => some s
  | _ => none

end Value

end Json
