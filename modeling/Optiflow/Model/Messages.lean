import Optiflow.Lib.JsonText
import Optiflow.Model.ApiSvc
import Optiflow.Model.Hub

/-!
# Messages

What travels as JSON from one program to another: the payload of a task, from upload-svc through the
queue to the workers; the notification that a worker pushes to notify-svc; and, of the requests of the
clients, the two that name files.  A struct is decoded member by member; here a value that does not fit
its field means that the text does not decode, since none of these decoders looks at what is left then.
-/

namespace Optiflow

open Json (Value)

/-! ## Decoding a struct -/

section Struct

variable {φ α : Type}

/-- The field for a key: the exact tag, or else one that differs in case only. -/
def structField (tag : φ → GoString) (fields : List φ) (key : GoString) : Option φ :=
  match fields.find? fun f => tag f = key with
  | some f => some f
  | none => fields.find? fun f => Json.foldName (tag f) = Json.foldName key

/-- `unmarshal` into a struct; a key that no field has is skipped. -/
def unmarshalStruct (tag : φ → GoString) (fields : List φ) (store : φ → α → Value → Option α)
    (zero : α) : Value → Option α
  | .object members => members.foldlM (fun a m =>
      match structField tag fields m.1 with
      | none => some a
      | some f => store f a m.2) zero
  | .null => some zero
  | _ => none

/-- `literalStore` into a string: a null changes nothing. -/
def intoString (old : GoString) : Value → Option GoString
  | .null => some old
  | .string s => some s
  | _ => none

/-- `literalStore` into a `*string`. -/
def intoStringPtr : Value → Option (Option GoString)
  | .null => some none
  | .string s => some (some s)
  | _ => none

/-- `literalStore` into an int64. -/
def intoInt (old : Int64) : Value → Option Int64
  | .null => some old
  | .number item => Json.parseInt item
  | _ => none

/-- `UnmarshalText` of an id. -/
def intoUUID (old : UUID) : Value → Option UUID
  | .null => some old
  | .string s => UUID.parse s
  | _ => none

end Struct

/-! ## Tasks -/

/-- The fields of `ImageThumbnailPayload` and `VideoTranscodePayload`. -/
inductive PayloadField
  | fileID
  | storageKey
deriving DecidableEq

namespace PayloadField

def tag : PayloadField → GoString
  | fileID => lit "file_id"
  | storageKey => lit "storage_key"

def all : List PayloadField := [fileID, storageKey]

def store : PayloadField → Payload → Value → Option Payload
  | fileID, p, v => (intoUUID p.fileID v).map fun id => { p with fileID := id }
  | storageKey, p, v => (intoString p.storageKey v).map fun key => { p with storageKey := key }

end PayloadField

namespace Payload

/-- `json.Marshal(payload)`. -/
def marshal (p : Payload) : GoString :=
  Json.object
    [(PayloadField.fileID.tag, Json.quote (UUID.string p.fileID)),
      (PayloadField.storageKey.tag, Json.quote p.storageKey)]

/-- `json.Unmarshal(t.Payload(), &payload)`; a worker skips a task that does not decode. -/
def unmarshal (text : GoString) : Option Payload :=
  match Json.unmarshal text with
  | .ok v => unmarshalStruct PayloadField.tag PayloadField.all PayloadField.store ⟨0, []⟩ v
  | .error _ => none

end Payload

/-! ## Notifications -/

namespace NotifySvc

/-- The fields of `notify.PushRequest` and of `internalNotifyRequest`. -/
inductive NotifyField
  | userID
  | type
  | title
  | message
  | actionURL
deriving DecidableEq

namespace NotifyField

def tag : NotifyField → GoString
  | userID => lit "user_id"
  | type => lit "type"
  | title => lit "title"
  | message => lit "message"
  | actionURL => lit "action_url"

def all : List NotifyField := [userID, type, title, message, actionURL]

def store : NotifyField → InternalNotifyRequest → Value → Option InternalNotifyRequest
  | userID, r, v => (intoUUID r.userID v).map fun id => { r with userID := id }
  | type, r, v => (intoString r.type v).map fun s => { r with type := s }
  | title, r, v => (intoString r.title v).map fun s => { r with title := s }
  | message, r, v => (intoString r.message v).map fun s => { r with message := s }
  | actionURL, r, v => (intoStringPtr v).map fun s => { r with actionURL := s }

end NotifyField

/-- `notify.PushRequest`. -/
structure PushRequest where
  userID : UUID
  type : GoString
  title : GoString
  message : GoString
  actionURL : Option GoString
deriving DecidableEq

/-- `json.Marshal(req)` of `Push`; an absent `action_url` is left out. -/
def PushRequest.marshal (req : PushRequest) : GoString :=
  Json.object
    ([(NotifyField.userID.tag, Json.quote (UUID.string req.userID)),
      (NotifyField.type.tag, Json.quote req.type),
      (NotifyField.title.tag, Json.quote req.title),
      (NotifyField.message.tag, Json.quote req.message)] ++
      (req.actionURL.map fun url => (NotifyField.actionURL.tag, Json.quote url)).toList)

/-- `json.NewDecoder(r.Body).Decode(&req)` of `internalNotify`. -/
def decodeInternalNotify (body : GoString) : Option InternalNotifyRequest :=
  match Json.scan body with
  | .ok v => unmarshalStruct NotifyField.tag NotifyField.all NotifyField.store ⟨0, [], [], [], none⟩ v
  | .error _ => none

end NotifySvc

/-! ### `%q` -/

namespace Fmt

/-- The letter of an escape for a control character. -/
def controlLetter (c : UInt8) : Option UInt8 :=
  if c = 0x07 then some 0x61
  else if c = 0x08 then some 0x62
  else if c = 0x0C then some 0x66
  else if c = 0x0A then some 0x6E
  else if c = 0x0D then some 0x72
  else if c = 0x09 then some 0x74
  else if c = 0x0B then some 0x76
  else none

/-- Two hexadecimal digits after `\x`. -/
def hexByte (c : UInt8) : GoString := [0x5C, 0x78] ++ hexDigits 2 c.toNat

/-- `appendEscapedRune` of a rune of ASCII. -/
def quoteByte (c : UInt8) : GoString :=
  if c = 0x22 ∨ c = 0x5C then [0x5C, c]
  else if 0x20 ≤ c ∧ c ≠ 0x7F then [c]
  else match controlLetter c with
    | some e => [0x5C, e]
    | none => hexByte c

/-- The code point of a rune, of its first byte and the bytes that continue it. -/
def codePoint (c : UInt8) (tail : GoString) : ℕ :=
  let low := tail.foldl (fun n b => 64 * n + (b.toNat - 0x80)) 0
  match tail.length with
  | 1 => 64 * (c.toNat - 0xC0) + low
  | 2 => 4096 * (c.toNat - 0xE0) + low
  | _ => 262144 * (c.toNat - 0xF0) + low

/-- The escape of a rune that is not printed. -/
def runeEscape (r : ℕ) : GoString :=
  if r < 0x10000 then [0x5C, 0x75] ++ hexDigits 4 r else [0x5C, 0x55] ++ hexDigits 8 r

/-- The loop of `strconv.Quote`.  `isPrint` is `unicode.IsPrint` outside ASCII.  The next `n` bytes
belong to a rune that is copied (`copied`), or that was written as an escape. -/
def quoteFrom (isPrint : ℕ → Bool) : Bool → ℕ → GoString → GoString
  | _, _, [] => []
  | copied, n + 1, c :: s =>
    if copied then c :: quoteFrom isPrint copied n s else quoteFrom isPrint copied n s
  | _, 0, c :: s =>
    if c < 0x80 then quoteByte c ++ quoteFrom isPrint true 0 s
    else match Json.runeTail c s with
      | none => hexByte c ++ quoteFrom isPrint true 0 s
      | some n =>
        if isPrint (codePoint c (s.take n)) then c :: quoteFrom isPrint true n s
        else runeEscape (codePoint c (s.take n)) ++ quoteFrom isPrint false n s

/-- `strconv.Quote`. -/
def quote (isPrint : ℕ → Bool) (s : GoString) : GoString :=
  0x22 :: (quoteFrom isPrint true 0 s ++ [0x22])

/-- `fmt.Sprintf` of a format with one `%q`. -/
def sprintf (isPrint : ℕ → Bool) (s : GoString) : GoString → GoString
  | 0x25 :: 0x71 :: rest => quote isPrint s ++ rest
  | c :: rest => c :: sprintf isPrint s rest
  | [] => []

end Fmt

/-- What `notifyUser` pushes: every notification of a worker is of type `storage`. -/
def Workers.pushRequest (isPrint : ℕ → Bool) (userID : UUID) (title messageFmt name : GoString) :
    NotifySvc.PushRequest where
  userID := userID
  type := NotifySvc.NotificationType.storage.value
  title := title
  message := Fmt.sprintf isPrint name messageFmt
  actionURL := none

/-! ## Requests that name files -/

namespace UploadSvc

/-- The fields of `presignRequest`. -/
inductive PresignField
  | name
  | sizeBytes
  | mimeType
  | folderID
deriving DecidableEq

namespace PresignField

def tag : PresignField → GoString
  | name => lit "name"
  | sizeBytes => lit "size_bytes"
  | mimeType => lit "mime_type"
  | folderID => lit "folder_id"

def all : List PresignField := [name, sizeBytes, mimeType, folderID]

def store : PresignField → PresignRequest → Value → Option PresignRequest
  | name, r, v => (intoString r.name v).map fun s => { r with name := s }
  | sizeBytes, r, v => (intoInt r.sizeBytes v).map fun n => { r with sizeBytes := n }
  | mimeType, r, v => (intoString r.mimeType v).map fun s => { r with mimeType := s }
  | folderID, r, v => (intoStringPtr v).map fun s => { r with folderID := s }

end PresignField

/-- `json.NewDecoder(r.Body).Decode(&req)` of `presign`. -/
def decodePresign (body : GoString) : Option PresignRequest :=
  match Json.scan body with
  | .ok v => unmarshalStruct PresignField.tag PresignField.all PresignField.store ⟨[], 0, [], none⟩ v
  | .error _ => none

end UploadSvc

namespace ApiSvc

/-- The fields of `fileUpdateRequest`. -/
inductive FileUpdateField
  | name
  | folderID
deriving DecidableEq

namespace FileUpdateField

def tag : FileUpdateField → GoString
  | name => lit "name"
  | folderID => lit "folder_id"

def all : List FileUpdateField := [name, folderID]

def store : FileUpdateField → FileUpdateRequest → Value → Option FileUpdateRequest
  | name, r, v => (intoStringPtr v).map fun s => { r with name := s }
  | folderID, r, v => (intoStringPtr v).map fun s => { r with folderID := s }

end FileUpdateField

/-- `json.NewDecoder(r.Body).Decode(&req)` of `updateFile`. -/
def decodeFileUpdate (body : GoString) : Option FileUpdateRequest :=
  match Json.scan body with
  | .ok v => unmarshalStruct FileUpdateField.tag FileUpdateField.all FileUpdateField.store ⟨none, none⟩ v
  | .error _ => none

end ApiSvc

end Optiflow
