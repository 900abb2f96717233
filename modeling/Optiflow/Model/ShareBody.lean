import Optiflow.Lib.Json
import Optiflow.Model.ApiSvc

/-!
# The body of a share request

What `Decode` leaves in a `shareCreateRequest`.  A text without a value leaves the struct as it was; a
value of another type leaves its field pointing to what it pointed to, or to a zero, and the decoding
goes on; a null resets the pointer.
-/

namespace Optiflow

namespace ApiSvc

open Json (Value DecodeError)

/-- The fields of `shareCreateRequest`. -/
inductive ShareField
  | expiresInHours
  | password
  | maxDownloads
deriving DecidableEq

def ShareField.tag : ShareField → GoString
  | expiresInHours => lit "expires_in_hours"
  | password => lit "password"
  | maxDownloads => lit "max_downloads"

def shareFields : List ShareField := [.expiresInHours, .password, .maxDownloads]

/-- The field for a key: the exact name, or else one that differs in case only. -/
def shareField? (key : GoString) : Option ShareField :=
  match shareFields.find? fun f => f.tag = key with
  | some f => some f
  | none => shareFields.find? fun f => Json.foldName f.tag = Json.foldName key

/-- `literalStore` into an `*int`, and whether the value fits. -/
def storeInt (old : Option Int64) : Value → Option Int64 × Bool
  | .null => (none, true)
  | .number item =>
    match Json.parseInt item with
    | some n => (some n, true)
    | none => (some (old.getD 0), false)
  | _ => (some (old.getD 0), false)

/-- `literalStore` into a `*string`. -/
def storeString (old : Option GoString) : Value → Option GoString × Bool
  | .null => (none, true)
  | .string s => (some s, true)
  | _ => (some (old.getD []), false)

/-- The struct and whether every value so far fits. -/
abbrev ShareDecoding := ShareCreateRequest × Bool

/-- One member of the object; a key that no field has is skipped. -/
def storeMember (d : ShareDecoding) (m : GoString × Value) : ShareDecoding :=
  match shareField? m.1 with
  | none => d
  | some .expiresInHours =>
    let r := storeInt d.1.expiresInHours m.2
    ({ d.1 with expiresInHours := r.1 }, d.2 && r.2)
  | some .password =>
    let r := storeString d.1.password m.2
    ({ d.1 with password := r.1 }, d.2 && r.2)
  | some .maxDownloads =>
    let r := storeInt d.1.maxDownloads m.2
    ({ d.1 with maxDownloads := r.1 }, d.2 && r.2)

/-- `unmarshal`. -/
def unmarshalShare : Value → ShareDecoding
  | .object members => members.foldl storeMember (⟨none, none, none⟩, true)
  | .null => (⟨none, none, none⟩, true)
  | _ => (⟨none, none, none⟩, false)

/-- `json.NewDecoder(r.Body).Decode(&req)`: what it leaves in `req`, and its error. -/
def decodeShare (body : GoString) : ShareCreateRequest × Option DecodeError :=
  match Json.scan body with
  | .error e => (⟨none, none, none⟩, some e)
  | .ok v => ((unmarshalShare v).1, if (unmarshalShare v).2 then none else some .unmarshalType)

/-- The call as it comes in; the error of `Decode` is ignored. -/
def createShareFromBody (userID : UUID) (id body : GoString) : Handler Reply :=
  createShare userID id (decodeShare body).1

end ApiSvc

end Optiflow
