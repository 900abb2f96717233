import Optiflow.Model.Messages
import Optiflow.Proof.ObjectKeys

/-!
# Messages arrive

What one program marshals, the next one reads back, up to bytes that are not UTF-8: `unmarshal_marshal` for
the tasks of the queue and `push_arrives` for the notifications of the workers, whose texts are UTF-8
whatever the name of the file is (`validUTF8_quote`).  The strings of a request are UTF-8 too, so no name
that a client gives is changed later (`validUTF8_decodePresign`).
-/

namespace Optiflow

open Json (Value ValidUTF8 toValidUTF8)

/-! ## ASCII -/

def Ascii (s : GoString) : Prop := ∀ c ∈ s, c < 0x80

theorem all_ascii_iff (s : GoString) : s.all (· < 0x80) = true ↔ Ascii s := by
  simp [Ascii]

instance (s : GoString) : Decidable (Ascii s) := decidable_of_iff _ (all_ascii_iff s)

theorem utf8_append_iff {a t : GoString} (ha : Ascii a) : ValidUTF8 (a ++ t) ↔ ValidUTF8 t := by
  rw [ValidUTF8, ValidUTF8, Json.toValidUTF8_ascii ha, List.append_cancel_left_eq]

theorem Ascii.validUTF8 {s : GoString} (h : Ascii s) : ValidUTF8 s := by
  have := (utf8_append_iff (t := []) h).2 rfl
  rwa [List.append_nil] at this

theorem ascii_string (id : UUID) : Ascii (UUID.string id) := by
  have hdigit : ∀ d < 16, hexDigit d < 0x80 := by decide
  intro c hc
  obtain rfl | ⟨d, hd, rfl⟩ := UUID.mem_string hc
  · decide
  · exact hdigit d hd

theorem ascii_hexDigits (k n : ℕ) : Ascii (hexDigits k n) := by
  have hdigit : ∀ d < 16, hexDigit d < 0x80 := by decide
  intro c hc
  obtain ⟨d, hd, rfl⟩ := mem_hexDigits hc
  exact hdigit d hd

/-- Keys are as the names in them. -/
theorem validUTF8_storageKey {userID fileID : UUID} {name : GoString} :
    ValidUTF8 (UploadSvc.storageKey userID fileID name) ↔ ValidUTF8 name := by
  have hslash : Ascii (lit "/") := by decide
  have husers : Ascii (lit "users/") := by decide
  unfold UploadSvc.storageKey
  rw [List.append_assoc, List.append_assoc, List.append_assoc, List.append_assoc,
    utf8_append_iff husers, utf8_append_iff (ascii_string _), utf8_append_iff hslash,
    utf8_append_iff (ascii_string _), utf8_append_iff hslash]

/-! ## Structs -/

section Struct

variable {φ α : Type} {tag : φ → GoString} {fields : List φ} {store : φ → α → Value → Option α} {zero : α}

/-- What every field keeps, an object of UTF-8 strings keeps. -/
theorem unmarshalStruct_keeps {P : α → Prop} (h₀ : P zero)
    (hstore : ∀ f a v a', v.UTF8 → P a → store f a v = some a' → P a') {v : Value} (hv : v.UTF8) {a : α}
    (h : unmarshalStruct tag fields store zero v = some a) : P a := by
  cases hv with
  | null =>
    obtain rfl := Option.some.inj h
    exact h₀
  | object hmembers =>
    simp only [unmarshalStruct] at h
    rename_i members
    induction members generalizing zero with
    | nil =>
      obtain rfl := Option.some.inj h
      exact h₀
    | cons m members ih =>
      rw [List.forall_mem_cons] at hmembers
      rw [List.foldlM_cons, Option.bind_eq_bind, Option.bind_eq_some_iff] at h
      obtain ⟨a', ha', h⟩ := h
      refine ih ?_ hmembers.2 h
      split at ha'
      · obtain rfl := Option.some.inj ha'
        exact h₀
      · exact hstore _ _ _ _ hmembers.1 h₀ ha'
  | _ => cases h

end Struct

/-- A string that is stored is UTF-8. -/
theorem validUTF8_intoString {old s : GoString} {v : Value} (hv : v.UTF8) (hold : ValidUTF8 old)
    (h : intoString old v = some s) : ValidUTF8 s := by
  cases hv with
  | null => exact Option.some.inj h ▸ hold
  | string hs => exact Option.some.inj h ▸ hs
  | _ => cases h

theorem validUTF8_intoStringPtr {v : Value} (hv : v.UTF8) {s : Option GoString}
    (h : intoStringPtr v = some s) : ∀ x ∈ s, ValidUTF8 x := by
  cases hv with
  | null =>
    obtain rfl := Option.some.inj h
    exact fun x hx => by cases hx
  | string hs =>
    obtain rfl := Option.some.inj h
    exact fun x hx => Option.some.inj hx ▸ hs
  | _ => cases h

/-- **The names in a request are UTF-8**, whatever the bytes of its body. -/
theorem validUTF8_decodePresign {body : GoString} {req : UploadSvc.PresignRequest}
    (h : UploadSvc.decodePresign body = some req) : ValidUTF8 req.name := by
  unfold UploadSvc.decodePresign at h
  split at h
  · next v hv =>
    refine unmarshalStruct_keeps (P := fun r => ValidUTF8 r.name) (show ValidUTF8 [] from rfl) ?_ (Json.utf8_scan hv) h
    intro f a v a' hv ha h
    cases f with
    | name =>
      obtain ⟨s, hs, rfl⟩ := Option.map_eq_some_iff.1 h
      exact validUTF8_intoString hv ha hs
    | _ =>
      obtain ⟨s, hs, rfl⟩ := Option.map_eq_some_iff.1 h
      exact ha
  · cases h

theorem validUTF8_decodeFileUpdate {body : GoString} {req : ApiSvc.FileUpdateRequest}
    (h : ApiSvc.decodeFileUpdate body = some req) : ∀ name ∈ req.name, ValidUTF8 name := by
  unfold ApiSvc.decodeFileUpdate at h
  split at h
  · next v hv =>
    refine unmarshalStruct_keeps (P := fun r => ∀ name ∈ r.name, ValidUTF8 name)
      (fun x hx => by cases hx) ?_ (Json.utf8_scan hv) h
    intro f a v a' hv ha h
    cases f with
    | name =>
      obtain ⟨s, hs, rfl⟩ := Option.map_eq_some_iff.1 h
      exact validUTF8_intoStringPtr hv hs
    | folderID =>
      obtain ⟨s, hs, rfl⟩ := Option.map_eq_some_iff.1 h
      exact ha
  · cases h

/-! ## Payloads -/

/-- **What a worker reads is what was enqueued**, up to bytes of the key that are not UTF-8. -/
theorem unmarshal_marshal (p : Payload) :
    Payload.unmarshal p.marshal = some { p with storageKey := toValidUTF8 p.storageKey } := by
  have hspells : Json.Spells 1 p.marshal (.object
      [(lit "file_id", .string (toValidUTF8 (UUID.string p.fileID))),
        (lit "storage_key", .string (toValidUTF8 p.storageKey))]) :=
    Json.spells_object (.cons ⟨rfl, Json.spells_quote _⟩ (.cons ⟨rfl, Json.spells_quote _⟩ .nil))
  have hid : toValidUTF8 (UUID.string p.fileID) = UUID.string p.fileID := (ascii_string _).validUTF8
  rw [Payload.unmarshal, Json.unmarshal_of_spells hspells (by decide) fun _ => Value.noConfusion]
  have h1 : structField PayloadField.tag PayloadField.all (lit "file_id") = some .fileID := by decide
  have h2 : structField PayloadField.tag PayloadField.all (lit "storage_key") = some .storageKey := by
    decide
  simp [unmarshalStruct, h1, h2, PayloadField.store, intoUUID, intoString, hid]

/-- **A payload arrives as it is** if and only if its key is UTF-8. -/
theorem payload_arrives_iff (p : Payload) :
    Payload.unmarshal p.marshal = some p ↔ ValidUTF8 p.storageKey := by
  rw [unmarshal_marshal, Option.some.injEq]
  constructor
  · exact fun h => congrArg Payload.storageKey h
  · intro h
    rw [show toValidUTF8 p.storageKey = p.storageKey from h]

/-! ## `%q` -/

section Quote

variable {isPrint : ℕ → Bool} {c : UInt8} {s : GoString} {n : ℕ}

open Fmt

theorem quoteFrom_copied (h : n ≤ s.length) :
    quoteFrom isPrint true n s = s.take n ++ quoteFrom isPrint true 0 (s.drop n) := by
  induction n generalizing s with
  | zero => rfl
  | succ n ih =>
    cases s with
    | nil => exact absurd h (Nat.not_succ_le_zero n)
    | cons c s => rw [quoteFrom, ih (Nat.le_of_succ_le_succ h)]; rfl

theorem quoteFrom_skipped : quoteFrom isPrint false n s = quoteFrom isPrint true 0 (s.drop n) := by
  induction n generalizing s with
  | zero => cases s <;> rfl
  | succ n ih =>
    cases s with
    | nil => rfl
    | cons c s => exact ih

theorem ascii_cons {a : GoString} (hc : c < 0x80) (ha : Ascii a) : Ascii (c :: a) :=
  List.forall_mem_cons.2 ⟨hc, ha⟩

theorem ascii_nil : Ascii [] := fun _ hc => absurd hc List.not_mem_nil

theorem ascii_hexByte : Ascii (hexByte c) :=
  ascii_cons (by decide) (ascii_cons (by decide) (ascii_hexDigits _ _))

theorem ascii_quoteByte (hc : c < 0x80) : Ascii (quoteByte c) := by
  unfold quoteByte
  split
  · exact ascii_cons (by decide) (ascii_cons hc ascii_nil)
  · split
    · exact ascii_cons hc ascii_nil
    · split
      · next e he =>
        have hletter : e < 0x80 := by
          unfold controlLetter at he
          split_ifs at he <;> cases he <;> decide
        exact ascii_cons (by decide) (ascii_cons hletter ascii_nil)
      · exact ascii_hexByte

theorem ascii_runeEscape (r : ℕ) : Ascii (runeEscape r) := by
  unfold runeEscape
  split
  · exact ascii_cons (by decide) (ascii_cons (by decide) (ascii_hexDigits _ _))
  · exact ascii_cons (by decide) (ascii_cons (by decide) (ascii_hexDigits _ _))

theorem validUTF8_quoteFrom {t : GoString} (ht : ValidUTF8 t) (s : GoString) :
    ValidUTF8 (quoteFrom isPrint true 0 s ++ t) := by
  induction s using Json.runeInduction with
  | nil => exact ht
  | bad c s h ih =>
    have hc : ¬c < 0x80 := fun hc => by simp [Json.runeTail_ascii hc] at h
    simp only [quoteFrom, hc, if_false, h, List.append_assoc]
    exact (utf8_append_iff ascii_hexByte).2 ih
  | rune c s n h ih =>
    by_cases hc : c < 0x80
    · obtain rfl : 0 = n := Option.some.inj (Json.runeTail_ascii hc ▸ h)
      simp only [quoteFrom, hc, if_true, List.append_assoc]
      exact (utf8_append_iff (ascii_quoteByte hc)).2 ih
    · simp only [quoteFrom, hc, if_false, h]
      split
      · rw [quoteFrom_copied (Json.le_length_of_runeTail h), List.cons_append, List.append_assoc, ValidUTF8,
          Json.toValidUTF8_take h, ih]
      · rw [quoteFrom_skipped, List.append_assoc]
        exact (utf8_append_iff (ascii_runeEscape _)).2 ih

/-- **What `%q` makes of a text is UTF-8**, whatever the text. -/
theorem validUTF8_quote {t : GoString} (ht : ValidUTF8 t) (s : GoString) :
    ValidUTF8 (Fmt.quote isPrint s ++ t) := by
  have hquote : Ascii [0x22] := ascii_cons (by decide) ascii_nil
  have h : ValidUTF8 (quoteFrom isPrint true 0 s ++ ([0x22] ++ t)) :=
    validUTF8_quoteFrom ((utf8_append_iff hquote).2 ht) s
  simpa [Fmt.quote] using (utf8_append_iff hquote).2 h

theorem validUTF8_sprintf {fmt : GoString} (hfmt : Ascii fmt) (s : GoString) :
    ValidUTF8 (sprintf isPrint s fmt) := by
  fun_induction sprintf isPrint s fmt with
  | case1 rest =>
    refine validUTF8_quote (Ascii.validUTF8 fun x hx => hfmt x ?_) s
    exact List.mem_cons_of_mem _ (List.mem_cons_of_mem _ hx)
  | case2 c rest _ ih =>
    have hc : Ascii [c] := ascii_cons (hfmt c List.mem_cons_self) ascii_nil
    exact (utf8_append_iff hc).2 (ih fun x hx => hfmt x (List.mem_cons_of_mem _ hx))
  | case3 => rfl

theorem sprintf_ne_nil {fmt : GoString} (hfmt : fmt ≠ []) (s : GoString) :
    sprintf isPrint s fmt ≠ [] := by
  unfold sprintf
  split
  · simp [Fmt.quote]
  · exact List.cons_ne_nil _ _
  · exact hfmt

end Quote

/-! ## Notifications -/

section Push

open NotifySvc

/-- What notify-svc reads is what was pushed, if it is UTF-8. -/
theorem decode_marshal {req : PushRequest} (htype : ValidUTF8 req.type) (htitle : ValidUTF8 req.title)
    (hmessage : ValidUTF8 req.message) (hurl : req.actionURL = none) :
    decodeInternalNotify req.marshal =
      some ⟨req.userID, req.type, req.title, req.message, req.actionURL⟩ := by
  obtain ⟨userID, type, title, message, actionURL⟩ := req
  obtain rfl : actionURL = none := hurl
  have hspells : Json.Spells 1 (PushRequest.marshal ⟨userID, type, title, message, none⟩) (.object
      [(lit "user_id", .string (toValidUTF8 (UUID.string userID))),
        (lit "type", .string (toValidUTF8 type)), (lit "title", .string (toValidUTF8 title)),
        (lit "message", .string (toValidUTF8 message))]) :=
    Json.spells_object (.cons ⟨rfl, Json.spells_quote _⟩ (.cons ⟨rfl, Json.spells_quote _⟩
      (.cons ⟨rfl, Json.spells_quote _⟩ (.cons ⟨rfl, Json.spells_quote _⟩ .nil))))
  have hid : toValidUTF8 (UUID.string userID) = UUID.string userID := (ascii_string _).validUTF8
  have h := Json.scan_of_spells hspells (by decide) []
  rw [List.append_nil] at h
  have field : ∀ f ∈ NotifyField.all, structField NotifyField.tag NotifyField.all f.tag = some f := by
    decide
  have h1 := field .userID (by decide)
  have h2 := field .type (by decide)
  have h3 := field .title (by decide)
  have h4 := field .message (by decide)
  simp only [NotifyField.tag] at h1 h2 h3 h4
  rw [decodeInternalNotify, h]
  simp [unmarshalStruct, h1, h2, h3, h4, NotifyField.store, intoUUID, intoString, hid,
    show toValidUTF8 type = type from htype, show toValidUTF8 title = title from htitle,
    show toValidUTF8 message = message from hmessage]

/-- **A notification of a worker gets through**: it is accepted, and becomes a row of its user. -/
theorem push_arrives {userID : UUID} {title messageFmt : GoString} (isPrint : ℕ → Bool)
    (name : GoString) (hid : userID ≠ 0) (htitle : Ascii title) (hne : title ≠ [])
    (hfmt : Ascii messageFmt) (hfne : messageFmt ≠ []) (id : UUID) (now : Time) :
    (decodeInternalNotify (Workers.pushRequest isPrint userID title messageFmt name).marshal).bind
        (fun req => req.notification id now) =
      some ⟨id, userID, .storage, title, Fmt.sprintf isPrint name messageFmt, none, false, now⟩ := by
  have htype : Ascii NotificationType.storage.value := by decide
  rw [decode_marshal htype.validUTF8 htitle.validUTF8 (validUTF8_sprintf hfmt name) rfl,
    Option.bind_some]
  have hpasses : ¬(userID = 0 ∨ title = [] ∨ Fmt.sprintf isPrint name messageFmt = []) := by
    rintro (h | h | h)
    · exact hid h
    · exact hne h
    · exact sprintf_ne_nil hfne name h
  exact if_neg hpasses

end Push

end Optiflow
