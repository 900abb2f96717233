import Optiflow.Model.ShareBody
import Optiflow.Proof.CreateShare
import Optiflow.Proof.Shares

/-!
# The body of a share request

`createShare` ignores the error of `Decode` and goes on with what is left in the struct.  When the body
decodes, that is what the last member of each name says (`decodeShare_exact`), and the share is as
restricted as asked.  A body that does not decode leaves restrictions out; only when what is left is
refused is no share made (`share_restricted_iff`).
-/

namespace Optiflow

open Interleave ApiSvc

/-! ## What a body asks for -/

/-- What a JSON value asks for: of each name, its last member. -/
def ApiSvc.ShareCreateRequest.ofValue (v : Json.Value) : ShareCreateRequest where
  expiresInHours := (v.member? (lit "expires_in_hours")).bind Json.Value.int?
  password := (v.member? (lit "password")).bind Json.Value.string?
  maxDownloads := (v.member? (lit "max_downloads")).bind Json.Value.int?

/-- What a body asks for; one without a value asks for nothing. -/
def shareAsked (body : GoString) : ShareCreateRequest :=
  match Json.scan body with
  | .ok v => .ofValue v
  | .error _ => ⟨none, none, none⟩

/-- The password that a step hands to `HashPassword`, and the hash that comes back. -/
def hashReturned : ServiceStep → Option (GoString × GoString)
  | .call _ _ _ (.tool (.hashPassword password)) (some hash) => some (password, hash)
  | _ => none

/-- The hash is the one that `HashPassword` has returned for just this password, and it verifies it. -/
structure HashedFor (deps : Deps) (tr : List ServiceStep) (password hash : GoString) : Prop where
  returned : ∃ st ∈ tr, hashReturned st = some (password, hash)
  verifies : deps.verifyPassword hash password = true

/-- The share that a run has made is as restricted as the request asks. -/
structure RestrictedAs (deps : Deps) (tr : List ServiceStep) (req : ShareCreateRequest) (share : Share) :
    Prop where
  expiry : share.expiresAt.isSome ↔ req.expiresInHours.isSome
  limit : share.maxDownloads = req.maxDownloads.map Int64.toInt
  password : PasswordStored (HashedFor deps tr) req.password share.passwordHash

/-- A request of the owner of a file that is answered 201 has an empty body or one that decodes, and
makes one share, which is as restricted as the body asks; any other answer makes no share. -/
def SharesAsAsked (deps : Deps) (body : GoString) : Prop :=
  ∀ (s : Store) (f : File) (id : GoString) tr r t, f ∈ s.db.files → UUID.parse id = some f.id →
    (services deps).Finishes (.createShare f.userID id (decodeShare body).1)
      (createShareFromBody f.userID id body .ret) s tr r t →
    (∀ st ∈ tr, hashVerifies deps st) →
    (∀ resp, r = .share resp → (body = [] ∨ (decodeShare body).2 = none) ∧
      RestrictedAs deps tr (shareAsked body) resp.share ∧
      ∃ hnew : ¬s.db.shares.Used (key resp.share), t.db.shares = s.db.shares.insert resp.share hnew) ∧
    ((∀ resp, r ≠ .share resp) → t.db.shares = s.db.shares)

/-- What is left in the struct is refused: an expiry or a limit that is not positive, or a password
that is too long for bcrypt. -/
def ShareRefused (req : ShareCreateRequest) : Prop :=
  ¬req.Passes ∨ ∃ password ∈ req.password, bcryptMaxBytes < password.length

/-! ## Decoding -/

section Decode

variable {members : List (GoString × Json.Value)} {m : GoString × Json.Value} {name : GoString}

theorem mem_shareFields (f : ShareField) : f ∈ shareFields := by cases f <;> decide

/-- The names differ in more than case. -/
theorem foldName_tag_injective {f g : ShareField} (h : Json.foldName f.tag = Json.foldName g.tag) :
    f = g := by
  cases f <;> cases g <;> first | rfl | exact absurd h (by decide)

theorem shareField?_iff {key : GoString} {f : ShareField} :
    shareField? key = some f ↔ Json.foldName key = Json.foldName f.tag := by
  unfold shareField?
  cases hexact : shareFields.find? fun f => f.tag = key with
  | some g =>
    obtain rfl : g.tag = key := by simpa using List.find?_some hexact
    exact ⟨fun h => Option.some.inj h ▸ rfl, fun h => congrArg some (foldName_tag_injective h)⟩
  | none =>
    cases hfold : shareFields.find? fun f => Json.foldName f.tag = Json.foldName key with
    | some g =>
      have hg : Json.foldName g.tag = Json.foldName key := by simpa using List.find?_some hfold
      rw [← hg]
      exact ⟨fun h => Option.some.inj h ▸ rfl, fun h => congrArg some (foldName_tag_injective h)⟩
    | none =>
      rw [List.find?_eq_none] at hfold
      have hf := hfold f (mem_shareFields f)
      simp only [decide_eq_true_eq] at hf
      exact iff_of_false (by simp) fun h => hf h.symm

theorem member?_append : (Json.Value.object (members ++ [m])).member? name =
    if Json.foldName m.1 = Json.foldName name then some m.2
    else (Json.Value.object members).member? name := by
  simp only [Json.Value.member?, List.reverse_append, List.reverse_singleton, List.singleton_append,
    List.find?_cons]
  split <;> simp_all

theorem storeInt_exact {old : Option Int64} {v : Json.Value} (h : (storeInt old v).2 = true) :
    (storeInt old v).1 = v.int? := by
  cases v with
  | number item =>
    simp only [storeInt, Json.Value.int?] at h ⊢
    cases hn : Json.parseInt item with
    | some n => rfl
    | none =>
      rw [hn] at h
      cases h
  | null => rfl
  | _ => cases h

theorem storeString_exact {old : Option GoString} {v : Json.Value}
    (h : (storeString old v).2 = true) : (storeString old v).1 = v.string? := by
  cases v with
  | string s => rfl
  | null => rfl
  | _ => cases h

/-- An object whose values all fit leaves what its last members say. -/
theorem foldl_storeMember (h : (members.foldl storeMember (⟨none, none, none⟩, true)).2 = true) :
    (members.foldl storeMember (⟨none, none, none⟩, true)).1 = .ofValue (.object members) := by
  induction members using List.reverseRecOn with
  | nil => rfl
  | append_singleton members m ih =>
    rw [List.foldl_append, List.foldl_cons, List.foldl_nil] at h ⊢
    generalize members.foldl storeMember (⟨none, none, none⟩, true) = d at h ih ⊢
    have htag : ∀ f : ShareField, (Json.Value.object (members ++ [m])).member? f.tag =
        if shareField? m.1 = some f then some m.2 else (Json.Value.object members).member? f.tag := by
      intro f
      rw [member?_append]
      simp only [shareField?_iff]
    have hof : ShareCreateRequest.ofValue (.object (members ++ [m])) =
        ⟨(if shareField? m.1 = some .expiresInHours then some m.2
            else (Json.Value.object members).member? ShareField.expiresInHours.tag).bind
            Json.Value.int?,
          (if shareField? m.1 = some .password then some m.2
            else (Json.Value.object members).member? ShareField.password.tag).bind
            Json.Value.string?,
          (if shareField? m.1 = some .maxDownloads then some m.2
            else (Json.Value.object members).member? ShareField.maxDownloads.tag).bind
            Json.Value.int?⟩ := by
      rw [← htag, ← htag, ← htag]
      rfl
    rw [hof]
    unfold storeMember at h ⊢
    cases hf : shareField? m.1 with
    | none =>
      rw [hf] at h
      rw [ih h]
      simp [ShareCreateRequest.ofValue, ShareField.tag]
    | some f =>
      rw [hf] at h
      cases f with
      | expiresInHours =>
        obtain ⟨hd, hfits⟩ := Bool.and_eq_true_iff.1 h
        show (⟨(storeInt d.1.expiresInHours m.2).1, d.1.password, d.1.maxDownloads⟩ :
          ShareCreateRequest) = _
        rw [storeInt_exact hfits, ih hd]
        simp [ShareCreateRequest.ofValue, ShareField.tag]
      | password =>
        obtain ⟨hd, hfits⟩ := Bool.and_eq_true_iff.1 h
        show (⟨d.1.expiresInHours, (storeString d.1.password m.2).1, d.1.maxDownloads⟩ :
          ShareCreateRequest) = _
        rw [storeString_exact hfits, ih hd]
        simp [ShareCreateRequest.ofValue, ShareField.tag]
      | maxDownloads =>
        obtain ⟨hd, hfits⟩ := Bool.and_eq_true_iff.1 h
        show (⟨d.1.expiresInHours, d.1.password, (storeInt d.1.maxDownloads m.2).1⟩ :
          ShareCreateRequest) = _
        rw [storeInt_exact hfits, ih hd]
        simp [ShareCreateRequest.ofValue, ShareField.tag]

/-- What is left of a body that decodes is what it asks for. -/
theorem decodeShare_exact {body : GoString} (h : (decodeShare body).2 = none) :
    (decodeShare body).1 = shareAsked body := by
  unfold decodeShare shareAsked at *
  cases hv : Json.scan body with
  | error e => rfl
  | ok v =>
    rw [hv] at h
    have hfits : (unmarshalShare v).2 = true := by
      by_contra hfits
      simp [hfits] at h
    cases v with
    | object members => exact foldl_storeMember hfits
    | null => rfl
    | _ => cases hfits

/-- Nothing is left of a body without a value. -/
theorem decodeShare_malformed {body : GoString} {e : Json.DecodeError} (h : Json.scan body = .error e) :
    (decodeShare body).1 = ⟨none, none, none⟩ := by
  rw [decodeShare, h]

end Decode

/-! ## The condition -/

section

variable {deps : Deps} {body : GoString}

/-- What a run stores for a password. -/
def StoredFor (deps : Deps) (tr : List ServiceStep) (password hash : GoString) : Prop :=
  (∃ st ∈ tr, hashReturned st = some (password, hash)) ∧ deps.Hashes password hash

theorem ShareMade.restrictedAs {tr : List ServiceStep} {now : Time} {req : ShareCreateRequest} {share : Share}
    (h : ShareMade (StoredFor deps tr) now req share) : RestrictedAs deps tr req share :=
  ⟨by rw [h.expiry, Option.isSome_map], h.limit, h.password.mono fun _ _ hs => ⟨hs.1, hs.2.verifies⟩⟩

/-- What is refused makes no share. -/
theorem ShareRefused.not_made {tr : List ServiceStep} {now : Time} {req : ShareCreateRequest}
    {share : Share} (h : ShareRefused req) (hpass : req.Passes) :
    ¬ShareMade (StoredFor deps tr) now req share := by
  intro hmade
  obtain hreq | ⟨password, hpassword, hlong⟩ := h
  · exact hreq hpass
  · have hstored := hmade.password
    rw [Option.mem_def.1 hpassword] at hstored
    cases password with
    | nil => exact absurd hlong (Nat.not_lt_zero _)
    | cons c password =>
      obtain ⟨hash, -, -, hhash⟩ := hstored
      exact absurd hlong (Nat.not_lt.2 hhash.fits)

/-- A run makes a share of what is left in the struct, or nothing. -/
theorem createShareFromBody_cases {s t : Store} {userID : UUID} {id : GoString} {tr : List ServiceStep}
    {r : Reply} (hf : (services deps).Finishes (.createShare userID id (decodeShare body).1)
      (createShareFromBody userID id body .ret) s tr r t) (hhash : ∀ st ∈ tr, hashVerifies deps st) :
    ((∃ status message, r = .error status message) ∧ t.db = s.db) ∨
      ∃ share fileName, ∃ hnew : ¬s.db.shares.Used (key share), (decodeShare body).1.Passes ∧
        ShareMade (StoredFor deps tr) s.now (decodeShare body).1 share ∧
        r = .share (toShareResponse share fileName) ∧
        t.db.shares = s.db.shares.insert share hnew := by
  -- A hash that the run stores comes from one of its own steps.
  have hends : Alone deps (fun st => hashVerifies deps st ∧ st ∈ tr)
      (.createShare userID id (decodeShare body).1) (createShareFromBody userID id body .ret) s fun r t =>
        ((∃ status message, r = .error status message) ∧ t.db = s.db) ∨
          ∃ share fileName, ∃ hnew : ¬s.db.shares.Used (key share), (decodeShare body).1.Passes ∧
            ShareMade (StoredFor deps tr) s.now (decodeShare body).1 share ∧
            r = .share (toShareResponse share fileName) ∧
            t.db.shares = s.db.shares.insert share hnew :=
    alone_createShare (fun status message => Or.inl ⟨⟨status, message, rfl⟩, rfl⟩)
      (fun _ _ _ h => ⟨⟨_, h.2, rfl⟩, h.1⟩) fun share fileName hnew hpass hmade =>
        Or.inr ⟨share, fileName, hnew, hpass, hmade, rfl, rfl⟩
  exact hf.of_ends hends fun st hst => ⟨hhash st hst, hst⟩

/-- What passes the tests is answered 201, whatever the body was. -/
theorem exists_share (hpass : (decodeShare body).1.Passes)
    (hhash : ∀ x ∈ (decodeShare body).1.password, x ≠ [] → ∃ hash, deps.Hashes x hash) :
    ∃ tr resp t, (services deps).Finishes
        (.createShare readyFile.userID (text readyFile.id) (decodeShare body).1)
        (createShareFromBody readyFile.userID (text readyFile.id) body .ret) sharedStore tr
        (.share resp) t ∧ ∀ st ∈ tr, hashVerifies deps st := by
  obtain ⟨tr, r, t, hf, htr, resp, rfl⟩ := @mayEnd_createShare deps
    (.createShare readyFile.userID (text readyFile.id) (decodeShare body).1) sharedStore _
    (text readyFile.id) readyFile (List.mem_singleton.2 rfl) (UUID.parse_string _)
    hpass hhash 1 (lit "other") (by decide) (by decide)
  exact ⟨tr, resp, t, hf, htr⟩

/-- **A share is as restricted as asked, if and only if the body is empty or decodes, or what it leaves
in the struct is refused.** -/
theorem share_restricted_iff (deps : Deps) (hbcrypt : ∀ password : GoString,
      password.length ≤ bcryptMaxBytes → ∃ hash, deps.verifyPassword hash password = true) (body : GoString) :
    SharesAsAsked deps body ↔
      body = [] ∨ (decodeShare body).2 = none ∨ ShareRefused (decodeShare body).1 := by
  constructor
  · intro h
    by_cases hrefused : ShareRefused (decodeShare body).1
    · exact Or.inr (Or.inr hrefused)
    · obtain ⟨hpass, hshort⟩ := not_or.1 hrefused
      obtain ⟨tr, resp, t, hf, htr⟩ := @exists_share deps body (Classical.not_not.1 hpass) fun x hx _ => by
        have hfits : x.length ≤ bcryptMaxBytes := Nat.not_lt.1 fun hlong => hshort ⟨x, hx, hlong⟩
        obtain ⟨hash, hverifies⟩ := hbcrypt x hfits
        exact ⟨hash, hfits, hverifies⟩
      obtain ⟨hbody, -⟩ := (h sharedStore readyFile _ tr _ t (List.mem_singleton.2 rfl)
        (UUID.parse_string _) hf htr).1 resp rfl
      exact hbody.imp_right Or.inl
  · intro h s f id tr r t hfile hid hf htr
    obtain ⟨⟨status, message, rfl⟩, hdb⟩ | ⟨share, fileName, hnew, hpass, hmade, rfl, hshares⟩ :=
      createShareFromBody_cases hf htr
    · exact ⟨fun resp hresp => by (cases hresp), fun _ => by rw [hdb]⟩
    · refine ⟨fun resp hresp => ?_, fun hne => absurd rfl (hne _)⟩
      cases hresp
      obtain rfl | hok | hrefused := h
      · exact ⟨Or.inl rfl, hmade.restrictedAs, hnew, hshares⟩
      · rw [decodeShare_exact hok] at hmade
        exact ⟨Or.inr hok, hmade.restrictedAs, hnew, hshares⟩
      · exact absurd hmade (hrefused.not_made hpass)

/-- A body with a password and a limit. -/
def restrictingBody : GoString := lit "\x7b\"password\":\"secret\",\"max_downloads\":3\x7d"

theorem decodeShare_restrictingBody :
    (decodeShare restrictingBody).1.password = some (lit "secret") ∧
      (decodeShare restrictingBody).2 = none := by
  decide +kernel

/-- A body that decodes, where passwords are compared as they are. -/
theorem share_restricted_iff_decoded :
    (shareAsked restrictingBody).password = some (lit "secret") ∧
      SharesAsAsked plainDeps restrictingBody := by
  obtain ⟨hpassword, hok⟩ := decodeShare_restrictingBody
  refine ⟨decodeShare_exact hok ▸ hpassword, ?_⟩
  exact (share_restricted_iff plainDeps (fun password _ => ⟨password, decide_eq_true rfl⟩)
    restrictingBody).2 (Or.inr (Or.inl hok))

/-- A share that anybody with the link may download, any number of times and at any time. -/
def Share.unrestricted (share : Share) : Prop :=
  share.expiresAt = none ∧ share.maxDownloads = none ∧ share.passwordHash = none

/-- The body is answered 201 with an unrestricted share. -/
def MakesUnrestricted (deps : Deps) (body : GoString) : Prop :=
  ∃ tr resp t, (services deps).Finishes
    (.createShare readyFile.userID (text readyFile.id) (decodeShare body).1)
    (createShareFromBody readyFile.userID (text readyFile.id) body .ret) sharedStore tr
    (.share resp) t ∧ resp.share.unrestricted

/-- When decoding fails and leaves no restriction, the answer is 201 with a link that has none. -/
theorem not_sharesAsAsked {e : Json.DecodeError} (hbody : body ≠ [])
    (herror : (decodeShare body).2 = some e) (hexpiry : (decodeShare body).1.expiresInHours = none)
    (hpassword : ∀ x ∈ (decodeShare body).1.password, x = [])
    (hlimit : (decodeShare body).1.maxDownloads = none) :
    MakesUnrestricted deps body ∧ ¬SharesAsAsked deps body := by
  obtain ⟨tr, resp, t, hf, htr⟩ := @exists_share deps body ⟨by simp [hexpiry], by simp [hlimit]⟩
    fun x hx hne => absurd (hpassword x hx) hne
  constructor
  · refine ⟨tr, resp, t, hf, ?_⟩
    obtain ⟨⟨_, _, hr⟩, -⟩ | ⟨share, fileName, -, -, hmade, hr, -⟩ := createShareFromBody_cases hf htr
    · cases hr
    · cases hr
      have hexpires : share.expiresAt = none := by simpa [hexpiry] using hmade.expiry
      have hmax : share.maxDownloads = none := by simpa [hlimit] using hmade.limit
      refine ⟨hexpires, hmax, ?_⟩
      have hstored := hmade.password
      cases hleft : (decodeShare body).1.password with
      | none =>
        rw [hleft] at hstored
        exact hstored
      | some x =>
        rw [hleft, hpassword x hleft] at hstored
        exact hstored
  · intro h
    obtain ⟨hempty | hok, -⟩ := (h sharedStore readyFile _ tr _ t (List.mem_singleton.2 rfl)
      (UUID.parse_string _) hf htr).1 resp rfl
    · exact hbody hempty
    · cases herror.symm.trans hok

/-- Every body without a JSON value, such as one that is cut short. -/
theorem makesUnrestricted_of_malformed {e : Json.DecodeError} (hbody : body ≠ [])
    (h : Json.scan body = .error e) : MakesUnrestricted deps body ∧ ¬SharesAsAsked deps body := by
  have hleft := decodeShare_malformed h
  have herror : (decodeShare body).2 = some e := by rw [decodeShare, h]
  exact not_sharesAsAsked hbody herror (by rw [hleft]) (by simp [hleft]) (by rw [hleft])

/-- A body with a number for the password. -/
def numericPassword : GoString := lit "\x7b\"password\":1234\x7d"

theorem decodeShare_numericPassword :
    (decodeShare numericPassword).1.expiresInHours = none ∧
      (decodeShare numericPassword).1.password = some [] ∧
      (decodeShare numericPassword).1.maxDownloads = none ∧
      (decodeShare numericPassword).2 = some .unmarshalType := by
  decide +kernel

/-- It is answered 201 with a link that needs no password. -/
theorem share_unrestricted :
    MakesUnrestricted plainDeps numericPassword ∧ ¬SharesAsAsked plainDeps numericPassword := by
  obtain ⟨hexpiry, hpassword, hlimit, herror⟩ := decodeShare_numericPassword
  refine not_sharesAsAsked (List.cons_ne_nil _ _) herror hexpiry (fun x hx => ?_) hlimit
  exact (Option.some.inj (hpassword.symm.trans hx)).symm

end

end Optiflow
