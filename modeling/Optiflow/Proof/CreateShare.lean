import Optiflow.Proof.Rules

/-!
# The row of a new share

What `createShare` stores for what its request asks: `alone_createShare` reads every run of it,
`mayEnd_createShare` says that the owner of a file gets a share for every request that passes the tests.
-/

namespace Optiflow

open Interleave ApiSvc

/-- `hash` is stored for the password of a request, when `H` holds of what bcrypt makes of it. -/
def PasswordStored (H : GoString → GoString → Prop) : Option GoString → Option GoString → Prop
  | none, hash | some [], hash => hash = none
  | some password, hash => ∃ x, hash = some x ∧ H password x

theorem PasswordStored.mono {H H' : GoString → GoString → Prop} (hH : ∀ password hash, H password hash →
    H' password hash) {password hash : Option GoString} (h : PasswordStored H password hash) :
    PasswordStored H' password hash := by
  match password with
  | none => exact h
  | some [] => exact h
  | some (c :: password) =>
    obtain ⟨x, hx, hpx⟩ := h
    exact ⟨x, hx, hH _ x hpx⟩

/-- The row that a request makes at a time. -/
structure ShareMade (H : GoString → GoString → Prop) (now : Time) (req : ShareCreateRequest)
    (share : Share) : Prop where
  expiry : share.expiresAt =
    req.expiresInHours.map fun hours => now + (hours * 3600000000000).toInt
  limit : share.maxDownloads = req.maxDownloads.map Int64.toInt
  password : PasswordStored H req.password share.passwordHash

/-- The longest password that `bcrypt.GenerateFromPassword` takes. -/
def bcryptMaxBytes : ℕ := 72

/-- What bcrypt documents of a hash that it makes of a password: the password was not too long, and the
hash verifies it. -/
structure Deps.Hashes (deps : Deps) (password hash : GoString) : Prop where
  fits : password.length ≤ bcryptMaxBytes
  verifies : deps.verifyPassword hash password = true

/-- A hash that `HashPassword` returns is one of the password that it was given. -/
def hashVerifies (deps : Deps) : ServiceStep → Prop
  | .call _ _ _ (.tool (.hashPassword password)) (some hash) => deps.Hashes password hash
  | _ => True

/-- The tests that a request has to pass. -/
structure ApiSvc.ShareCreateRequest.Passes (req : ShareCreateRequest) : Prop where
  expiry : ∀ hours ∈ req.expiresInHours, 0 < hours
  limit : ∀ maxDownloads ∈ req.maxDownloads, 0 < maxDownloads

section

variable {deps : Deps} {C : ServiceStep → Prop} {q : Request} {s : Store} {Ψ : Reply → Store → Prop}
  {H : GoString → GoString → Prop} {req : ShareCreateRequest} {id : GoString}

theorem alone_tool {α : Type} {e : ToolStmt α} {k : α → Prog Stmt Reply}
    (h : ∀ o, C (.call s q o (.tool e) (e.run o)) → Alone deps C q (k (e.run o)) s Ψ) :
    Alone deps C q (tool e k) s Ψ := by
  intro o a s' hC hx
  obtain ⟨rfl, rfl⟩ := Prod.mk.inj (Option.some.inj hx)
  exact h o hC

/-! ## Every run -/

section Runs

variable (herror : ∀ status message, Ψ (.error status message) s)
include herror

theorem alone_shareExpiry {hours : Option Int64} {k : Option Time → Prog Stmt Reply}
    (h : (∀ x ∈ hours, 0 < x) →
      Alone deps C q (k (hours.map fun x => s.now + (x * 3600000000000).toInt)) s Ψ) :
    Alone deps C q (shareExpiry hours k) s Ψ := by
  cases hours with
  | none => exact h fun _ hx => by cases hx
  | some hours =>
    simp only [shareExpiry, Code.bind_apply]
    refine Early.failIf (P := fun p => Alone deps C q p s Ψ) herror fun hpos => alone_timeNow ?_
    exact h fun x hx => Option.some.inj hx ▸ Int64.not_le.1 hpos

theorem alone_shareLimit {maxDownloads : Option Int64} {k : Option ℤ → Prog Stmt Reply}
    (h : (∀ x ∈ maxDownloads, 0 < x) → Alone deps C q (k (maxDownloads.map Int64.toInt)) s Ψ) :
    Alone deps C q (shareLimit maxDownloads k) s Ψ := by
  cases maxDownloads with
  | none => exact h fun _ hx => by cases hx
  | some maxDownloads =>
    simp only [shareLimit, Code.bind_apply]
    refine Early.failIf (P := fun p => Alone deps C q p s Ψ) herror fun hpos => ?_
    exact h fun x hx => Option.some.inj hx ▸ Int64.not_le.1 hpos

theorem alone_sharePasswordHash
    (hC : ∀ o password x, C (.call s q o (.tool (.hashPassword password)) (some x)) → H password x)
    {password : Option GoString} {k : Option GoString → Prog Stmt Reply}
    (h : ∀ hash, PasswordStored H password hash → Alone deps C q (k hash) s Ψ) :
    Alone deps C q (sharePasswordHash password k) s Ψ := by
  match password with
  | none => exact h none rfl
  | some [] => exact h none rfl
  | some (c :: password) =>
    simp only [sharePasswordHash, Code.bind_apply]
    refine alone_tool fun o ho => ?_
    cases hx : (ToolStmt.hashPassword (c :: password)).run o with
    | none => exact herror _ _
    | some x =>
      rw [hx] at ho
      exact h (some x) ⟨x, rfl, hC o _ x ho⟩

/-- **Every run of `createShare`.**  It makes one row, of what the request asks, or none. -/
theorem alone_createShare {userID : UUID}
    (hC : ∀ o password x, C (.call s q o (.tool (.hashPassword password)) (some x)) → H password x)
    (hmade : ∀ share fileName, ∀ hf : ¬s.db.shares.Used (key share), req.Passes →
      ShareMade H s.now req share → Ψ (.share (toShareResponse share fileName))
        { s with db := { s.db with shares := s.db.shares.insert share hf } }) :
    Alone deps C q (createShare userID id req .ret) s Ψ := by
  have he : ∀ status message, Alone deps C q (.ret (.error status message)) s Ψ := herror
  simp only [createShare, resolveOwnedFile, Code.bind_apply, Code.pure_apply]
  refine Early.parseID (P := fun p => Alone deps C q p s Ψ) he fun fileID _ => ?_
  refine alone_query fun _ _ => Early.foundOr (P := fun p => Alone deps C q p s Ψ) he fun file _ => ?_
  refine alone_tool fun _ _ => Early.failIf (P := fun p => Alone deps C q p s Ψ) he fun _ => ?_
  refine alone_shareExpiry herror fun hexpiry => alone_shareLimit herror fun hlimit => ?_
  refine alone_sharePasswordHash herror hC fun hash hhash => alone_write fun o a db' _ hw => ?_
  obtain ⟨rfl, rfl⟩ | ⟨share, rfl, hf, -, rfl, rfl⟩ := Write.createShare_cases hw
  · exact herror _ _
  · exact hmade _ file.name hf ⟨hexpiry, hlimit⟩ ⟨rfl, rfl, hhash⟩

end Runs

/-! ## A run that answers with a share -/

section MayEnd

/-- The program has a run in which every hash verifies its password and that ends in `Ψ`. -/
abbrev MayEnd (deps : Deps) (q : Request) (p : Prog Stmt Reply) (s : Store)
    (Ψ : Reply → Store → Prop) : Prop :=
  (services deps).MayEnd (hashVerifies deps) q p s Ψ

theorem mayEnd_query {α : Type} {qy : Query α} {k : Except DbError α → Prog Stmt Reply}
    (h : MayEnd deps q (k (qy.eval s.db)) s Ψ) : MayEnd deps q (query qy k) s Ψ :=
  Machine.MayEnd.call (o := {}) (a := qy.eval s.db) rfl trivial h

theorem mayEnd_shareExpiry {hours : Option Int64} {k : Option Time → Prog Stmt Reply}
    (hpos : ∀ x ∈ hours, 0 < x) (h : ∀ expiresAt, MayEnd deps q (k expiresAt) s Ψ) :
    MayEnd deps q (shareExpiry hours k) s Ψ := by
  cases hours with
  | none => exact h none
  | some hours =>
    simp only [shareExpiry, Code.bind_apply]
    rw [failIf_apply (Int64.not_le.2 (hpos hours rfl))]
    exact Machine.MayEnd.call (o := {}) (a := s.now) rfl trivial (h _)

theorem mayEnd_shareLimit {maxDownloads : Option Int64} {k : Option ℤ → Prog Stmt Reply}
    (hpos : ∀ x ∈ maxDownloads, 0 < x) (h : ∀ limit, MayEnd deps q (k limit) s Ψ) :
    MayEnd deps q (shareLimit maxDownloads k) s Ψ := by
  cases maxDownloads with
  | none => exact h none
  | some maxDownloads =>
    simp only [shareLimit, Code.bind_apply]
    rw [failIf_apply (Int64.not_le.2 (hpos maxDownloads rfl))]
    exact h _

theorem mayEnd_sharePasswordHash {password : Option GoString}
    {k : Option GoString → Prog Stmt Reply}
    (hhash : ∀ x ∈ password, x ≠ [] → ∃ hash, deps.Hashes x hash)
    (h : ∀ hash, MayEnd deps q (k hash) s Ψ) : MayEnd deps q (sharePasswordHash password k) s Ψ := by
  match password with
  | none => exact h none
  | some [] => exact h none
  | some (c :: password) =>
    obtain ⟨hash, hhash⟩ := hhash _ rfl (List.cons_ne_nil c password)
    simp only [sharePasswordHash, Code.bind_apply]
    exact Machine.MayEnd.call (o := { output := hash }) (a := some hash) rfl hhash (h (some hash))

/-- **The owner of a file gets a share** for every request that passes the tests. -/
theorem mayEnd_createShare {f : File} (hf : f ∈ s.db.files) (hid : UUID.parse id = some f.id)
    (hreq : req.Passes) (hhash : ∀ x ∈ req.password, x ≠ [] → ∃ hash, deps.Hashes x hash)
    {shareID : UUID} {token : GoString} (hnew : ¬s.db.shares.Used shareID)
    (htoken : s.db.tokenUsed token = false) :
    MayEnd deps q (createShare f.userID id req .ret) s fun r _ => ∃ resp, r = .share resp := by
  simp only [createShare, resolveOwnedFile, Code.bind_apply, Code.pure_apply]
  rw [parseID_apply hid]
  refine mayEnd_query ?_
  rw [Query.eval_file_of_mem hf]
  refine Machine.MayEnd.call (o := {}) (a := true) rfl trivial ?_
  refine mayEnd_shareExpiry hreq.expiry fun expiresAt => mayEnd_shareLimit hreq.limit fun limit => ?_
  refine mayEnd_sharePasswordHash hhash fun hash => ?_
  obtain ⟨share, db', hw⟩ := @Write.createShare_run { uuid := shareID, token := token } s.issued s.db
    f.id f.userID hash expiresAt limit rfl hnew htoken
  have hx : (services deps).exec { uuid := shareID, token := token }
      (Stmt.write (.createShare f.id f.userID hash expiresAt limit)) s =
        some (.ok share, { s with db := db' }) := by
    rw [services_exec]
    simp only [exec, hw, Option.map_some]
  exact Machine.MayEnd.call hx trivial (.ret ⟨_, rfl⟩)

end MayEnd

end

end Optiflow
