import Optiflow.Model.Handler

/-!
# auth-svc

Profiles and password resets: the tables `users` and `password_reset_tokens`, the calls on them, and
the handlers.  `machine` runs any number of requests over one `Store`; the environment only moves the
clock.
-/

namespace Optiflow

open Interleave

namespace AuthSvc

/-- What auth-svc is built on: bcrypt, which gets its salt and refuses some passwords, and
`hashResetToken`, the hexadecimal SHA-256 of a token. -/
structure Deps where
  hashPassword : Bytes → GoString → Option GoString
  hashResetToken : GoString → GoString

def passwordResetTokenTTL : Time := 30 * minute

/-! ## The store -/

structure Store where
  users : Table User
  resetTokens : Table PasswordResetToken
  now : Time

/-- The row with its `password_hash` set. -/
def withPasswordHash (hash : GoString) (u : User) : User := { u with passwordHash := hash }

theorem key_withPasswordHash (hash : GoString) (u : User) : key (withPasswordHash hash u) = key u := rfl

/-- The row with `used` set. -/
def spent (t : PasswordResetToken) : PasswordResetToken := { t with used := true }

theorem key_spent (t : PasswordResetToken) : key (spent t) = key t := rfl

/-- What an INSERT makes of a user: `storage_quota_bytes` has a default other than zero. -/
def columnDefaults (u : User) : User :=
  { u with storageQuotaBytes := if u.storageQuotaBytes = 0 then 5368709120 else u.storageQuotaBytes }

namespace Store

/-- The row that `db.Save(&user)` leaves: the struct, or what an INSERT makes of it. -/
def savedUser (s : Store) (u : User) : User :=
  if (s.users.get? u.id).isSome then u else columnDefaults u

/-- `db.Save(&user)`: UPDATE of every column, and an INSERT when that touches no row. -/
def saveUser (s : Store) (u : User) : Store := { s with users := s.users.save (s.savedUser u) }

/-- The transaction of `confirmPasswordReset`. -/
def resetPassword (s : Store) (resetToken : PasswordResetToken) (hash : GoString) : Store :=
  { s with
    users := s.users.modify (fun u => u.id = resetToken.userID) (withPasswordHash hash)
      (key_withPasswordHash hash)
    resetTokens := s.resetTokens.modify (fun t => t.id = resetToken.id) spent key_spent }

end Store

/-! ## Calls -/

/-- One call of a handler. -/
inductive Stmt : Type → Type
  | user (id : UUID) : Stmt (Except DbError User)
  | userByEmail (email : GoString) : Stmt (Except DbError User)
  | resetToken (tokenHash : GoString) : Stmt (Except DbError PasswordResetToken)
  | saveUser (u : User) : Stmt (Except DbError Unit)
  | createResetToken (userID : UUID) (tokenHash : GoString) (expiresAt : Time) :
      Stmt (Except DbError Unit)
  | resetPassword (resetToken : PasswordResetToken) (hash : GoString) : Stmt (Except DbError Unit)
  | hashPassword (password : GoString) : Stmt (Option GoString)
  | randomToken : Stmt (Option GoString)
  | now : Stmt Time

/-- What the environment decides about a call: whether it fails, the id that an INSERT draws, and the
random bytes of a salt or a token. -/
structure Oracle where
  fails : Bool := false
  uuid : UUID := 0
  random : Bytes := []
deriving DecidableEq

/-- The answer of a SELECT. -/
def Oracle.answer {α : Type} (o : Oracle) (a : Except DbError α) : Except DbError α :=
  if o.fails then .error .other else a

/-- The answer of a call and the store after it.  `none`: the id that the oracle draws is not fresh. -/
def exec (deps : Deps) {α : Type} (o : Oracle) : Stmt α → Store → Option (α × Store)
  | .user id, s => some (o.answer (firstOrNotFound s.users fun u => u.id = id), s)
  | .userByEmail email, s => some (o.answer (firstOrNotFound s.users fun u => u.email = email), s)
  | .resetToken tokenHash, s =>
    some (o.answer (firstOrNotFound s.resetTokens fun t => t.tokenHash = tokenHash), s)
  | .saveUser u, s => some (if o.fails then (.error .other, s) else (.ok (), s.saveUser u))
  | .createResetToken userID tokenHash expiresAt, s =>
    -- `token_hash` has a unique index.
    if o.fails || s.resetTokens.rows.any (fun t => t.tokenHash = tokenHash) then
      some (.error .other, s)
    else
      let resetToken : PasswordResetToken := ⟨o.uuid, userID, tokenHash, expiresAt, false⟩
      if h : s.resetTokens.Used (key resetToken) then none
      else some (.ok (), { s with resetTokens := s.resetTokens.insert resetToken h })
  | .resetPassword resetToken hash, s =>
    some (if o.fails then (.error .other, s) else (.ok (), s.resetPassword resetToken hash))
  | .hashPassword password, s =>
    some (if o.fails then none else deps.hashPassword o.random password, s)
  | .randomToken, s => some (if o.fails then none else some o.random, s)
  | .now, s => some (s.now, s)

/-! ## Handlers -/

/-- `meResponse`. -/
structure MeResponse where
  id : UUID
  email : GoString
  name : GoString
  storageQuotaBytes : Int64
deriving DecidableEq

def meResponse (user : User) : MeResponse := ⟨user.id, user.email, user.name, user.storageQuotaBytes⟩

inductive Reply
  | error (status : ℕ) (message : String)
  | me (response : MeResponse)
  | resetRequested (resetToken : GoString) (expiresAt : Time)
  | noContent
deriving DecidableEq

instance : ErrorReply Reply := ⟨Reply.error⟩

abbrev Handler (α : Type) := Code Stmt Reply α

structure UpdateMeRequest where
  name : GoString

structure PasswordResetRequestRequest where
  email : GoString

structure PasswordResetConfirmRequest where
  token : GoString
  newPassword : GoString

def getMe (userID : UUID) : Handler Reply := do
  let user ← found "user not found" "could not load profile" (← Code.call (.user userID))
  return .me (meResponse user)

def updateMe (userID : UUID) (body : Option UpdateMeRequest) : Handler Reply := do
  let req ← decodeBody body
  failIf (req.name = []) 400 "name cannot be empty"
  let user ← found "user not found" "could not update profile" (← Code.call (.user userID))
  let user := { user with name := req.name }
  foundOr 500 "could not update profile" (← Code.call (.saveUser user))
  return .me (meResponse user)

def requestPasswordReset (deps : Deps) (body : Option PasswordResetRequestRequest) :
    Handler Reply := do
  let req ← decodeBody body
  failIf (req.email = []) 400 "email is required"
  let user ← found "no account with that email" "could not start password reset"
    (← Code.call (.userByEmail req.email))
  match ← Code.call .randomToken with
  | none => fail 500 "could not start password reset"
  | some raw =>
    let now ← Code.call .now
    let expiresAt := now + passwordResetTokenTTL
    foundOr 500 "could not start password reset"
      (← Code.call (.createResetToken user.id (deps.hashResetToken raw) expiresAt))
    return .resetRequested raw expiresAt

/-- The clock is only read when the token is unused. -/
def confirmPasswordReset (deps : Deps) (body : Option PasswordResetConfirmRequest) :
    Handler Reply := do
  let req ← decodeBody body
  failIf (req.token = [] ∨ req.newPassword.length < 6) 400
    "token is required and new_password must be at least 6 characters"
  let resetToken ← foundOr 400 "invalid or expired reset token"
    (← Code.call (.resetToken (deps.hashResetToken req.token)))
  failIf (resetToken.used = true) 400 "invalid or expired reset token"
  let now ← Code.call .now
  failIf (now > resetToken.expiresAt) 400 "invalid or expired reset token"
  match ← Code.call (.hashPassword req.newPassword) with
  | none => fail 500 "could not reset password"
  | some hash =>
    foundOr 500 "could not reset password" (← Code.call (.resetPassword resetToken hash))
    return .noContent

/-! ## The machine -/

/-- A request, with the user that the middleware authenticated. -/
inductive Request
  | getMe (userID : UUID)
  | updateMe (userID : UUID) (body : Option UpdateMeRequest)
  | requestPasswordReset (body : Option PasswordResetRequestRequest)
  | confirmPasswordReset (body : Option PasswordResetConfirmRequest)

/-- The handler of a request. -/
def Request.handler (deps : Deps) : Request → Handler Reply
  | .getMe userID => AuthSvc.getMe userID
  | .updateMe userID body => AuthSvc.updateMe userID body
  | .requestPasswordReset body => AuthSvc.requestPasswordReset deps body
  | .confirmPasswordReset body => AuthSvc.confirmPasswordReset deps body

/-- Requests can start at any time, and the clock is monotone. -/
def machine (deps : Deps) : Machine Store Request Reply Oracle Time Stmt where
  handler q := (q.handler deps).run
  launch _ s := some s
  exec := exec deps
  env now s := if s.now ≤ now then some { s with now := now } else none

/-- A configuration of auth-svc. -/
abbrev Service := Config Store Request Reply Oracle Time Stmt

/-- A step of auth-svc. -/
abbrev ServiceStep := Step Store Request Oracle Time Stmt

/-! ## What a call does -/

section Exec

variable {deps : Deps} {α : Type} {o : Oracle} {s s' : Store}

@[simp] theorem machine_exec {e : Stmt α} : (machine deps).exec o e s = exec deps o e s := rfl

theorem answer_ok {a : Except DbError α} {x : α} (h : o.answer a = .ok x) : a = .ok x := by
  unfold Oracle.answer at h
  split at h
  · cases h
  · exact h

theorem exec_saveUser {u : User} {a : Except DbError Unit}
    (h : exec deps o (.saveUser u) s = some (a, s')) :
    (a = .error .other ∧ s' = s) ∨ (a = .ok () ∧ s' = s.saveUser u) := by
  simp only [exec, Option.some.injEq] at h
  split at h
  · exact Or.inl ⟨(Prod.mk.inj h).1.symm, (Prod.mk.inj h).2.symm⟩
  · exact Or.inr ⟨(Prod.mk.inj h).1.symm, (Prod.mk.inj h).2.symm⟩

theorem exec_resetPassword {t : PasswordResetToken} {hash : GoString} {a : Except DbError Unit}
    (h : exec deps o (.resetPassword t hash) s = some (a, s')) :
    (a = .error .other ∧ s' = s) ∨ (a = .ok () ∧ s' = s.resetPassword t hash) := by
  simp only [exec, Option.some.injEq] at h
  split at h
  · exact Or.inl ⟨(Prod.mk.inj h).1.symm, (Prod.mk.inj h).2.symm⟩
  · exact Or.inr ⟨(Prod.mk.inj h).1.symm, (Prod.mk.inj h).2.symm⟩

/-- A new token has a hash that no other has, and a fresh id. -/
theorem exec_createResetToken {userID : UUID} {tokenHash : GoString} {expiresAt : Time}
    {a : Except DbError Unit}
    (h : exec deps o (.createResetToken userID tokenHash expiresAt) s = some (a, s')) :
    (a = .error .other ∧ s' = s) ∨
      ∃ hu : ¬s.resetTokens.Used (key (⟨o.uuid, userID, tokenHash, expiresAt, false⟩ : PasswordResetToken)),
        a = .ok () ∧ (∀ t ∈ s.resetTokens, t.tokenHash ≠ tokenHash) ∧
        s' = { s with resetTokens := s.resetTokens.insert _ hu } := by
  simp only [exec] at h
  split at h
  · obtain ⟨rfl, rfl⟩ := Prod.mk.inj (Option.some.inj h)
    exact Or.inl ⟨rfl, rfl⟩
  · next hnot =>
    split at h
    · cases h
    · next hu =>
      obtain ⟨rfl, rfl⟩ := Prod.mk.inj (Option.some.inj h)
      simp only [Bool.or_eq_true, List.any_eq_true, decide_eq_true_eq, not_or, not_exists,
        not_and] at hnot
      exact Or.inr ⟨hu, rfl, hnot.2, rfl⟩

/-- Whether a call writes to the database. -/
def Stmt.isWrite : Stmt α → Bool
  | .saveUser _ => true
  | .createResetToken _ _ _ => true
  | .resetPassword _ _ => true
  | _ => false

theorem exec_read {e : Stmt α} {a : α} (he : e.isWrite = false)
    (h : exec deps o e s = some (a, s')) : s' = s := by
  cases e with
  | saveUser u => cases he
  | createResetToken userID tokenHash expiresAt => cases he
  | resetPassword t hash => cases he
  | _ =>
    simp only [exec, Option.some.injEq, Prod.mk.injEq] at h
    exact h.2.symm

theorem mem_users_resetPassword {t : PasswordResetToken} {hash : GoString} {x : User} :
    x ∈ (s.resetPassword t hash).users ↔
      ∃ u ∈ s.users, x = if u.id = t.userID then withPasswordHash hash u else u := by
  refine (Table.mem_modify (key_withPasswordHash hash)).trans ?_
  simp only [decide_eq_true_eq]

theorem mem_resetTokens_resetPassword {t x : PasswordResetToken} {hash : GoString} :
    x ∈ (s.resetPassword t hash).resetTokens ↔
      ∃ r ∈ s.resetTokens, x = if r.id = t.id then spent r else r := by
  refine (Table.mem_modify key_spent).trans ?_
  simp only [decide_eq_true_eq]

/-- A row that is there is replaced by the struct; the other rows stay. -/
theorem mem_users_saveUser {u r : User} (hr : r ∈ s.users) (hid : r.id = u.id) {x : User} :
    x ∈ (s.saveUser u).users ↔ x = u ∨ (x ∈ s.users ∧ x.id ≠ u.id) := by
  have hsaved : s.savedUser u = u := by
    have hget : s.users.get? u.id = some r := Table.get?_eq_some.2 ⟨hr, hid⟩
    simp [Store.savedUser, hget]
  unfold Store.saveUser
  rw [hsaved]
  exact Table.mem_save

/-- The other rows stay. -/
theorem mem_users_saveUser_of_ne {u x : User} (hx : x ∈ s.users) (hid : x.id ≠ u.id) :
    x ∈ (s.saveUser u).users := by
  refine Table.mem_save.2 (Or.inr ⟨hx, ?_⟩)
  have hkey : key (s.savedUser u) = u.id := by
    unfold Store.savedUser
    split <;> rfl
  rwa [hkey]

end Exec

end AuthSvc

end Optiflow
