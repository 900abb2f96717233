import Optiflow.Model.Handler
import Optiflow.Model.Messages
import Optiflow.Model.NotificationCache

/-!
# The requests to notify-svc

`internalNotify`, `listNotifications` and `markRead` over the table `notifications`.  A call of `publish`
hands an envelope to Redis; what becomes of it is the hub's matter.  `machine` runs any number of
requests over one `Store`; the replicas have clocks of their own, so the environment sets the clock as it
likes.
-/

namespace Optiflow

open Interleave

namespace NotifySvc

instance : Keyed Notification UUID := ⟨Notification.id⟩

@[simp] theorem key_notification (n : Notification) : key n = n.id := rfl

/-! ## The store -/

/-- The rows, the envelopes that Redis has taken, and the clock. -/
structure Store where
  notifications : Table Notification
  published : List Envelope
  now : Time

/-- The row with `read` set. -/
def seen (n : Notification) : Notification := { n with read := true }

theorem key_seen (n : Notification) : key (seen n) = key n := rfl

/-- What an INSERT makes of a notification: `id` and `read` are the columns' defaults, and GORM sets
`created_at`. -/
def inserted (n : Notification) (id : UUID) (now : Time) : Notification :=
  { n with id := id, read := false, createdAt := now }

/-! ## Calls -/

/-- One call of a handler. -/
inductive Stmt : Type → Type
  | notifications (userID : UUID) : Stmt (Except DbError (List Notification))
  | setRead (id userID : UUID) : Stmt (Except DbError ℕ)
  | create (n : Notification) : Stmt (Except DbError Notification)
  | publish (env : Envelope) : Stmt Bool

/-- What the environment decides about a call: whether it fails, the id that an INSERT draws, and which
of the rows that are equally old a list has, and in which order. -/
structure Oracle where
  fails : Bool := false
  uuid : UUID := 0
  listed : List Notification := []
deriving DecidableEq

/-- The answer of a call and the store after it.  `none`: the id that the oracle draws is not fresh, or
the list is not one of the newest rows. -/
def exec {α : Type} (o : Oracle) : Stmt α → Store → Option (α × Store)
  | .notifications userID, s =>
    if o.fails then some (.error .other, s)
    else if NotificationCache.listing userID s.notifications.rows o.listed then some (.ok o.listed, s)
    else none
  | .setRead id userID, s =>
    let p := fun n : Notification => n.id = id ∧ n.userID = userID
    if o.fails then some (.error .other, s)
    else some (.ok (s.notifications.rows.countP fun n => p n),
      { s with notifications := s.notifications.modify (fun n => p n) seen key_seen })
  | .create n, s =>
    if o.fails then some (.error .other, s)
    else
      let n := inserted n o.uuid s.now
      if h : s.notifications.Used (key n) then none
      else some (.ok n, { s with notifications := s.notifications.insert n h })
  | .publish env, s =>
    some (if o.fails then (false, s) else (true, { s with published := env :: s.published }))

/-! ## Handlers -/

inductive Reply
  | error (status : ℕ) (message : String)
  | notifications (l : List Notification)
  | noContent
  | created (n : Notification)
deriving DecidableEq

instance : ErrorReply Reply := ⟨Reply.error⟩

abbrev Handler (α : Type) := Code Stmt Reply α

def listNotifications (userID : UUID) : Handler Reply := do
  let notifications ← foundOr 500 "could not list notifications"
    (← Code.call (.notifications userID))
  return .notifications notifications

def markRead (userID : UUID) (id : GoString) : Handler Reply := do
  let id ← parseID id "invalid notification id"
  let affected ← foundOr 500 "could not update notification" (← Code.call (.setRead id userID))
  failIf (affected = 0) 404 "notification not found"
  return .noContent

/-- `secret` is the header X-Internal-Secret. -/
def internalNotify (internalSecret secret body : GoString) : Handler Reply := do
  failIf (secret ≠ internalSecret) 401 "invalid internal secret"
  let req ← decodeBody (decodeInternalNotify body)
  failIf (req.userID = 0 ∨ req.title = [] ∨ req.message = []) 400
    "user_id, title, and message are required"
  let n ← foundOr 500 "could not create notification" (← Code.call (.create
    { id := 0
      userID := req.userID
      type := notificationType req.type
      title := req.title
      message := req.message
      actionURL := req.actionURL
      read := false
      createdAt := 0 }))
  -- A publish that fails is only logged.
  let _ ← Code.call (.publish ⟨req.userID, n⟩)
  return .created n

/-! ## The machine -/

/-- A request, with the user that the middleware authenticated. -/
inductive Request
  | listNotifications (userID : UUID)
  | markRead (userID : UUID) (id : GoString)
  | internalNotify (secret body : GoString)
deriving DecidableEq

/-- The handler of a request. -/
def Request.handler (internalSecret : GoString) : Request → Handler Reply
  | .listNotifications userID => NotifySvc.listNotifications userID
  | .markRead userID id => NotifySvc.markRead userID id
  | .internalNotify secret body => NotifySvc.internalNotify internalSecret secret body

/-- Requests can start at any time, and clocks show anything. -/
def machine (internalSecret : GoString) : Machine Store Request Reply Oracle Time Stmt where
  handler q := (q.handler internalSecret).run
  launch _ s := some s
  exec := exec
  env now s := some { s with now := now }

/-- A configuration of notify-svc. -/
abbrev Service := Config Store Request Reply Oracle Time Stmt

/-- A step of notify-svc. -/
abbrev ServiceStep := Step Store Request Oracle Time Stmt

/-- notify-svc before its first request. -/
def Store.fresh : Store := ⟨Table.empty, [], 0⟩

/-! ## What a call does -/

section Exec

variable {secret : GoString} {α : Type} {o : Oracle} {s s' : Store}

@[simp] theorem machine_exec {e : Stmt α} : (machine secret).exec o e s = exec o e s := rfl

theorem exec_notifications {userID : UUID} {a : Except DbError (List Notification)}
    (h : exec o (.notifications userID) s = some (a, s')) :
    s' = s ∧ ∀ l, a = .ok l → NotificationCache.listing userID s.notifications.rows l = true := by
  simp only [exec] at h
  split_ifs at h with hfails hlisting
  · obtain ⟨rfl, rfl⟩ := Prod.mk.inj (Option.some.inj h)
    exact ⟨rfl, fun l hl => nomatch hl⟩
  · obtain ⟨rfl, rfl⟩ := Prod.mk.inj (Option.some.inj h)
    refine ⟨rfl, fun l hl => ?_⟩
    obtain rfl := Except.ok.inj hl
    exact hlisting

theorem exec_setRead {id userID : UUID} {a : Except DbError ℕ}
    (h : exec o (.setRead id userID) s = some (a, s')) :
    (a = .error .other ∧ s' = s) ∨
      (a = .ok (s.notifications.rows.countP fun n => n.id = id ∧ n.userID = userID) ∧
        s' = { s with
          notifications := s.notifications.modify (fun n => n.id = id ∧ n.userID = userID) seen
            key_seen }) := by
  simp only [exec] at h
  split_ifs at h
  · exact Or.inl ((Prod.mk.inj (Option.some.inj h)).imp Eq.symm Eq.symm)
  · exact Or.inr ((Prod.mk.inj (Option.some.inj h)).imp Eq.symm Eq.symm)

theorem exec_create {n : Notification} {a : Except DbError Notification}
    (h : exec o (.create n) s = some (a, s')) :
    (a = .error .other ∧ s' = s) ∨ ∃ hu : ¬s.notifications.Used (key (inserted n o.uuid s.now)),
      a = .ok (inserted n o.uuid s.now) ∧
        s' = { s with notifications := s.notifications.insert _ hu } := by
  simp only [exec] at h
  split_ifs at h with hfails hu
  · exact Or.inl ((Prod.mk.inj (Option.some.inj h)).imp Eq.symm Eq.symm)
  · exact Or.inr ⟨hu, (Prod.mk.inj (Option.some.inj h)).imp Eq.symm Eq.symm⟩

theorem exec_publish {env : Envelope} {a : Bool} (h : exec o (.publish env) s = some (a, s')) :
    s'.notifications = s.notifications ∧
      s'.published = if a then env :: s.published else s.published := by
  simp only [exec] at h
  split_ifs at h
  all_goals
    obtain ⟨rfl, rfl⟩ := Prod.mk.inj (Option.some.inj h)
    exact ⟨rfl, rfl⟩

end Exec

end NotifySvc

end Optiflow
