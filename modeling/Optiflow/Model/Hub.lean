import Mathlib.Data.Finset.Basic
import Mathlib.Data.Finset.Card
import Mathlib.Data.Finset.Insert
import Optiflow.Lib.Events
import Optiflow.Model.Models

/-!
# The hub of notify-svc

Each replica holds the WebSocket connections of its own clients, by user, and all of them hear of every
notification through one Redis channel.  The goroutines of a replica are `subscribeLoop`, which handles
one message at a time, and the requests, which call `register`, `unregister` and `publish` at any time;
the lock makes each of these one step, and the copying of the connections in `deliverLocal` too.
Redis hands each published message to every replica that is subscribed, once.
-/

namespace Optiflow

namespace NotifySvc

/-! ## Notifications -/

inductive NotificationType
  | system
  | storage
  | share
deriving DecidableEq

def NotificationType.value : NotificationType → GoString
  | system => lit "system"
  | storage => lit "storage"
  | share => lit "share"

/-- `models.Notification`. -/
structure Notification where
  id : UUID
  userID : UUID
  type : NotificationType
  title : GoString
  message : GoString
  actionURL : Option GoString
  read : Bool
  createdAt : Time
deriving DecidableEq

structure InternalNotifyRequest where
  userID : UUID
  type : GoString
  title : GoString
  message : GoString
  actionURL : Option GoString
deriving DecidableEq

/-- Any other type is `system`. -/
def notificationType (type : GoString) : NotificationType :=
  if type = NotificationType.storage.value then .storage
  else if type = NotificationType.share.value then .share
  else .system

/-- The row that `internalNotify` creates for a request; the database chooses the id and the time.
`none`: the request is answered 400. -/
def InternalNotifyRequest.notification (req : InternalNotifyRequest) (id : UUID) (now : Time) :
    Option Notification :=
  if req.userID = 0 ∨ req.title = [] ∨ req.message = [] then none
  else some ⟨id, req.userID, notificationType req.type, req.title, req.message, req.actionURL, false,
    now⟩

/-- `notifyEnvelope`. -/
structure Envelope where
  userID : UUID
  notification : Notification
deriving DecidableEq

/-! ## The map of connections -/

variable {ρ κ : Type} [DecidableEq ρ] [DecidableEq κ]

/-- `hub.conns`: a user has no inner map, or a set of connections. -/
abbrev Conns (κ : Type) := UUID → Option (Finset κ)

namespace Conns

/-- The connections of a user; a missing inner map reads as an empty one. -/
def get (conns : Conns κ) (userID : UUID) : Finset κ := (conns userID).getD ∅

def register (conns : Conns κ) (userID : UUID) (c : κ) : Conns κ :=
  let conns := if conns userID = none then Function.update conns userID (some ∅) else conns
  Function.update conns userID ((conns userID).map (insert c))

def unregister (conns : Conns κ) (userID : UUID) (c : κ) : Conns κ :=
  let conns := Function.update conns userID ((conns userID).map fun inner => inner.erase c)
  if (Conns.get conns userID).card = 0 then Function.update conns userID none else conns

end Conns

/-! ## Replicas -/

/-- Where `subscribeLoop` is: it waits for a message, or has one for `deliverLocal`, or `deliverLocal`
has copied the connections and still has to write to some of them. -/
inductive Loop (κ : Type)
  | waiting
  | received (env : Envelope)
  | writing (env : Envelope) (conns : List κ)
deriving DecidableEq

/-- A replica, with the messages that Redis still has to hand to it and its connections that have
ended. -/
structure Replica (κ : Type) where
  conns : Conns κ
  closed : Finset κ
  subscribed : Bool
  inbox : List Envelope
  loop : Loop κ

/-- A notification that was written to a connection of a replica. -/
structure Written (ρ κ : Type) where
  replica : ρ
  conn : κ
  notification : Notification
deriving DecidableEq

/-- All replicas, the ids of the notifications so far, the calls of `publish` that are still to come, and
what has been written, the newest first. -/
structure State (ρ κ : Type) where
  replica : ρ → Replica κ
  ids : List UUID
  publishing : List Envelope
  written : List (Written ρ κ)

def State.start : State ρ κ where
  replica _ := ⟨fun _ => none, ∅, false, [], .waiting⟩
  ids := []
  publishing := []
  written := []

/-- What happens at a replica `r` or in a request to any of them.  `closed` is the end of a connection,
whoever ends it. -/
inductive Event (ρ κ : Type)
  | register (r : ρ) (userID : UUID) (c : κ)
  | unregister (r : ρ) (userID : UUID) (c : κ)
  | closed (r : ρ) (c : κ)
  | subscribe (r : ρ)
  | internalNotify (req : InternalNotifyRequest) (id : UUID) (now : Time)
  | publish (env : Envelope)
  | publishFails (env : Envelope)
  | receive (r : ρ) (env : Envelope)
  | snapshot (r : ρ) (env : Envelope) (conns : List κ)
  | write (r : ρ) (c : κ) (n : Notification)
deriving DecidableEq

def State.set (s : State ρ κ) (r : ρ) (x : Replica κ) : State ρ κ :=
  { s with replica := Function.update s.replica r x }

/-- Redis hands a message over when the replica has subscribed. -/
def Replica.hand (x : Replica κ) (env : Envelope) : Replica κ :=
  if x.subscribed then { x with inbox := x.inbox ++ [env] } else x

/-- One step. -/
def step (s : State ρ κ) : Event ρ κ → Option (State ρ κ)
  | .register r userID c =>
    let x := s.replica r
    some (s.set r { x with conns := x.conns.register userID c })
  | .unregister r userID c =>
    let x := s.replica r
    some (s.set r { x with conns := x.conns.unregister userID c })
  | .closed r c =>
    let x := s.replica r
    some (s.set r { x with closed := insert c x.closed })
  | .subscribe r => some (s.set r { s.replica r with subscribed := true })
  | .internalNotify req id now =>
    if id ∈ s.ids then none
    else (req.notification id now).map fun n =>
      { s with ids := id :: s.ids, publishing := ⟨req.userID, n⟩ :: s.publishing }
  | .publish env =>
    if env ∈ s.publishing then
      some { s with
        publishing := s.publishing.erase env
        replica := fun r => (s.replica r).hand env }
    else none
  | .publishFails env =>
    -- The error is only logged.
    if env ∈ s.publishing then some { s with publishing := s.publishing.erase env } else none
  | .receive r env =>
    let x := s.replica r
    if x.loop = .waiting ∧ env ∈ x.inbox then
      some (s.set r { x with inbox := x.inbox.erase env, loop := .received env })
    else none
  | .snapshot r env conns =>
    -- The map is copied in any order.
    let x := s.replica r
    if x.loop = .received env ∧ conns.Nodup ∧ conns.toFinset = x.conns.get env.userID then
      some (s.set r { x with loop := if conns = [] then .waiting else .writing env conns })
    else none
  | .write r c n =>
    let x := s.replica r
    match x.loop with
    | .writing env (c' :: conns) =>
      if c' = c ∧ env.notification = n then
        let s' := s.set r { x with loop := if conns = [] then .waiting else .writing env conns }
        -- A write to a connection that has ended fails, and the loop goes on.
        some (if c ∈ x.closed then s' else { s' with written := ⟨r, c, n⟩ :: s'.written })
      else none
    | _ => none

/-- notify-svc with its replicas. -/
def hubs (ρ κ : Type) [DecidableEq ρ] [DecidableEq κ] : System (State ρ κ) (Event ρ κ) := ⟨step⟩

end NotifySvc

end Optiflow
