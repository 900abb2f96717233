import Mathlib.Logic.Function.Basic
import Optiflow.Lib.Keyed
import Optiflow.Model.Hub

/-!
# The list of notifications in a client

The list that React Query caches for one user, and its three writers in `use-notifications.ts`: the
answers to `listNotifications`, the pushes of the WebSocket, and the optimistic writes of
`useMarkNotificationRead` with their rollback.  On the other side are the rows of notify-svc.  A request
is handled by the server at one time and its answer arrives at a later one; a fetch that fails never
arrives.
-/

namespace Optiflow

namespace NotificationCache

open NotifySvc

/-! ## The list -/

/-- The `read` flag, in lists by id. -/
def readFlag : Keyed.Field Notification.id Bool where
  get := Notification.read
  set b n := { n with read := b }
  set_set _ _ _ := rfl
  set_get _ := rfl
  key_set _ _ := rfl

/-- What `onMessage` makes of the cached list. -/
def prepend (n : Notification) : Option (List Notification) → List Notification
  | some old => n :: old
  | none => [n]

/-- What `onMutate` makes of it. -/
def markRead (id : UUID) (old : List Notification) : List Notification :=
  old.map fun n => if n.id = id then { n with read := true } else n

/-! ## The client and the server -/

/-- A request for the list: the answer of the server, once there is one; and whether it is still waited
for, which `cancelQueries` ends. -/
structure Fetch where
  answer : Option (List Notification)
  inFlight : Bool
deriving DecidableEq

/-- Where a mutation is: in `cancelQueries`, waiting for the server, or done. -/
inductive Phase
  | cancelling
  | sent
  | succeeded
  | failed
deriving DecidableEq

/-- A call of `markRead.mutate`: the `previous` list of its context, whether the server has set the flag,
and whether another mutation of the same notification has succeeded since `previous` was read. -/
structure Mutation where
  id : UUID
  phase : Phase
  previous : Option (List Notification)
  handled : Bool
  overtaken : Bool
deriving DecidableEq

/-- The rows of the server and the notifications of the user that are still to be pushed; the cached
list, and the ids that were pushed into it; and the requests of the client, in order. -/
structure State where
  rows : List Notification
  unpushed : List Notification
  cache : Option (List Notification)
  pushed : List UUID
  fetched : ℕ
  fetches : ℕ → Fetch
  mutated : ℕ
  mutations : ℕ → Mutation

def State.start : State where
  rows := []
  unpushed := []
  cache := none
  pushed := []
  fetched := 0
  fetches _ := ⟨none, false⟩
  mutated := 0
  mutations _ := ⟨0, .failed, none, false, false⟩

/-- `listNotifications` of the server answers at most so many. -/
def listLimit : ℕ := 50

/-- A possible answer of `listNotifications`: the newest rows of the user, the newest first. -/
def listing (user : UUID) (rows answer : List Notification) : Bool :=
  let own := rows.filter fun n => n.userID = user
  answer.Nodup && answer.all (fun n => n ∈ own) && answer.length = min listLimit own.length &&
    answer.Pairwise (fun n n' => n'.createdAt ≤ n.createdAt) &&
    own.all fun n => n ∈ answer || answer.all fun n' => n.createdAt ≤ n'.createdAt

/-- `listed` and `markedRead` are the requests at the server, `arrived`, `succeeded` and `failed` the
answers at the client. -/
inductive Event
  | internalNotify (req : InternalNotifyRequest) (id : UUID) (now : Time)
  | pushed (n : Notification)
  | fetch
  | listed (f : ℕ) (answer : List Notification)
  | arrived (f : ℕ)
  | mutate (id : UUID)
  | optimistic (m : ℕ)
  | markedRead (m : ℕ)
  | succeeded (m : ℕ)
  | failed (m : ℕ)
deriving DecidableEq

namespace State

def setFetch (s : State) (f : ℕ) (x : Fetch) : State :=
  { s with fetches := Function.update s.fetches f x }

def setMutation (s : State) (m : ℕ) (x : Mutation) : State :=
  { s with mutations := Function.update s.mutations m x }

/-- `cancelQueries`: no fetch that is in flight will write the list. -/
def cancelQueries (s : State) : State :=
  { s with fetches := fun f => { s.fetches f with inFlight := false } }

/-- The rest of `onMutate`, after `cancelQueries`. -/
def onMutate (s : State) (m : ℕ) : State :=
  let x := s.mutations m
  { s with cache := s.cache.map (markRead x.id) }.setMutation m
    { x with phase := .sent, previous := s.cache, overtaken := false }

def onError (s : State) (m : ℕ) : State :=
  let x := s.mutations m
  match x.previous with
  | some previous => { s with cache := some previous }.setMutation m { x with phase := .failed }
  | none => s.setMutation m { x with phase := .failed }

/-- The other mutations of the notification are overtaken. -/
def succeed (s : State) (m : ℕ) : State :=
  let x := s.mutations m
  { s with
    mutations := fun m' =>
      if m' = m then { x with phase := .succeeded }
      else if (s.mutations m').id = x.id then { s.mutations m' with overtaken := true }
      else s.mutations m' }

end State

variable (user : UUID)

/-- One step; `pushed` takes each notification once, and in any order. -/
def step (s : State) : Event → Option State
  | .internalNotify req id now =>
    if id ∈ s.rows.map Notification.id then none
    else (req.notification id now).map fun n =>
      { s with
        rows := n :: s.rows
        unpushed := if n.userID = user then n :: s.unpushed else s.unpushed }
  | .pushed n =>
    if n ∈ s.unpushed then
      some { s with
        unpushed := s.unpushed.erase n
        cache := some (prepend n s.cache)
        pushed := n.id :: s.pushed }
    else none
  | .fetch => some { s.setFetch s.fetched ⟨none, true⟩ with fetched := s.fetched + 1 }
  | .listed f answer =>
    if (s.fetches f).inFlight && (s.fetches f).answer = none && listing user s.rows answer then
      some (s.setFetch f { s.fetches f with answer := some answer })
    else none
  | .arrived f =>
    match s.fetches f with
    | ⟨some answer, true⟩ => some { s.setFetch f ⟨some answer, false⟩ with cache := some answer }
    | _ => none
  | .mutate id =>
    some { s.cancelQueries.setMutation s.mutated ⟨id, .cancelling, none, false, false⟩ with
      mutated := s.mutated + 1 }
  | .optimistic m => if (s.mutations m).phase = .cancelling then some (s.onMutate m) else none
  | .markedRead m =>
    let x := s.mutations m
    if m < s.mutated && x.phase ≠ .cancelling && s.rows.any fun n => n.id = x.id && n.userID = user then
      some { s.setMutation m { x with handled := true } with rows := markRead x.id s.rows }
    else none
  | .succeeded m =>
    let x := s.mutations m
    if x.phase = .sent && x.handled then some (s.succeed m) else none
  | .failed m => if (s.mutations m).phase = .sent then some (s.onError m) else none

/-- A client of one user, with notify-svc. -/
def client : System State Event := ⟨step user⟩

end NotificationCache

end Optiflow
