import Mathlib.Algebra.Group.Nat.Defs
import Mathlib.Logic.Function.Basic
import Optiflow.Lib.Events

/-!
# `NotificationSocket`

The object of the frontend that keeps a WebSocket to notify-svc open, with the sockets and the timers of
the browser that it has asked for.  JavaScript runs one call or one event handler at a time; a socket
that is closed has its close event some time later.  The `handlers` of the caller are only told what
happened and are left out.
-/

namespace Optiflow

namespace NotificationSocket

/-- `WebSocket.readyState`. -/
inductive ReadyState
  | connecting
  | open
  | closing
  | closed
deriving DecidableEq

/-- A socket, and whether its close event has occurred. -/
structure Socket where
  ready : ReadyState
  fired : Bool
deriving DecidableEq

def Socket.live (x : Socket) : Bool := x.ready = .connecting || x.ready = .open

/-- `WebSocket.close()`. -/
def Socket.close (x : Socket) : Socket := if x.live then { x with ready := .closing } else x

/-- The fields of the object; of the sockets that it has created, in order, the first `created`; and the
timers that are pending, with their delays. -/
structure State where
  socket : Option ℕ
  token : Option String
  reconnectAttempt : ℕ
  reconnectTimer : Option ℕ
  closedByCaller : Bool
  created : ℕ
  sockets : ℕ → Socket
  timersSet : ℕ
  timers : List (ℕ × ℕ)

def State.start : State where
  socket := none
  token := none
  reconnectAttempt := 0
  reconnectTimer := none
  closedByCaller := false
  created := 0
  sockets _ := ⟨.closed, true⟩
  timersSet := 0
  timers := []

def maxBackoffMs : ℕ := 30000

namespace State

def update (s : State) (i : ℕ) (f : Socket → Socket) : State :=
  { s with sockets := Function.update s.sockets i (f (s.sockets i)) }

/-- `this.socket?.close()`. -/
def closeSocket (s : State) : State :=
  match s.socket with
  | none => s
  | some i => s.update i Socket.close

def clearReconnectTimer (s : State) : State :=
  match s.reconnectTimer with
  | none => s
  | some t => { s with timers := s.timers.filter fun x => x.1 ≠ t, reconnectTimer := none }

/-- `this.token` is missing or the empty string. -/
def noToken (s : State) : Bool := s.token = none || s.token = some ""

def openSocket (s : State) : State :=
  if s.noToken then s
  else
    let s := s.clearReconnectTimer
    { s with
      socket := some s.created
      created := s.created + 1
      sockets := Function.update s.sockets s.created ⟨.connecting, false⟩ }

def scheduleReconnect (s : State) : State :=
  let delay := min (1000 * 2 ^ s.reconnectAttempt) maxBackoffMs
  { s with
    reconnectAttempt := s.reconnectAttempt + 1
    reconnectTimer := some s.timersSet
    timersSet := s.timersSet + 1
    timers := (s.timersSet, delay) :: s.timers }

/-! ### Calls -/

def connect (s : State) (token : String) : State :=
  { s with token := some token, closedByCaller := false, reconnectAttempt := 0 }.openSocket

def reconnectWithToken (s : State) (token : String) : State :=
  let s := { s with token := some token }
  if s.closedByCaller then s else s.closeSocket

def close (s : State) : State :=
  { { s with closedByCaller := true }.clearReconnectTimer.closeSocket with socket := none }

/-! ### Handlers -/

def onopen (s : State) : State := { s with reconnectAttempt := 0 }

def onclose (s : State) : State := if s.closedByCaller then s else s.scheduleReconnect

def onerror (s : State) : State := s.closeSocket

end State

/-- A call of the object, or what the browser does: `lost` is a connection that ends by itself. -/
inductive Event
  | connect (token : String)
  | reconnectWithToken (token : String)
  | close
  | opened (i : ℕ)
  | lost (i : ℕ)
  | error (i : ℕ)
  | closed (i : ℕ)
  | timer (t : ℕ)
deriving DecidableEq

/-- A socket that has been created and whose close event is still to come. -/
def State.outstanding (s : State) (i : ℕ) : Bool := i < s.created && !(s.sockets i).fired

def step (s : State) : Event → Option State
  | .connect token => some (s.connect token)
  | .reconnectWithToken token => some (s.reconnectWithToken token)
  | .close => some s.close
  | .opened i =>
    if s.outstanding i && (s.sockets i).ready = .connecting then
      some (s.update i fun x => { x with ready := .open }).onopen
    else none
  | .lost i => if s.outstanding i then some (s.update i fun x => { x with ready := .closed }) else none
  | .error i => if s.outstanding i then some s.onerror else none
  | .closed i =>
    if s.outstanding i && !(s.sockets i).live then
      some (s.update i fun _ => ⟨.closed, true⟩).onclose
    else none
  | .timer t =>
    if (s.timers.map Prod.fst).contains t then
      some { s with timers := s.timers.filter fun x => x.1 ≠ t }.openSocket
    else none

/-- The object in a browser. -/
def browser : System State Event := ⟨step⟩

end NotificationSocket

end Optiflow
