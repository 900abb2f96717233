import Mathlib.Logic.Function.Basic
import Optiflow.Lib.Events

/-!
# `token.ts`

The module of the frontend that holds the tokens of the session.  `setTokens` is called by
`ApiSessionBridge`, `refreshAccessToken` by the interceptor that meets a 401.  The answer to a `/refresh`
request arrives at any time; a failed request, an answer that is not ok and a body that does not parse
are all `none`.  Clearing `refreshPromise` is a step of its own, since `finally` runs after the callback
that writes the token.
-/

namespace Optiflow

namespace ApiTokens

/-- What becomes of the promise of a `/refresh` request. -/
inductive Outcome
  | pending
  | resolved (token : String)
  | rejected
deriving DecidableEq

/-- A `/refresh` request: the refresh token in its body, and how often `setTokens` had been called when it
was sent. -/
structure Refresh where
  sent : String
  epoch : ℕ
  outcome : Outcome
deriving DecidableEq

/-- A call of `refreshAccessToken`: the refresh token that the module held, and the request whose promise
was returned (`none`: a promise that is rejected at once). -/
structure Call where
  refreshToken : Option String
  promise : Option ℕ
deriving DecidableEq

inductive Callback
  | onTokenRefreshed (accessToken : String)
  | onAuthFailure
deriving DecidableEq

/-- The variables of the module; the `/refresh` requests sent, in order, the first `started`; the calls of
`refreshAccessToken`, of the listeners and of the callbacks, the newest first; and how often `setTokens`
was called. -/
structure State where
  accessToken : Option String
  refreshToken : Option String
  configured : Bool
  refreshPromise : Option ℕ
  started : ℕ
  refreshes : ℕ → Refresh
  calls : List Call
  told : List (Option String)
  callbacks : List Callback
  epoch : ℕ

def State.start : State where
  accessToken := none
  refreshToken := none
  configured := false
  refreshPromise := none
  started := 0
  refreshes _ := ⟨"", 0, .rejected⟩
  calls := []
  told := []
  callbacks := []
  epoch := 0

namespace State

def notifyListeners (s : State) : State := { s with told := s.accessToken :: s.told }

/-- A call of `callbacks?`. -/
def callback (s : State) (c : Callback) : State :=
  if s.configured then { s with callbacks := c :: s.callbacks } else s

def setTokens (s : State) (accessToken refreshToken : Option String) : State :=
  let changed := s.accessToken ≠ accessToken
  let s := { s with accessToken, refreshToken, epoch := s.epoch + 1 }
  if changed then s.notifyListeners else s

/-- `refreshToken` is `null` or the empty string. -/
def noRefreshToken (s : State) : Bool := s.refreshToken = none || s.refreshToken = some ""

/-- The promise that a call of `refreshAccessToken` returns. -/
def returned (s : State) (promise : Option ℕ) : State :=
  { s with calls := ⟨s.refreshToken, promise⟩ :: s.calls }

def refreshAccessToken (s : State) : State :=
  if s.noRefreshToken then (s.callback .onAuthFailure).returned none
  else
    match s.refreshPromise with
    | some i => s.returned (some i)
    | none =>
      { s with
        refreshPromise := some s.started
        started := s.started + 1
        refreshes := Function.update s.refreshes s.started
          ⟨s.refreshToken.getD "", s.epoch, .pending⟩ }.returned (some s.started)

def setOutcome (s : State) (i : ℕ) (outcome : Outcome) : State :=
  { s with refreshes := Function.update s.refreshes i { s.refreshes i with outcome } }

/-- The callback of `then`, with the `access_token` of the answer. -/
def refreshed (s : State) (i : ℕ) (token : String) : State :=
  let s := { s with accessToken := some token }.notifyListeners
  (s.callback (.onTokenRefreshed token)).setOutcome i (.resolved token)

/-- The callback of `catch`. -/
def refreshFailed (s : State) (i : ℕ) : State := (s.callback .onAuthFailure).setOutcome i .rejected

end State

variable {σ : Type} (session : String → σ)

/-- What `ApiSessionBridge` sets: the tokens that were issued for a session, or none. -/
structure Tokens where
  accessToken : Option String
  refreshToken : Option String
  together : accessToken.map session = refreshToken.map session

inductive Event
  | configureApiClient
  | setTokens (next : Tokens session)
  | refreshAccessToken
  | answered (i : ℕ) (token : Option String)
  | settled (i : ℕ)

/-- The promise of the request is pending. -/
def State.awaits (s : State) (i : ℕ) : Bool := i < s.started && (s.refreshes i).outcome = .pending

variable [DecidableEq σ]

/-- auth-svc answers with an access token of the session that the refresh token was issued for. -/
def step (s : State) : Event session → Option State
  | .configureApiClient => some { s with configured := true }
  | .setTokens next => some (s.setTokens next.accessToken next.refreshToken)
  | .refreshAccessToken => some s.refreshAccessToken
  | .answered i (some token) =>
    if s.awaits i && session token = session (s.refreshes i).sent then some (s.refreshed i token)
    else none
  | .answered i none => if s.awaits i then some (s.refreshFailed i) else none
  | .settled i =>
    if s.refreshPromise = some i && !s.awaits i then some { s with refreshPromise := none } else none

/-- The module in a browser; `session` gives the session that a token was issued for. -/
def client : System State (Event session) := ⟨step session⟩

end ApiTokens

end Optiflow
