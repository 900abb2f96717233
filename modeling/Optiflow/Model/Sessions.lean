import Optiflow.Model.AuthSvc

/-!
# Sessions

`internal/auth` issues and parses tokens; `signup`, `login` and `refresh` of auth-svc issue them, and
`middleware.RequireAuth` and the `ws` handshake of notify-svc accept them.  The services share the
secret, so one `machine` runs the requests of all of them.  The environment moves the clock; a client
presents tokens that were issued, or that do not verify.
-/

namespace Optiflow

open Interleave

namespace Sessions

/-! ## Tokens -/

inductive TokenType
  | access
  | refresh
deriving DecidableEq

def second : Time := 1000000000

def accessTokenTTL : Time := 15 * minute

def refreshTokenTTL : Time := 7 * 24 * 60 * minute

/-- How long a token of a type lives. -/
def ttl : TokenType → Time
  | .access => accessTokenTTL
  | .refresh => refreshTokenTTL

/-- `jwt.NewNumericDate`: whole seconds. -/
def numericDate (t : Time) : ℤ := t / second

/-- `Claims`, with the registered claims that are set. -/
structure Claims where
  userID : UUID
  type : TokenType
  expiresAt : ℤ
  issuedAt : ℤ
  subject : GoString
deriving DecidableEq

/-- What the services are built on: bcrypt, and the JWT library with the shared secret.  `verifyToken`
is what it makes of a text's signature and payload. -/
structure Deps where
  hashPassword : Bytes → GoString → Option GoString
  verifyPassword : GoString → GoString → Bool
  signToken : Claims → GoString
  verifyToken : GoString → Option Claims

/-! ## The store -/

/-- The accounts, the tokens signed so far, the requests received so far, and the clock. -/
structure Store where
  users : Table User
  issued : List (GoString × Claims)
  requests : ℕ
  now : Time

/-- One call of a handler. -/
inductive Stmt : Type → Type
  | user (id : UUID) : Stmt (Except DbError User)
  | userByEmail (email : GoString) : Stmt (Except DbError User)
  | createUser (email passwordHash name : GoString) : Stmt (Except DbError User)
  | hashPassword (password : GoString) : Stmt (Option GoString)
  | signToken (claims : Claims) : Stmt (Option GoString)
  | unexpired (claims : Claims) : Stmt Bool
  | acceptWebSocket : Stmt Bool
  | now : Stmt Time

/-- The answer of a call and the store after it.  `none`: the id that the oracle draws is not fresh. -/
def exec (deps : Deps) {α : Type} (o : AuthSvc.Oracle) : Stmt α → Store → Option (α × Store)
  | .user id, s => some (o.answer (firstOrNotFound s.users fun u => u.id = id), s)
  | .userByEmail email, s => some (o.answer (firstOrNotFound s.users fun u => u.email = email), s)
  | .createUser email passwordHash name, s =>
    -- `email` has a unique index.
    if o.fails || s.users.rows.any (fun u => u.email = email) then some (.error .other, s)
    else
      let user := AuthSvc.columnDefaults ⟨o.uuid, email, passwordHash, name, 0⟩
      if h : s.users.Used (key user) then none
      else some (.ok user, { s with users := s.users.insert user h })
  | .hashPassword password, s =>
    some (if o.fails then none else deps.hashPassword o.random password, s)
  | .signToken claims, s =>
    if o.fails then some (none, s)
    else
      some (some (deps.signToken claims),
        { s with issued := (deps.signToken claims, claims) :: s.issued })
  | .unexpired claims, s => some (s.now < claims.expiresAt * second, s)
  | .acceptWebSocket, s => some (!o.fails, s)
  | .now, s => some (s.now, s)

/-! ## Handlers -/

/-- `tokenResponse`. -/
structure TokenResponse where
  accessToken : GoString
  refreshToken : GoString
deriving DecidableEq

/-- What a request is answered with.  `served` hands the request of a user on to the handler behind
`RequireAuth`, `streaming` is the connection of a user. -/
inductive Reply
  | error (status : ℕ) (message : String)
  | tokens (status : ℕ) (response : TokenResponse)
  | served (userID : UUID)
  | streaming (userID : UUID)
  | notUpgraded
deriving DecidableEq

instance : ErrorReply Reply := ⟨Reply.error⟩

abbrev Handler (α : Type) := Code Stmt Reply α

/-- `IssueToken`: the clock is read once for each date. -/
def issueToken (userID : UUID) (tokenType : TokenType) (ttl : Time) : Handler (Option GoString) := do
  let now ← Code.call .now
  let now' ← Code.call .now
  Code.call (.signToken
    { userID := userID
      type := tokenType
      expiresAt := numericDate (now + ttl)
      issuedAt := numericDate now'
      subject := UUID.string userID })

/-- `ParseToken`: a token that verifies and has not expired. -/
def parseToken (deps : Deps) (tokenString : GoString) : Handler (Option Claims) :=
  match deps.verifyToken tokenString with
  | none => pure none
  | some claims => do
    if ← Code.call (.unexpired claims) then return some claims else return none

def issueTokenPair (user : User) : Handler (Option TokenResponse) := do
  match ← issueToken user.id .access accessTokenTTL with
  | none => return none
  | some access =>
    match ← issueToken user.id .refresh refreshTokenTTL with
    | none => return none
    | some refresh => return some ⟨access, refresh⟩

structure SignupRequest where
  email : GoString
  password : GoString
  name : GoString
deriving DecidableEq

structure LoginRequest where
  email : GoString
  password : GoString
deriving DecidableEq

structure RefreshRequest where
  refreshToken : GoString
deriving DecidableEq

def signup (body : Option SignupRequest) : Handler Reply := do
  let req ← decodeBody body
  failIf (req.email = [] ∨ req.password = [] ∨ req.name = []) 400
    "email, password, and name are required"
  match ← Code.call (.hashPassword req.password) with
  | none => fail 500 "could not create account"
  | some hash =>
    let user ← foundOr 409 "email already registered"
      (← Code.call (.createUser req.email hash req.name))
    match ← issueTokenPair user with
    | none => fail 500 "could not create account"
    | some tokens => return .tokens 201 tokens

def login (deps : Deps) (body : Option LoginRequest) : Handler Reply := do
  let req ← decodeBody body
  let user ← foundOr 401 "invalid email or password" (← Code.call (.userByEmail req.email))
  failIf (!deps.verifyPassword user.passwordHash req.password) 401 "invalid email or password"
  match ← issueTokenPair user with
  | none => fail 500 "could not log in"
  | some tokens => return .tokens 200 tokens

def refresh (deps : Deps) (body : Option RefreshRequest) : Handler Reply := do
  let req ← decodeBody body
  match ← parseToken deps req.refreshToken with
  | none => fail 401 "invalid refresh token"
  | some claims =>
    failIf (claims.type ≠ .refresh) 401 "invalid refresh token"
    match ← Code.call (.user claims.userID) with
    | .error .recordNotFound => fail 401 "invalid refresh token"
    | .error .other => fail 500 "could not refresh token"
    | .ok user =>
      match ← issueToken user.id .access accessTokenTTL with
      | none => fail 500 "could not refresh token"
      | some access => return .tokens 200 ⟨access, []⟩

/-- `strings.CutPrefix(header, "Bearer ")`. -/
def bearerToken (header : GoString) : Option GoString :=
  if (lit "Bearer ").isPrefixOf header then some (header.drop (lit "Bearer ").length) else none

/-- `RequireAuth`; the handler behind it gets the user. -/
def requireAuth (deps : Deps) (header : GoString) : Handler UUID :=
  match bearerToken header with
  | none | some [] => fail 401 "missing bearer token"
  | some tokenString => do
    match ← parseToken deps tokenString with
    | none => fail 401 "invalid or expired token"
    | some claims =>
      failIf (claims.type ≠ .access) 401 "invalid or expired token"
      return claims.userID

/-- A request to a handler behind `RequireAuth`. -/
def guarded (deps : Deps) (header : GoString) : Handler Reply := do
  let userID ← requireAuth deps header
  return .served userID

/-- The handshake of `ws`. -/
def ws (deps : Deps) (token : GoString) : Handler Reply := do
  failIf (token = []) 401 "missing token query parameter"
  match ← parseToken deps token with
  | none => fail 401 "invalid or expired token"
  | some claims =>
    failIf (claims.type ≠ .access) 401 "invalid or expired token"
    exitIf (!(← Code.call .acceptWebSocket)) .notUpgraded
    return .streaming claims.userID

/-! ## The machine -/

inductive Endpoint
  | signup (body : Option SignupRequest)
  | login (body : Option LoginRequest)
  | refresh (body : Option RefreshRequest)
  | guarded (header : GoString)
  | ws (token : GoString)
deriving DecidableEq

/-- A request with the number that `middleware.RequestID` gives it. -/
structure Request where
  requestID : ℕ
  endpoint : Endpoint
deriving DecidableEq

/-- The handler of a request. -/
def Endpoint.handler (deps : Deps) : Endpoint → Handler Reply
  | .signup body => Sessions.signup body
  | .login body => Sessions.login deps body
  | .refresh body => Sessions.refresh deps body
  | .guarded header => Sessions.guarded deps header
  | .ws token => Sessions.ws deps token

/-- The token that a request presents. -/
def Endpoint.token : Endpoint → Option GoString
  | .refresh body => body.map RefreshRequest.refreshToken
  | .guarded header => bearerToken header
  | .ws token => some token
  | _ => none

/-- A token cannot be forged: one that verifies was issued with the claims it verifies with. -/
def unforged (deps : Deps) (e : Endpoint) (s : Store) : Bool :=
  e.token.all fun text => (deps.verifyToken text).all fun claims => (text, claims) ∈ s.issued

/-- Requests can start at any time, each with a number of its own, and the clock is monotone. -/
def machine (deps : Deps) : Machine Store Request Reply AuthSvc.Oracle Time Stmt where
  handler q := (q.endpoint.handler deps).run
  launch q s :=
    if q.requestID = s.requests ∧ unforged deps q.endpoint s = true then
      some { s with requests := s.requests + 1 }
    else none
  exec := exec deps
  env now s := if s.now ≤ now then some { s with now := now } else none

/-- A configuration of the sessions. -/
abbrev Service := Config Store Request Reply AuthSvc.Oracle Time Stmt

/-- A step of the sessions. -/
abbrev ServiceStep := Step Store Request AuthSvc.Oracle Time Stmt

@[simp] theorem machine_exec {deps : Deps} {α : Type} {o : AuthSvc.Oracle} {e : Stmt α} {s : Store} :
    (machine deps).exec o e s = exec deps o e s := rfl

end Sessions

end Optiflow
