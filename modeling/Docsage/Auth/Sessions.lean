import Docsage.Auth.RateLimit
import Docsage.Library.Transition

/-! # Cookie sessions

Register, login, logout and the lookup of the current user. Hashing, the case
mapping of Unicode and the drawing of ids and tokens are parameters; a new
token is one that nobody has seen before.
-/

namespace Docsage
open Relational Transition

abbrev Cookies := List (String × String)

def sessionCookie : String := "docsage_session"

/-- `SESSION_TTL`, in microseconds. -/
def sessionTtl : ℤ := 30 * 24 * 60 * 60 * 1000000

def purgeExpiredSessions (s : Store) : Store :=
  { s with sessions := s.sessions.filter fun row => ¬ row.expiresAt ≤ s.now }

namespace Store

/-- `db.get(DbSession, token)`. -/
def session? (s : Store) (token : String) : Option Session := lookup Session.token token s.sessions

def deleteSession (s : Store) (token : String) : Store :=
  { s with sessions := delete Session.token token s.sessions }

def insertSession (s : Store) (row : Session) : Store := { s with sessions := s.sessions ++ [row] }

def insertUser (s : Store) (row : User) : Store := { s with users := s.users ++ [row] }

end Store

def getCurrentUser (s : Store) (cookies : Cookies) : Except HttpError User := do
  let token ← orRefuse (cookies.lookup sessionCookie) notAuthenticated
  refuse (token = "") notAuthenticated.status notAuthenticated.detail
  let sessionRow ← orRefuse (s.session? token) notAuthenticated
  refuse (sessionRow.expiresAt ≤ s.now) notAuthenticated.status notAuthenticated.detail
  orRefuse (s.user? sessionRow.userId) notAuthenticated

structure RegisterIn where
  email : String
  password : String
  displayName : String

structure LoginIn where
  email : String
  password : String

/-- `str.lower`, `hash_password` and `verify_password`. -/
structure Credentials where
  lower : String → String
  hashPassword : String → String
  verifyPassword : String → String → Bool

/-- The database and the process that serves the auth endpoints. -/
structure AuthState where
  store : Store
  limiter : SlidingWindowLimiter := {}
  monotonic : ℚ := 0
  /-- Tokens drawn or presented so far. -/
  seen : List String := []

/-- What register and login do at their end: purge, and a session for the user. -/
def openSession (s : Store) (userId : Uuid) (token : String) : Store :=
  (purgeExpiredSessions s).insertSession ⟨token, userId, s.now + sessionTtl⟩

/-- `register`; `userId` and `token` are drawn by the handler. -/
def register (env : Credentials) (σ : AuthState) (payload : RegisterIn) (clientIp : String)
    (userId : Uuid) (token : String) : Except AuthError User × AuthState :=
  let (retryAfter, limiter) :=
    σ.limiter.check ("register:" ++ clientIp) registerLimit windowSeconds σ.monotonic
  let σ := { σ with limiter }
  match refuseLimited retryAfter "too many registrations from this client" with
  | .error error => (.error error, σ)
  | .ok () =>
    let email := env.lower payload.email
    if σ.store.users.any (·.email = email) then
      (.error { status := 409, detail := "Email already registered" }, σ)
    else
      let user : User :=
        ⟨userId, email, env.hashPassword payload.password, payload.displayName, .user⟩
      (.ok user, { σ with store := openSession (σ.store.insertUser user) user.id token })

/-- `login`; only failed attempts count against the limit. -/
def login (env : Credentials) (σ : AuthState) (payload : LoginIn) (clientIp : String)
    (token : String) : Except AuthError User × AuthState :=
  let email := env.lower payload.email
  let key := "login:" ++ clientIp ++ ":" ++ email
  let (retryAfter, limiter) := σ.limiter.check key loginFailureLimit windowSeconds σ.monotonic
  let σ := { σ with limiter }
  match refuseLimited retryAfter "too many failed attempts" with
  | .error error => (.error error, σ)
  | .ok () =>
    match σ.store.users.find? (·.email = email) with
    | none => (.error { status := 401, detail := "Invalid credentials" }, σ)
    | some user =>
      if env.verifyPassword payload.password user.passwordHash then
        (.ok user, { σ with
          limiter := σ.limiter.clear key
          store := openSession σ.store user.id token })
      else (.error { status := 401, detail := "Invalid credentials" }, σ)

/-- `logout`. Its parameter `token: str | None = Cookie(...)` reads the cookie of that name. -/
def logout (s : Store) (cookies : Cookies) : Store :=
  match cookies.lookup "token" with
  | none => s
  | some token =>
    match s.session? token with
    | none => s
    | some sessionRow => s.deleteSession sessionRow.token

inductive AuthAction where
  | tick (elapsed : ℕ)
  | register (payload : RegisterIn) (clientIp : String) (userId : Uuid) (token : String)
  | login (payload : LoginIn) (clientIp : String) (token : String)
  | logout (cookies : Cookies)
  /-- Any other request; it may be authenticated. -/
  | request (cookies : Cookies)
  /-- The process restarts, and recovery purges. -/
  | restart

namespace AuthState

def sees (σ : AuthState) (cookies : Cookies) : AuthState :=
  { σ with seen := cookies.map (·.2) ++ σ.seen }

def step (env : Credentials) (σ : AuthState) : AuthAction → Option AuthState
  | .tick elapsed =>
    some { σ with
      store := { σ.store with now := σ.store.now + elapsed }
      monotonic := σ.monotonic + elapsed / 1000000 }
  | .register payload clientIp userId token =>
    if token ∈ σ.seen ∨ (σ.store.user? userId).isSome then none
    else some
      { (Docsage.register env σ payload clientIp userId token).2 with seen := token :: σ.seen }
  | .login payload clientIp token =>
    if token ∈ σ.seen then none
    else some { (Docsage.login env σ payload clientIp token).2 with seen := token :: σ.seen }
  | .logout cookies => some { σ.sees cookies with store := Docsage.logout σ.store cookies }
  | .request cookies => some (σ.sees cookies)
  | .restart => some { σ with store := purgeExpiredSessions σ.store, limiter := {} }

end AuthState

end Docsage
