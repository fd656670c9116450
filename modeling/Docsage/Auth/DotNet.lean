import Docsage.Auth.Logout
import Docsage.Auth.Windows
import Docsage.Text.Utf16
import Docsage.Text.Whitespace

/-! # The auth endpoints of the .NET backend

`SessionService` and the four endpoints over the same tables. The two processes
share the store and its clock; each has a limiter of its own.
-/

namespace Docsage
open Relational Text Transition

/-- The two processes that serve the auth endpoints over one database. -/
structure SharedAuth extends AuthState where
  rateLimiter : DotNet.RateLimiter := {}

namespace DotNet

/-- The body of a request; an absent field is null. -/
structure RegisterRequest where
  email : Option String
  password : Option String
  displayName : Option String

structure LoginRequest where
  email : Option String
  password : Option String

/-- `ToLowerInvariant`, and `IPasswordHasher`. -/
structure Credentials where
  toLowerInvariant : String → String
  hash : String → String
  verify : String → String → Bool

def registerLimit : ℕ := 10
def loginFailureLimit : ℕ := 10

/-- `DateTimeOffset.UtcNow` in ticks. -/
def utcNow (s : Store) : ℤ := s.now * 10

def sessionUser (s : Store) (token : String) : Option (User × Timestamp) :=
  (s.session? token).bind fun row => (s.user? row.userId).map fun user => (user, row.expiresAt)

/-- The session cookie, if there is one and it is not empty. -/
def cookieToken (cookies : Cookies) : Option String :=
  (cookies.lookup sessionCookie).filter (· ≠ "")

def resolveUser (s : Store) (cookies : Cookies) : Option User :=
  match cookieToken cookies with
  | none => none
  | some token =>
    match sessionUser s token with
    | none => none
    | some (user, expiresAt) => if expiresAt ≤ s.now then none else some user

/-- `StartSessionAsync`: its own purge, and the row. -/
def startSession (s : Store) (userId : Uuid) (token : String) : Store :=
  (purgeExpiredSessions s).insertSession ⟨token, userId, s.now + sessionTtl⟩

def endSession (s : Store) (cookies : Cookies) : Store :=
  match cookieToken cookies with
  | none => s
  | some token => s.deleteSession token

/-- `body.Email?.Trim().ToLowerInvariant() ?? ""`. -/
def normalizedEmail (env : Credentials) (email : Option String) : String :=
  match email with
  | none => ""
  | some email => env.toLowerInvariant (trim email)

def validation (detail : String) : AuthError := { status := 422, detail }

/-- `POST /register`; the id and the token are drawn by the handler. -/
def register (env : Credentials) (σ : SharedAuth) (body : RegisterRequest) (remoteIp : String)
    (userId : Uuid) (token : String) : Except AuthError User × SharedAuth :=
  let (wait, rateLimiter) :=
    σ.rateLimiter.check ("register:" ++ remoteIp) registerLimit (utcNow σ.store)
  let σ := { σ with rateLimiter }
  match refuseLimited wait "too many registrations from this client" with
  | .error error => (.error error, σ)
  | .ok () =>
    let email := normalizedEmail env body.email
    let password := body.password.getD ""
    let displayName := body.displayName.getD ""
    if '@' ∉ email.toList ∨ (utf16 email).length < 3 then
      (.error (validation "A valid email is required"), σ)
    else if isNullOrWhiteSpace body.password = true ∨ (utf16 password).length < 8 then
      (.error (validation "Password must be at least 8 characters"), σ)
    else if isNullOrWhiteSpace body.displayName then
      (.error (validation "display_name is required"), σ)
    else if σ.store.users.any (·.email = email) then
      (.error { status := 409, detail := "Email already registered" }, σ)
    else
      let user : User := ⟨userId, email, env.hash password, trim displayName, .user⟩
      (.ok user, { σ with store := startSession (σ.store.insertUser user) user.id token })

def login (env : Credentials) (σ : SharedAuth) (body : LoginRequest) (remoteIp : String)
    (token : String) : Except AuthError User × SharedAuth :=
  let email := normalizedEmail env body.email
  let key := "login:" ++ remoteIp ++ ":" ++ email
  let (wait, rateLimiter) := σ.rateLimiter.check key loginFailureLimit (utcNow σ.store)
  let σ := { σ with rateLimiter }
  match refuseLimited wait "too many failed attempts" with
  | .error error => (.error error, σ)
  | .ok () =>
    match σ.store.users.find? (·.email = email) with
    | none => (.error { status := 401, detail := "Invalid credentials" }, σ)
    | some user =>
      if env.verify user.passwordHash (body.password.getD "") then
        (.ok user, { σ with
          rateLimiter := σ.rateLimiter.clear key
          store := startSession σ.store user.id token })
      else (.error { status := 401, detail := "Invalid credentials" }, σ)

inductive AuthAction where
  | register (body : RegisterRequest) (remoteIp : String) (userId : Uuid) (token : String)
  | login (body : LoginRequest) (remoteIp : String) (token : String)
  | logout (cookies : Cookies)
  /-- Any other request; it may be authenticated. -/
  | request (cookies : Cookies)
  /-- The process restarts, and its sweep purges. -/
  | restart

end DotNet

/-- How the two processes lower an address, hash and verify. -/
structure SharedCredentials where
  fastApi : Credentials
  dotNet : DotNet.Credentials

inductive SharedAction where
  | fastApi (a : AuthAction)
  | dotNet (a : DotNet.AuthAction)

namespace SharedAuth

def withAuth (σ : SharedAuth) (τ : AuthState) : SharedAuth := { σ with toAuthState := τ }

def stepDotNet (env : DotNet.Credentials) (σ : SharedAuth) : DotNet.AuthAction → Option SharedAuth
  | .register body remoteIp userId token =>
    if token ∈ σ.seen ∨ (σ.store.user? userId).isSome then none
    else some
      { (DotNet.register env σ body remoteIp userId token).2 with seen := token :: σ.seen }
  | .login body remoteIp token =>
    if token ∈ σ.seen then none
    else some { (DotNet.login env σ body remoteIp token).2 with seen := token :: σ.seen }
  | .logout cookies =>
    some (σ.withAuth
      { σ.toAuthState.sees cookies with store := DotNet.endSession σ.store cookies })
  | .request cookies => some (σ.withAuth (σ.toAuthState.sees cookies))
  | .restart => some { σ with store := purgeExpiredSessions σ.store, rateLimiter := {} }

/-- A step of either process. Time passes in the FastAPI steps. -/
def step (env : SharedCredentials) (σ : SharedAuth) : SharedAction → Option SharedAuth
  | .fastApi a => (σ.toAuthState.step env.fastApi a).map σ.withAuth
  | .dotNet a => σ.stepDotNet env.dotNet a

end SharedAuth

variable {env : DotNet.Credentials} {σ σ' : SharedAuth} {a : DotNet.AuthAction} {token : String}

theorem DotNet.endSession_sublist (s : Store) (cookies : Cookies) :
    (DotNet.endSession s cookies).sessions.Sublist s.sessions ∧
      (DotNet.endSession s cookies).users = s.users ∧
      (DotNet.endSession s cookies).now = s.now := by
  unfold DotNet.endSession
  split
  · exact ⟨List.Sublist.refl _, rfl, rfl⟩
  · exact ⟨List.filter_sublist, rfl, rfl⟩

theorem SharedAuth.stepDotNet_sessions (h : σ.stepDotNet env a = some σ') :
    SessionsStep σ.toAuthState σ'.toAuthState := by
  cases a with
  | register body remoteIp userId token =>
    obtain ⟨hfresh, h⟩ := Option.ite_none_left_eq_some.mp h
    push Not at hfresh
    obtain rfl := Option.some.inj h
    unfold DotNet.register
    simp only
    split
    · exact .drop le_rfl rfl (List.Sublist.refl _) fun _ h => List.mem_cons_of_mem _ h
    split_ifs
    · exact .drop le_rfl rfl (List.Sublist.refl _) fun _ h => List.mem_cons_of_mem _ h
    · exact .drop le_rfl rfl (List.Sublist.refl _) fun _ h => List.mem_cons_of_mem _ h
    · exact .drop le_rfl rfl (List.Sublist.refl _) fun _ h => List.mem_cons_of_mem _ h
    · exact .drop le_rfl rfl (List.Sublist.refl _) fun _ h => List.mem_cons_of_mem _ h
    · exact .open (s := σ.store.insertUser _) le_rfl rfl rfl (fun _ => user?_insertUser)
        (user?_insertUser_self _ _) hfresh.1 rfl
  | login body remoteIp token =>
    obtain ⟨hfresh, h⟩ := Option.ite_none_left_eq_some.mp h
    obtain rfl := Option.some.inj h
    unfold DotNet.login
    simp only
    split
    · exact .drop le_rfl rfl (List.Sublist.refl _) fun _ h => List.mem_cons_of_mem _ h
    split
    · exact .drop le_rfl rfl (List.Sublist.refl _) fun _ h => List.mem_cons_of_mem _ h
    next user huser =>
    split
    · exact .open le_rfl rfl rfl (fun _ h => h) (user?_of_mem (List.mem_of_find?_eq_some huser))
        hfresh rfl
    · exact .drop le_rfl rfl (List.Sublist.refl _) fun _ h => List.mem_cons_of_mem _ h
  | logout cookies =>
    obtain rfl := Option.some.inj h
    obtain ⟨hsub, husers, hnow⟩ := DotNet.endSession_sublist σ.store cookies
    exact .drop hnow.ge husers hsub fun _ h => List.mem_append_right _ h
  | request cookies =>
    obtain rfl := Option.some.inj h
    exact .drop le_rfl rfl (List.Sublist.refl _) fun _ h => List.mem_append_right _ h
  | restart =>
    obtain rfl := Option.some.inj h
    exact .drop le_rfl rfl List.filter_sublist fun _ h => h

theorem SharedAuth.step_sessions {env : SharedCredentials} {a : SharedAction}
    (h : σ.step env a = some σ') : SessionsStep σ.toAuthState σ'.toAuthState := by
  cases a with
  | fastApi a =>
    obtain ⟨τ, hτ, rfl⟩ := Option.map_eq_some_iff.mp h
    exact AuthState.step_sessions hτ
  | dotNet a => exact SharedAuth.stepDotNet_sessions h

/-- Both backends know the same user by a cookie, in every store. -/
theorem getCurrentUser_eq_resolveUser (s : Store) (cookies : Cookies) :
    getCurrentUser s cookies =
      (DotNet.resolveUser s cookies).elim (.error notAuthenticated) .ok := by
  rw [getCurrentUser, DotNet.resolveUser, DotNet.cookieToken]
  cases cookies.lookup sessionCookie with
  | none => rfl
  | some token =>
    rw [orRefuse_bind_some rfl]
    by_cases hempty : token = ""
    · rw [refuse_bind_of hempty, Option.filter_some_neg (by simpa using hempty)]
      rfl
    rw [refuse_bind_of_not hempty, Option.filter_some_pos (by simpa using hempty)]
    simp only [DotNet.sessionUser]
    cases s.session? token with
    | none => rfl
    | some row =>
      rw [orRefuse_bind_some rfl, Option.bind_some]
      by_cases hexpired : row.expiresAt ≤ s.now
      · rw [refuse_bind_of hexpired]
        cases s.user? row.userId <;> simp [hexpired]
      · rw [refuse_bind_of_not hexpired]
        cases s.user? row.userId <;> simp [hexpired, orRefuse]

namespace Browser

def credentials : SharedCredentials where
  fastApi := plain
  dotNet := { toLowerInvariant := id, hash := id, verify := fun hash password => hash = password }

def shared : SharedAuth := { toAuthState := start }

end Browser
end Docsage
