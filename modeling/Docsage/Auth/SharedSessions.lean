import Docsage.Auth.DotNet
import Docsage.Library.Leases

/-! # One sessions table for two backends

What the table is for: a register of who was signed in under which token and
until when, which a logout takes a token out of. Both backends purge rows when
they like, and both answer a cookie as the register does.
-/

namespace Docsage
open Leases Relational Transition

/-- The sessions table as a table of leases. -/
def sessionColumns : Columns Session String Uuid Timestamp where
  key := Session.token
  owner := Session.userId
  stop := Session.expiresAt

abbrev SessionRegister := Register String Uuid Timestamp

def SessionRegister.recordAny (r : SessionRegister) :
    Option (Event String Uuid Timestamp) → SessionRegister
  | none => r
  | some e => r.record e

/-- A sign-in is entered under its token for `SESSION_TTL`. -/
def granted (now : Timestamp) (token : String) :
    Except AuthError User → Option (Event String Uuid Timestamp)
  | .ok user => some (.grant token user.id (now + sessionTtl))
  | .error _ => none

namespace SharedAuth

/-- What a request enters in the register, by the answer it gets. The FastAPI logout reads the
cookie named `token`. -/
def event (env : SharedCredentials) (σ : SharedAuth) :
    SharedAction → Option (Event String Uuid Timestamp)
  | .fastApi (.register payload clientIp userId token) =>
    granted σ.store.now token
      (Docsage.register env.fastApi σ.toAuthState payload clientIp userId token).1
  | .fastApi (.login payload clientIp token) =>
    granted σ.store.now token (Docsage.login env.fastApi σ.toAuthState payload clientIp token).1
  | .fastApi (.logout cookies) => (cookies.lookup "token").map .revoke
  | .dotNet (.register body remoteIp userId token) =>
    granted σ.store.now token (DotNet.register env.dotNet σ body remoteIp userId token).1
  | .dotNet (.login body remoteIp token) =>
    granted σ.store.now token (DotNet.login env.dotNet σ body remoteIp token).1
  | .dotNet (.logout cookies) => (DotNet.cookieToken cookies).map .revoke
  | _ => none

def register (env : SharedCredentials) :
    SharedAuth → List SharedAction → SessionRegister → SessionRegister
  | _, [], r => r
  | σ, a :: actions, r =>
    match σ.step env a with
    | none => r
    | some σ' => register env σ' actions (r.recordAny (σ.event env a))

structure Reflects (σ : SharedAuth) (r : SessionRegister) : Prop where
  sound : σ.toAuthState.Sound
  keeps : Keeps sessionColumns σ.store.sessions r σ.store.now

end SharedAuth

variable {env : SharedCredentials} {σ σ' : SharedAuth} {r : SessionRegister} {token : String}
  {s : Store}

theorem keeps_purge (keeps : Keeps sessionColumns s.sessions r s.now) :
    Keeps sessionColumns (purgeExpiredSessions s).sessions r s.now :=
  keeps.filter fun row hrow => by simpa [sessionColumns] using hrow

theorem keeps_open (keeps : Keeps sessionColumns s.sessions r s.now) (userId : Uuid)
    (fresh : ∀ row ∈ s.sessions, row.token ≠ token) :
    Keeps sessionColumns (openSession s userId token).sessions
      (r.record (.grant token userId (s.now + sessionTtl))) s.now := by
  let new : Session := ⟨token, userId, s.now + sessionTtl⟩
  have hnew : sessionColumns.key new ∉
      (purgeExpiredSessions s).sessions.map sessionColumns.key := by
    intro hmem
    obtain ⟨row, hrow, htoken⟩ := List.mem_map.mp hmem
    exact fresh row (List.mem_of_mem_filter hrow) htoken
  exact (keeps_purge keeps).grant hnew

theorem keeps_logout (keeps : Keeps sessionColumns s.sessions r s.now) (cookies : Cookies) :
    Keeps sessionColumns (logout s cookies).sessions
      (r.recordAny ((cookies.lookup "token").map .revoke)) s.now := by
  cases hcookie : cookies.lookup "token" with
  | none =>
    rw [logout, hcookie]
    exact keeps
  | some token =>
    have hrevoked := keeps.revoke token
    have hsame : (logout s cookies).sessions = delete Session.token token s.sessions := by
      rw [logout, hcookie]
      simp only
      split
      · next hnone =>
        exact (List.filter_eq_self.mpr fun row hrow => by
          simpa using lookup_none.mp hnone row hrow).symm
      · next row hrow => rw [(lookup_some hrow).2, Store.deleteSession]
    rw [hsame]
    exact hrevoked

theorem keeps_endSession (keeps : Keeps sessionColumns s.sessions r s.now) (cookies : Cookies) :
    Keeps sessionColumns (DotNet.endSession s cookies).sessions
      (r.recordAny ((DotNet.cookieToken cookies).map .revoke)) s.now := by
  rw [DotNet.endSession]
  cases DotNet.cookieToken cookies with
  | none => exact keeps
  | some token => exact keeps.revoke token

namespace SharedAuth

theorem Reflects.unseen (reflects : σ.Reflects r) (fresh : token ∉ σ.seen) :
    ∀ row ∈ σ.store.sessions, row.token ≠ token := by
  rintro row hrow rfl
  exact fresh (reflects.sound.seen row hrow)

theorem keeps_fastApi {a : AuthAction} {τ : AuthState} (reflects : σ.Reflects r)
    (h : σ.toAuthState.step env.fastApi a = some τ) :
    Keeps sessionColumns τ.store.sessions (r.recordAny (σ.event env (.fastApi a)))
      τ.store.now := by
  have keeps := reflects.keeps
  cases a with
  | tick elapsed =>
    obtain rfl := Option.some.inj h
    exact keeps.later (Int.le_add_of_nonneg_right (Int.natCast_nonneg _))
  | register payload clientIp userId token =>
    obtain ⟨hfresh, h⟩ := Option.ite_none_left_eq_some.mp h
    push Not at hfresh
    obtain rfl := Option.some.inj h
    rw [event]
    unfold Docsage.register
    simp only
    split
    · exact keeps
    split
    · exact keeps
    · exact keeps_open (s := σ.store.insertUser _) keeps userId (reflects.unseen hfresh.1)
  | login payload clientIp token =>
    obtain ⟨hfresh, h⟩ := Option.ite_none_left_eq_some.mp h
    obtain rfl := Option.some.inj h
    rw [event]
    unfold Docsage.login
    simp only
    split
    · exact keeps
    split
    · exact keeps
    next user huser =>
    split
    · exact keeps_open keeps user.id (reflects.unseen hfresh)
    · exact keeps
  | logout cookies =>
    obtain rfl := Option.some.inj h
    change Keeps _ _ _ (Docsage.logout σ.store cookies).now
    rw [(logout_sublist σ.store cookies).2.2]
    exact keeps_logout keeps cookies
  | request cookies =>
    obtain rfl := Option.some.inj h
    exact keeps
  | restart =>
    obtain rfl := Option.some.inj h
    exact keeps_purge keeps

theorem keeps_dotNet {a : DotNet.AuthAction} (reflects : σ.Reflects r)
    (h : σ.stepDotNet env.dotNet a = some σ') :
    Keeps sessionColumns σ'.store.sessions (r.recordAny (σ.event env (.dotNet a)))
      σ'.store.now := by
  have keeps := reflects.keeps
  cases a with
  | register body remoteIp userId token =>
    obtain ⟨hfresh, h⟩ := Option.ite_none_left_eq_some.mp h
    push Not at hfresh
    obtain rfl := Option.some.inj h
    rw [event]
    unfold DotNet.register
    simp only
    split
    · exact keeps
    split_ifs
    · exact keeps
    · exact keeps
    · exact keeps
    · exact keeps
    · exact keeps_open (s := σ.store.insertUser _) keeps userId (reflects.unseen hfresh.1)
  | login body remoteIp token =>
    obtain ⟨hfresh, h⟩ := Option.ite_none_left_eq_some.mp h
    obtain rfl := Option.some.inj h
    rw [event]
    unfold DotNet.login
    simp only
    split
    · exact keeps
    split
    · exact keeps
    next user huser =>
    split
    · exact keeps_open keeps user.id (reflects.unseen hfresh)
    · exact keeps
  | logout cookies =>
    obtain rfl := Option.some.inj h
    change Keeps _ _ _ (DotNet.endSession σ.store cookies).now
    rw [(DotNet.endSession_sublist σ.store cookies).2.2]
    exact keeps_endSession keeps cookies
  | request cookies =>
    obtain rfl := Option.some.inj h
    exact keeps
  | restart =>
    obtain rfl := Option.some.inj h
    exact keeps_purge keeps

theorem Reflects.step {a : SharedAction} (reflects : σ.Reflects r)
    (h : σ.step env a = some σ') : σ'.Reflects (r.recordAny (σ.event env a)) := by
  refine ⟨reflects.sound.kept (step_sessions h), ?_⟩
  cases a with
  | fastApi a =>
    obtain ⟨τ, hτ, rfl⟩ := Option.map_eq_some_iff.mp h
    exact keeps_fastApi reflects hτ
  | dotNet a => exact keeps_dotNet reflects h

theorem Reflects.run {actions : List SharedAction} (reflects : σ.Reflects r)
    (done : execute (SharedAuth.step env) σ actions = some σ') :
    σ'.Reflects (register env σ actions r) := by
  induction actions generalizing σ r with
  | nil =>
    obtain rfl := Option.some.inj done
    exact reflects
  | cons a actions ih =>
    obtain ⟨τ, hτ, hrest⟩ := Option.bind_eq_some_iff.mp done
    rw [register, hτ]
    exact ih (reflects.step hτ) hrest

/-- The user whom the register knows by the session cookie. -/
def knownUser (σ : SharedAuth) (r : SessionRegister) (cookies : Cookies) : Option User :=
  (DotNet.cookieToken cookies).bind fun token =>
    (r.holder σ.store.now token).bind σ.store.user?

theorem Reflects.holder (reflects : σ.Reflects r) (token : String) :
    ((σ.store.session? token).bind fun row =>
      if row.expiresAt ≤ σ.store.now then none else some row.userId) =
        r.holder σ.store.now token :=
  reflects.keeps.holder token

theorem Reflects.resolveUser_eq (reflects : σ.Reflects r) (cookies : Cookies) :
    DotNet.resolveUser σ.store cookies = σ.knownUser r cookies := by
  rw [DotNet.resolveUser, knownUser]
  cases DotNet.cookieToken cookies with
  | none => rfl
  | some token =>
    rw [Option.bind_some, ← reflects.holder]
    simp only [DotNet.sessionUser]
    cases σ.store.session? token with
    | none => rfl
    | some row =>
      rw [Option.bind_some, Option.bind_some]
      by_cases hexpired : row.expiresAt ≤ σ.store.now
      · cases σ.store.user? row.userId <;> simp [hexpired]
      · cases huser : σ.store.user? row.userId <;> simp [hexpired, huser]

theorem Reflects.owned (reflects : σ.Reflects r) {userId : Uuid}
    (h : r.holder σ.store.now token = some userId) : (σ.store.user? userId).isSome := by
  rw [← reflects.holder] at h
  obtain ⟨row, hrow, h⟩ := Option.bind_eq_some_iff.mp h
  obtain ⟨-, h⟩ := Option.ite_none_left_eq_some.mp h
  obtain rfl := Option.some.inj h
  exact reflects.sound.owned row (lookup_some hrow).1

end SharedAuth

/-- Both backends know by a cookie the user whom the register knows. -/
structure SharedAuth.AnswersAs (σ : SharedAuth) (r : SessionRegister) : Prop where
  fastApi : ∀ cookies, getCurrentUser σ.store cookies =
    (σ.knownUser r cookies).elim (.error notAuthenticated) .ok
  dotNet : ∀ cookies, DotNet.resolveUser σ.store cookies = σ.knownUser r cookies
  owned : ∀ token userId, r.holder σ.store.now token = some userId →
    (σ.store.user? userId).isSome

/-- After any requests to the two backends, a cookie is worth in both what the register says: the
user who was last signed in under it, for 30 days, unless it was revoked. -/
theorem sessions_keep_register {σ₀ : SharedAuth} (initial : σ₀.toAuthState.Initial)
    {actions : List SharedAction} (done : execute (SharedAuth.step env) σ₀ actions = some σ) :
    σ.AnswersAs (SharedAuth.register env σ₀ actions fun _ => none) := by
  have start : σ₀.Reflects fun _ => none := by
    refine ⟨initial.sound, ?_⟩
    rw [initial.sessions]
    exact .nil _ _
  have reflects := start.run done
  refine ⟨fun cookies => ?_, reflects.resolveUser_eq, fun token userId => reflects.owned⟩
  rw [getCurrentUser_eq_resolveUser, reflects.resolveUser_eq]

namespace Browser

/-- The browser signs up with FastAPI, signs in with .NET in a second window, and out there. -/
def twoWindows : List SharedAction :=
  [.fastApi signUp,
    .dotNet (.login ⟨some "bye@example.com", some "correct-horse"⟩ "127.0.0.1" "9f3c"),
    .dotNet (.logout [(sessionCookie, "9f3c")])]

end Browser

theorem sessions_keep_register_twoWindows : ∃ σ,
    execute (SharedAuth.step Browser.credentials) Browser.shared Browser.twoWindows = some σ ∧
    σ.AnswersAs (SharedAuth.register Browser.credentials Browser.shared Browser.twoWindows
      fun _ => none) :=
  ⟨_, rfl, sessions_keep_register Browser.start_initial rfl⟩

def anySharedAction : SharedAuth → SharedAction → Prop := fun _ _ => True

/-- The .NET logout revokes the token of the session cookie in both backends: in every run from
there on, neither knows a user by it. -/
theorem DotNet.logout_revokes {σ₀ σ₁ : SharedAuth} (initial : σ₀.toAuthState.Initial)
    (before : Run (SharedAuth.step env) anySharedAction σ₀ σ) {cookies : Cookies}
    (carries : cookies.lookup sessionCookie = some token)
    (taken : σ.step env (.dotNet (.logout cookies)) = some σ₁)
    (after : Run (SharedAuth.step env) anySharedAction σ₁ σ') {request : Cookies}
    (again : request.lookup sessionCookie = some token) :
    getCurrentUser σ'.store request = .error notAuthenticated ∧
      DotNet.resolveUser σ'.store request = none := by
  have sound : σ.toAuthState.Sound :=
    before.invariant (I := fun σ => σ.toAuthState.Sound) initial.sound
      fun _ _ _ sound _ taken => sound.kept (SharedAuth.step_sessions taken)
  have sound₁ : σ₁.toAuthState.Sound := sound.kept (SharedAuth.step_sessions taken)
  have sound' : σ'.toAuthState.Sound :=
    after.invariant (I := fun σ => σ.toAuthState.Sound) sound₁
      fun _ _ _ sound _ taken => sound.kept (SharedAuth.step_sessions taken)
  have revoked : σ₁.toAuthState.Revoked token := by
    obtain rfl := Option.some.inj taken
    refine ⟨List.mem_append_left _ (mem_of_lookup carries), fun hne row hrow htoken => ?_⟩
    have htaken : DotNet.cookieToken cookies = some token := by
      rw [DotNet.cookieToken, carries, Option.filter_some_pos (by simpa using hne)]
    change row ∈ (DotNet.endSession σ.store cookies).sessions at hrow
    rw [DotNet.endSession, htaken] at hrow
    exact absurd htoken (mem_delete.mp hrow).2
  have revoked' : σ'.toAuthState.Revoked token :=
    after.invariant (I := fun σ => σ.toAuthState.Revoked token) revoked
      fun _ _ _ revoked _ taken => revoked.kept (SharedAuth.step_sessions taken)
  have hnone : Unauthenticated σ'.store request :=
    (unauthenticated_iff sound' again).mpr revoked'.2
  refine ⟨hnone, ?_⟩
  rw [Unauthenticated, getCurrentUser_eq_resolveUser] at hnone
  cases huser : DotNet.resolveUser σ'.store request with
  | none => rfl
  | some user =>
    rw [huser] at hnone
    cases hnone

/-- After the logout the browser tries the old token, signs in again and outlives a restart. -/
def Browser.later : List SharedAction :=
  [.fastApi (.request [(sessionCookie, "9f3c")]),
    .dotNet (.login ⟨some "bye@example.com", some "correct-horse"⟩ "127.0.0.1" "77aa"),
    .dotNet .restart]

theorem DotNet.logout_revokes_twoWindows : ∃ σ σ₁ σ',
    execute (SharedAuth.step Browser.credentials) Browser.shared (Browser.twoWindows.take 2) =
      some σ ∧
    (DotNet.resolveUser σ.store [(sessionCookie, "9f3c")]).isSome = true ∧
    σ.step Browser.credentials (.dotNet (.logout [(sessionCookie, "9f3c")])) = some σ₁ ∧
    execute (SharedAuth.step Browser.credentials) σ₁ Browser.later = some σ' ∧
    (DotNet.resolveUser σ'.store [(sessionCookie, "77aa")]).isSome = true ∧
    getCurrentUser σ'.store [(sessionCookie, "9f3c")] = .error notAuthenticated ∧
      DotNet.resolveUser σ'.store [(sessionCookie, "9f3c")] = none := by
  have hruns : ∃ σ σ₁ σ',
      execute (SharedAuth.step Browser.credentials) Browser.shared (Browser.twoWindows.take 2) =
        some σ ∧
      (DotNet.resolveUser σ.store [(sessionCookie, "9f3c")]).isSome = true ∧
      σ.step Browser.credentials (.dotNet (.logout [(sessionCookie, "9f3c")])) = some σ₁ ∧
      execute (SharedAuth.step Browser.credentials) σ₁ Browser.later = some σ' ∧
      (DotNet.resolveUser σ'.store [(sessionCookie, "77aa")]).isSome = true :=
    ⟨_, _, _, rfl, by decide, rfl, rfl, by decide⟩
  obtain ⟨σ, σ₁, σ', hbefore, hknown, hlogout, hafter, hagain⟩ := hruns
  exact ⟨σ, σ₁, σ', hbefore, hknown, hlogout, hafter, hagain,
    DotNet.logout_revokes Browser.start_initial (.of_execute (obeys_true _ _) hbefore) rfl hlogout
      (.of_execute (obeys_true _ _) hafter) rfl⟩

end Docsage
