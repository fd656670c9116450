import Docsage.Auth.Logout
import Docsage.System.World

/-! # Purging sessions

The auth endpoints with the purge as a parameter: as they are, and as they would
be if no session was ever deleted for its age. No list of requests tells the two
apart, because the purge and the check of a session agree on when it has expired.
-/

namespace Docsage
open Relational Transition

namespace Purging

variable (purge : Store → Store) (env : Credentials)

def openSession (s : Store) (userId : Uuid) (token : String) : Store :=
  (purge s).insertSession ⟨token, userId, s.now + sessionTtl⟩

def register (σ : AuthState) (payload : RegisterIn) (clientIp : String) (userId : Uuid)
    (token : String) : Except AuthError User × AuthState :=
  let (retryAfter, limiter) :=
    σ.limiter.check ("register:" ++ clientIp) registerLimit windowSeconds σ.monotonic
  let σ := { σ with limiter }
  match refuseLimited retryAfter "too many registrations from this client" with
  | .error error => (.error error, σ)
  | .ok () =>
    let email := env.lower payload.email
    if σ.store.users.any (·.email = email) then
      (.error { status := 409, detail := "Email already registered" }, σ)
    else
      let user : User :=
        ⟨userId, email, env.hashPassword payload.password, payload.displayName, .user⟩
      (.ok user, { σ with store := openSession purge (σ.store.insertUser user) user.id token })

def login (σ : AuthState) (payload : LoginIn) (clientIp : String) (token : String) :
    Except AuthError User × AuthState :=
  let email := env.lower payload.email
  let key := "login:" ++ clientIp ++ ":" ++ email
  let (retryAfter, limiter) := σ.limiter.check key loginFailureLimit windowSeconds σ.monotonic
  let σ := { σ with limiter }
  match refuseLimited retryAfter "too many failed attempts" with
  | .error error => (.error error, σ)
  | .ok () =>
    match σ.store.users.find? (·.email = email) with
    | none => (.error { status := 401, detail := "Invalid credentials" }, σ)
    | some user =>
      if env.verifyPassword payload.password user.passwordHash then
        (.ok user, { σ with
          limiter := σ.limiter.clear key
          store := openSession purge σ.store user.id token })
      else (.error { status := 401, detail := "Invalid credentials" }, σ)

def recoverOnStartup (s : Store) : Store := purge (failStaleDocuments s)

end Purging

/-! With the purge of the source they are the endpoints of the source. -/

theorem Purging.register_eq : Purging.register purgeExpiredSessions = Docsage.register := rfl

theorem Purging.login_eq : Purging.login purgeExpiredSessions = Docsage.login := rfl

theorem Purging.recoverOnStartup_eq :
    Purging.recoverOnStartup purgeExpiredSessions = Docsage.recoverOnStartup := rfl

/-- A request to the auth endpoints; register and login come with the token they draw. -/
inductive AuthRequest where
  | register (payload : RegisterIn) (clientIp : String) (userId : Uuid) (token : String)
  | login (payload : LoginIn) (clientIp : String) (token : String)
  | logout (cookies : Cookies)
  /-- `GET /api/auth/me`, as any request that is authenticated. -/
  | me (cookies : Cookies)
  /-- The process starts again. -/
  | startup

inductive AuthResponse where
  /-- The user, and the token of the session cookie. -/
  | signedIn (user : User) (token : String)
  | refused (error : AuthError)
  | loggedOut
  | current (user : Except HttpError User)
  | started

def signIn (token : String) : Except AuthError User → AuthResponse
  | .ok user => .signedIn user token
  | .error error => .refused error

def AuthState.after (σ : AuthState) (elapsed : ℕ) : AuthState :=
  { σ with
    store := { σ.store with now := σ.store.now + elapsed }
    monotonic := σ.monotonic + elapsed / 1000000 }

def answerAuth (purge : Store → Store) (env : Credentials) (σ : AuthState) :
    AuthRequest → AuthResponse × AuthState
  | .register payload clientIp userId token =>
    let p := Purging.register purge env σ payload clientIp userId token
    (signIn token p.1, p.2)
  | .login payload clientIp token =>
    let p := Purging.login purge env σ payload clientIp token
    (signIn token p.1, p.2)
  | .logout cookies => (.loggedOut, { σ with store := logout σ.store cookies })
  | .me cookies => (.current (getCurrentUser σ.store cookies), σ)
  | .startup =>
    (.started, { σ with store := Purging.recoverOnStartup purge σ.store, limiter := {} })

/-- A request that comes so long after the one before it. -/
structure TimedRequest where
  elapsed : ℕ
  request : AuthRequest

def serveAuth (purge : Store → Store) (env : Credentials) (σ : AuthState) (r : TimedRequest) :
    AuthResponse × AuthState :=
  answerAuth purge env (σ.after r.elapsed) r.request

def AuthRequest.drawn : AuthRequest → Option String
  | .register _ _ _ token | .login _ _ token => some token
  | .logout _ | .me _ | .startup => none

def drawnTokens (requests : List TimedRequest) : List String :=
  requests.filterMap (·.request.drawn)

def Store.withoutSessions (s : Store) : Store := { s with sessions := [] }

/-- The purged store has the sessions of the other one but expired ones. -/
structure Purged (s t : Store) : Prop where
  rest : s.withoutSessions = t.withoutSessions
  sublist : s.sessions.Sublist t.sessions
  live : ∀ row ∈ t.sessions, ¬ row.expiresAt ≤ t.now → row ∈ s.sessions
  unique : (t.sessions.map Session.token).Nodup

variable {s t : Store} {token : String}

namespace Purged

theorem now (purged : Purged s t) : s.now = t.now := by
  have h := congrArg Store.now purged.rest
  exact h

theorem users (purged : Purged s t) : s.users = t.users := by
  have h := congrArg Store.users purged.rest
  exact h

theorem session? (purged : Purged s t) (token : String) :
    s.session? token = t.session? token ∨
      s.session? token = none ∧ ∃ row, t.session? token = some row ∧ row.expiresAt ≤ t.now := by
  cases ht : t.session? token with
  | none =>
    left
    rw [Store.session?, lookup_none] at ht ⊢
    exact fun row hrow => ht row (purged.sublist.subset hrow)
  | some row =>
    obtain ⟨hrow, htoken⟩ := lookup_some ht
    cases hs : s.session? token with
    | none =>
      refine .inr ⟨rfl, row, rfl, ?_⟩
      by_contra hlive
      exact lookup_none.mp hs row (purged.live row hrow hlive) htoken
    | some row' =>
      obtain ⟨hrow', htoken'⟩ := lookup_some hs
      left
      rw [List.inj_on_of_nodup_map purged.unique (purged.sublist.subset hrow') hrow
        (htoken'.trans htoken.symm)]

theorem getCurrentUser (purged : Purged s t) (cookies : Cookies) :
    Docsage.getCurrentUser s cookies = Docsage.getCurrentUser t cookies := by
  have huser (userId : Uuid) : s.user? userId = t.user? userId := by
    rw [Store.user?, purged.users, Store.user?]
  unfold Docsage.getCurrentUser
  cases hcookie : cookies.lookup sessionCookie with
  | none => rfl
  | some token =>
    rw [orRefuse_bind_some rfl, orRefuse_bind_some rfl]
    by_cases hempty : token = ""
    · rw [refuse_bind_of hempty, refuse_bind_of hempty]
    rw [refuse_bind_of_not hempty, refuse_bind_of_not hempty]
    rcases purged.session? token with hsame | ⟨hnone, row, hrow, hexpired⟩
    · simp only [hsame, purged.now, huser]
    · rw [hnone, hrow, orRefuse_bind_some rfl, refuse_bind_of hexpired]
      rfl

theorem later (purged : Purged s t) (elapsed : ℕ) :
    Purged { s with now := s.now + elapsed } { t with now := t.now + elapsed } where
  rest := by
    have h := congrArg (fun u : Store => { u with now := u.now + elapsed }) purged.rest
    exact h
  sublist := purged.sublist
  live row hrow hlive := purged.live row hrow fun hexpired =>
    hlive (hexpired.trans (Int.le_add_of_nonneg_right (Int.natCast_nonneg _)))
  unique := purged.unique

theorem purge (purged : Purged s t) : Purged (purgeExpiredSessions s) t where
  rest := purged.rest
  sublist := List.filter_sublist.trans purged.sublist
  live row hrow hlive := by
    refine List.mem_filter.mpr ⟨purged.live row hrow hlive, ?_⟩
    simpa [purged.now] using hlive
  unique := purged.unique

theorem insertSession (purged : Purged s t) {row : Session}
    (fresh : row.token ∉ t.sessions.map Session.token) :
    Purged (s.insertSession row) (t.insertSession row) where
  rest := purged.rest
  sublist := purged.sublist.append (List.Sublist.refl _)
  live other hother hlive := by
    rcases List.mem_append.mp hother with hother | hother
    · exact List.mem_append_left _ (purged.live other hother hlive)
    · exact List.mem_append_right _ hother
  unique := by
    rw [Store.insertSession, List.map_append, List.map_singleton, List.nodup_append]
    refine ⟨purged.unique, List.nodup_singleton _, fun a ha b hb hab => fresh ?_⟩
    rw [← List.mem_singleton.mp hb, ← hab]
    exact ha

theorem insertUser (purged : Purged s t) (user : User) :
    Purged (s.insertUser user) (t.insertUser user) where
  rest := by
    have h := congrArg (fun u : Store => u.insertUser user) purged.rest
    exact h
  sublist := purged.sublist
  live := purged.live
  unique := purged.unique

theorem failStaleDocuments (purged : Purged s t) :
    Purged (Docsage.failStaleDocuments s) (Docsage.failStaleDocuments t) where
  rest := by
    have h := congrArg Docsage.failStaleDocuments purged.rest
    exact h
  sublist := purged.sublist
  live := purged.live
  unique := purged.unique

end Purged

/-- A logout deletes the sessions of its token, whether it finds one or not. -/
theorem logout_eq (s : Store) (cookies : Cookies) : logout s cookies =
    match cookies.lookup "token" with
    | none => s
    | some token => s.deleteSession token := by
  cases hcookie : cookies.lookup "token" with
  | none => simp only [logout, hcookie]
  | some token =>
    cases hrow : s.session? token with
    | none =>
      have hall : delete Session.token token s.sessions = s.sessions :=
        List.filter_eq_self.mpr fun row hmem => by simpa using lookup_none.mp hrow row hmem
      simp only [logout, hcookie, hrow, Store.deleteSession, hall]
    | some row => simp only [logout, hcookie, hrow, (lookup_some hrow).2]

theorem Purged.logout (purged : Purged s t) (cookies : Cookies) :
    Purged (Docsage.logout s cookies) (Docsage.logout t cookies) := by
  rw [logout_eq, logout_eq]
  split
  · exact purged
  · next token _ =>
    exact {
      rest := purged.rest
      sublist := purged.sublist.filter _
      live := fun row hrow hlive => by
        obtain ⟨hrow, hne⟩ := mem_delete.mp hrow
        exact mem_delete.mpr ⟨purged.live row hrow hlive, hne⟩
      unique := purged.unique.sublist (List.filter_sublist.map _) }

/-- The purging and the keeping endpoints stand alike, with these tokens in the kept sessions. -/
structure Alike (σ τ : AuthState) (tokens : List String) : Prop where
  limiter : σ.limiter = τ.limiter
  monotonic : σ.monotonic = τ.monotonic
  purged : Purged σ.store τ.store
  tokens : (τ.store.sessions.map Session.token).Sublist tokens

variable {σ τ : AuthState} {tokens : List String} {env : Credentials}

theorem Alike.after (alike : Alike σ τ tokens) (elapsed : ℕ) :
    Alike (σ.after elapsed) (τ.after elapsed) tokens where
  limiter := alike.limiter
  monotonic := by rw [AuthState.after, AuthState.after, alike.monotonic]
  purged := alike.purged.later elapsed
  tokens := alike.tokens

theorem Purged.openSession (purged : Purged s t) (userId : Uuid)
    (fresh : token ∉ t.sessions.map Session.token) :
    Purged (Purging.openSession purgeExpiredSessions s userId token)
      (Purging.openSession id t userId token) := by
  rw [Purging.openSession, Purging.openSession, purged.now]
  exact purged.purge.insertSession fresh

theorem tokens_openSession (t : Store) (userId : Uuid) (token : String) :
    (Purging.openSession id t userId token).sessions.map Session.token =
      t.sessions.map Session.token ++ [token] := by
  simp [Purging.openSession, Store.insertSession]

theorem Alike.register (alike : Alike σ τ tokens) (fresh : token ∉ tokens) (payload : RegisterIn)
    (clientIp : String) (userId : Uuid) :
    let p := Purging.register purgeExpiredSessions env σ payload clientIp userId token
    let q := Purging.register id env τ payload clientIp userId token
    p.1 = q.1 ∧ Alike p.2 q.2 (tokens ++ [token]) := by
  have hkept : (τ.store.sessions.map Session.token).Sublist (tokens ++ [token]) :=
    alike.tokens.trans (List.sublist_append_left _ _)
  simp only [Purging.register, alike.limiter, alike.monotonic, alike.purged.users]
  split
  · exact ⟨rfl, rfl, rfl, alike.purged, hkept⟩
  · split
    · exact ⟨rfl, rfl, rfl, alike.purged, hkept⟩
    · refine ⟨rfl, rfl, rfl, ?_, ?_⟩
      · exact (alike.purged.insertUser _).openSession _ fun h => fresh (alike.tokens.subset h)
      · rw [tokens_openSession]
        exact alike.tokens.append (List.Sublist.refl _)

theorem Alike.login (alike : Alike σ τ tokens) (fresh : token ∉ tokens) (payload : LoginIn)
    (clientIp : String) :
    let p := Purging.login purgeExpiredSessions env σ payload clientIp token
    let q := Purging.login id env τ payload clientIp token
    p.1 = q.1 ∧ Alike p.2 q.2 (tokens ++ [token]) := by
  have hkept : (τ.store.sessions.map Session.token).Sublist (tokens ++ [token]) :=
    alike.tokens.trans (List.sublist_append_left _ _)
  simp only [Purging.login, alike.limiter, alike.monotonic, alike.purged.users]
  split
  · exact ⟨rfl, rfl, rfl, alike.purged, hkept⟩
  · split
    · exact ⟨rfl, rfl, rfl, alike.purged, hkept⟩
    · split
      · refine ⟨rfl, rfl, rfl, ?_, ?_⟩
        · exact alike.purged.openSession _ fun h => fresh (alike.tokens.subset h)
        · rw [tokens_openSession]
          exact alike.tokens.append (List.Sublist.refl _)
      · exact ⟨rfl, rfl, rfl, alike.purged, hkept⟩

theorem Alike.answer (alike : Alike σ τ tokens) (request : AuthRequest)
    (fresh : ∀ token ∈ request.drawn, token ∉ tokens) :
    (answerAuth purgeExpiredSessions env σ request).1 = (answerAuth id env τ request).1 ∧
      Alike (answerAuth purgeExpiredSessions env σ request).2 (answerAuth id env τ request).2
        (tokens ++ request.drawn.toList) := by
  have hkept {l : List Session} (h : l.Sublist τ.store.sessions) :
      (l.map Session.token).Sublist (tokens ++ []) := by
    rw [List.append_nil]
    exact (h.map Session.token).trans alike.tokens
  cases request with
  | register payload clientIp userId token =>
    obtain ⟨hanswer, halike⟩ := alike.register (fresh token rfl) payload clientIp userId
    exact ⟨congrArg (signIn token) hanswer, halike⟩
  | login payload clientIp token =>
    obtain ⟨hanswer, halike⟩ := alike.login (fresh token rfl) payload clientIp
    exact ⟨congrArg (signIn token) hanswer, halike⟩
  | logout cookies =>
    exact ⟨rfl, alike.limiter, alike.monotonic, alike.purged.logout cookies,
      hkept (logout_sublist τ.store cookies).1⟩
  | me cookies =>
    exact ⟨congrArg AuthResponse.current (alike.purged.getCurrentUser cookies), alike.limiter,
      alike.monotonic, alike.purged, hkept (List.Sublist.refl _)⟩
  | startup =>
    exact ⟨rfl, rfl, alike.monotonic, alike.purged.failStaleDocuments.purge,
      hkept (List.Sublist.refl _)⟩

/-- The responses are those of a run that purges nothing, for requests of any kind at any times,
as long as the tokens drawn are new. -/
theorem purge_invisible (env : Credentials) (σ : AuthState) (requests : List TimedRequest)
    (fresh : (σ.store.sessions.map Session.token ++ drawnTokens requests).Nodup) :
    responses (serveAuth purgeExpiredSessions env) σ requests =
      responses (serveAuth id env) σ requests := by
  let R (σ τ : AuthState) (requests : List TimedRequest) : Prop :=
    ∃ tokens, Alike σ τ tokens ∧ (tokens ++ drawnTokens requests).Nodup
  refine responses_eq_of (R := R) ?_ ⟨_, ⟨rfl, rfl, ?_, List.Sublist.refl _⟩, fresh⟩
  · rintro σ τ r rest ⟨tokens, alike, fresh⟩
    have hsplit : tokens ++ drawnTokens (r :: rest) =
        (tokens ++ r.request.drawn.toList) ++ drawnTokens rest := by
      cases hdrawn : r.request.drawn <;> simp [drawnTokens, hdrawn]
    rw [hsplit] at fresh
    have hnew : ∀ token ∈ r.request.drawn, token ∉ tokens := by
      intro token hdrawn hmem
      have hboth := (List.nodup_append.mp fresh).1
      exact (List.nodup_append.mp hboth).2.2 token hmem token (Option.mem_toList.mpr hdrawn) rfl
    obtain ⟨hanswer, halike⟩ := (alike.after r.elapsed).answer r.request hnew
    exact ⟨hanswer, _, halike, fresh⟩
  · exact ⟨rfl, List.Sublist.refl _, fun _ h _ => h, (List.nodup_append.mp fresh).1⟩

namespace Browser

/-- The browser signs up, signs in again when its session has expired, and still sends the old
cookie once. -/
def returnsLater : List TimedRequest :=
  [⟨0, .register ⟨"bye@example.com", "correct-horse", "Bye"⟩ "127.0.0.1" 1 "k3Jx"⟩,
    ⟨31 * 24 * 60 * 60 * 1000000, .login ⟨"bye@example.com", "correct-horse"⟩ "127.0.0.1" "n7Qp"⟩,
    ⟨0, .me cookies⟩]

/-- The tokens in the sessions table after some requests. -/
def tokensAfter (purge : Store → Store) (requests : List TimedRequest) : List String :=
  (requests.foldl (fun σ r => (serveAuth purge plain σ r).2) start).store.sessions.map (·.token)

end Browser

theorem purge_invisible_later :
    Browser.tokensAfter purgeExpiredSessions Browser.returnsLater = ["n7Qp"] ∧
    Browser.tokensAfter id Browser.returnsLater = ["k3Jx", "n7Qp"] ∧
    responses (serveAuth purgeExpiredSessions Browser.plain) Browser.start Browser.returnsLater =
      responses (serveAuth id Browser.plain) Browser.start Browser.returnsLater :=
  ⟨by decide, by decide, purge_invisible _ _ _ (by decide)⟩

end Docsage
