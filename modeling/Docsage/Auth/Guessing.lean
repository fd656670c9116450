import Docsage.Auth.DotNet

/-! # How often a password can be guessed

Register and login ask the limiter before they look at anything, and only a login
that succeeds clears its key. So the answers of each process, since it started, are
those of a sliding window: refused where the last minute is full, and never more
than ten passwords tried in a minute between two successes.
-/

namespace Docsage
open SlidingWindow Transition

/-- The answered attempts of a process in order: let through to the check of the password or not,
and a clear where the key is cleared. -/
abbrev AttemptLog (T : Type) := List (Event String T Bool)

def attempted {T : Type} (key : String) (now : T) (clears : Bool) :
    Except AuthError User → AttemptLog T
  | .ok _ => .check key now true :: if clears then [.clear key] else []
  | .error error => [.check key now (error.status ≠ 429)]

/-- The logs of the two processes, each since its last start. -/
structure AttemptLogs where
  fastApi : AttemptLog ℚ := []
  dotNet : AttemptLog ℤ := []

namespace SharedAuth

def logFastApi (env : Credentials) (σ : SharedAuth) (log : AttemptLog ℚ) :
    AuthAction → AttemptLog ℚ
  | .register payload clientIp userId token =>
    log ++ attempted ("register:" ++ clientIp) σ.monotonic false
      (Docsage.register env σ.toAuthState payload clientIp userId token).1
  | .login payload clientIp token =>
    log ++ attempted ("login:" ++ clientIp ++ ":" ++ env.lower payload.email) σ.monotonic true
      (Docsage.login env σ.toAuthState payload clientIp token).1
  | .restart => []
  | _ => log

def logDotNet (env : DotNet.Credentials) (σ : SharedAuth) (log : AttemptLog ℤ) :
    DotNet.AuthAction → AttemptLog ℤ
  | .register body remoteIp userId token =>
    log ++ attempted ("register:" ++ remoteIp) (DotNet.utcNow σ.store) false
      (DotNet.register env σ body remoteIp userId token).1
  | .login body remoteIp token =>
    log ++ attempted ("login:" ++ remoteIp ++ ":" ++ DotNet.normalizedEmail env body.email)
      (DotNet.utcNow σ.store) true (DotNet.login env σ body remoteIp token).1
  | .restart => []
  | _ => log

def logAttempt (env : SharedCredentials) (σ : SharedAuth) (logs : AttemptLogs) :
    SharedAction → AttemptLogs
  | .fastApi a => { logs with fastApi := σ.logFastApi env.fastApi logs.fastApi a }
  | .dotNet a => { logs with dotNet := σ.logDotNet env.dotNet logs.dotNet a }

def attempts (env : SharedCredentials) :
    SharedAuth → List SharedAction → AttemptLogs → AttemptLogs
  | _, [], logs => logs
  | σ, a :: actions, logs =>
    match σ.step env a with
    | none => logs
    | some σ' => attempts env σ' actions (σ.logAttempt env logs a)

end SharedAuth

def attemptLimit : String → ℕ := fun _ => loginFailureLimit

theorem attemptLimit_pos (key : String) : 1 ≤ attemptLimit key := by
  rw [attemptLimit, loginFailureLimit]
  decide

/-- A log that a limiter with these hits goes on from. -/
structure Limited {T : Type} [LinearOrder T] [AddCommGroup T] (window now : T) (log : AttemptLog T)
    (hits : String → List T) : Prop where
  exact : Exact window attemptLimit log
  invariant : Invariant window attemptLimit now log hits

variable {env : SharedCredentials} {σ σ' : SharedAuth} {logs : AttemptLogs} {key : String}
  {answer : Except AuthError User}

section

variable {T : Type} [LinearOrder T] [AddCommGroup T] {window now now' : T} {log : AttemptLog T}
  {hits : String → List T}

theorem Limited.start (window now : T) : Limited window now [] fun _ => [] :=
  ⟨.nil _ _, .nil _ _ _⟩

theorem Limited.clear (limited : Limited window now log hits) (key : String) :
    Limited window now (log ++ [.clear key]) (Function.update hits key []) :=
  ⟨limited.exact.clear key, limited.invariant.clear key⟩

variable [IsOrderedAddMonoid T]

theorem Limited.later (limited : Limited window now log hits) (le : now ≤ now') :
    Limited window now' log hits :=
  ⟨limited.exact, limited.invariant.later le⟩

theorem Limited.check (limited : Limited window now log hits) (key : String) :
    Limited window now
      (log ++ [.check key now ((pruning window attemptLimit).check hits key now).1])
      ((pruning window attemptLimit).check hits key now).2 := by
  obtain ⟨decided, invariant⟩ := limited.invariant.check key
  exact ⟨limited.exact.check decided, invariant⟩

end

theorem attempted_of_error {T : Type} {now : T} {clears : Bool} {error : AuthError}
    (h : error.status ≠ 429) :
    attempted key now clears (.error error) = [.check key now true] := by
  rw [attempted, decide_eq_true h]

section

variable {env : Credentials} {σ σ' : AuthState} {log : AttemptLog ℚ}

abbrev AuthState.Limits (σ : AuthState) (log : AttemptLog ℚ) : Prop :=
  Limited windowSeconds σ.monotonic log σ.limiter.hits

/-- The limiter's answer in the log, and what the handler makes of it. -/
theorem AuthState.Limits.check (limits : σ.Limits log) (key reason : String) :
    let p := σ.limiter.check key loginFailureLimit windowSeconds σ.monotonic
    Limited windowSeconds σ.monotonic
        (log ++ [.check key σ.monotonic (SlidingWindowLimiter.passed p.1)]) p.2.hits ∧
      (SlidingWindowLimiter.passed p.1 = true ∧ refuseLimited p.1 reason = .ok () ∨
        SlidingWindowLimiter.passed p.1 = false ∧
          ∃ error, refuseLimited p.1 reason = .error error ∧ error.status = 429) := by
  intro p
  obtain ⟨hpassed, hhits⟩ := (SlidingWindowLimiter.simulates windowSeconds attemptLimit).check
    σ.limiter σ.limiter.hits key σ.monotonic rfl
  have hcheck := Limited.check limits key
  constructor
  · change Limited _ _ _ ((SlidingWindowLimiter.calls windowSeconds attemptLimit).check
      σ.limiter key σ.monotonic).2.hits
    rw [hhits]
    exact hpassed ▸ hcheck
  · by_cases hzero : p.1 = 0
    · exact .inl ⟨decide_eq_true hzero, if_pos hzero⟩
    · exact .inr ⟨decide_eq_false hzero, _, if_neg hzero, rfl⟩

theorem AuthState.Limits.register (limits : σ.Limits log) (payload : RegisterIn)
    (clientIp : String) (userId : Uuid) (token : String) :
    let p := Docsage.register env σ payload clientIp userId token
    Limited windowSeconds σ.monotonic
      (log ++ attempted ("register:" ++ clientIp) σ.monotonic false p.1) p.2.limiter.hits := by
  obtain ⟨hlog, ⟨hpassed, hok⟩ | ⟨hrefused, error, herror, hstatus⟩⟩ :=
    limits.check ("register:" ++ clientIp) "too many registrations from this client"
  · rw [hpassed] at hlog
    simp only [Docsage.register, registerLimit, loginFailureLimit] at hok hlog ⊢
    rw [hok]
    simp only
    split
    · rw [attempted_of_error (by decide)]
      exact hlog
    · exact hlog
  · rw [hrefused] at hlog
    simp only [Docsage.register, registerLimit, loginFailureLimit] at herror hlog ⊢
    rw [herror]
    simpa [attempted, hstatus] using hlog

theorem AuthState.Limits.login (limits : σ.Limits log) (payload : LoginIn) (clientIp : String)
    (token : String) :
    let p := Docsage.login env σ payload clientIp token
    Limited windowSeconds σ.monotonic
      (log ++ attempted ("login:" ++ clientIp ++ ":" ++ env.lower payload.email) σ.monotonic true
        p.1) p.2.limiter.hits := by
  obtain ⟨hlog, ⟨hpassed, hok⟩ | ⟨hrefused, error, herror, hstatus⟩⟩ :=
    limits.check ("login:" ++ clientIp ++ ":" ++ env.lower payload.email)
      "too many failed attempts"
  · rw [hpassed] at hlog
    simp only [Docsage.login]
    rw [hok]
    simp only
    split
    · rw [attempted_of_error (by decide)]
      exact hlog
    split
    · rw [attempted, if_pos rfl, ← List.singleton_append, ← List.append_assoc]
      exact hlog.clear _
    · rw [attempted_of_error (by decide)]
      exact hlog
  · rw [hrefused] at hlog
    simp only [Docsage.login]
    rw [herror]
    simpa [attempted, hstatus] using hlog

theorem AuthState.Limits.step {a : AuthAction} (limits : σ.Limits log)
    (h : σ.step env a = some σ') :
    σ'.Limits ((SharedAuth.mk σ {}).logFastApi env log a) := by
  cases a with
  | tick elapsed =>
    obtain rfl := Option.some.inj h
    refine Limited.later limits ?_
    exact le_add_of_nonneg_right (by positivity)
  | register payload clientIp userId token =>
    obtain ⟨-, h⟩ := Option.ite_none_left_eq_some.mp h
    obtain rfl := Option.some.inj h
    have hsame : (Docsage.register env σ payload clientIp userId token).2.monotonic =
        σ.monotonic := by
      unfold Docsage.register
      simp only
      split
      · rfl
      · split <;> rfl
    change Limited _ (Docsage.register env σ payload clientIp userId token).2.monotonic _ _
    rw [hsame]
    exact limits.register payload clientIp userId token
  | login payload clientIp token =>
    obtain ⟨-, h⟩ := Option.ite_none_left_eq_some.mp h
    obtain rfl := Option.some.inj h
    have hsame : (Docsage.login env σ payload clientIp token).2.monotonic = σ.monotonic := by
      unfold Docsage.login
      simp only
      split
      · rfl
      split
      · rfl
      · split <;> rfl
    change Limited _ (Docsage.login env σ payload clientIp token).2.monotonic _ _
    rw [hsame]
    exact limits.login payload clientIp token
  | logout cookies =>
    obtain rfl := Option.some.inj h
    exact limits
  | request cookies =>
    obtain rfl := Option.some.inj h
    exact limits
  | restart =>
    obtain rfl := Option.some.inj h
    exact .start _ _

end

section

variable {env : DotNet.Credentials} {log : AttemptLog ℤ}

structure SharedAuth.LimitsDotNet (σ : SharedAuth) (log : AttemptLog ℤ) : Prop where
  enabled : σ.rateLimiter.enabled = true
  limited : Limited DotNet.RateLimiter.window (DotNet.utcNow σ.store) log σ.rateLimiter.hits

namespace SharedAuth.LimitsDotNet

theorem check (limits : σ.LimitsDotNet log) (key reason : String) :
    let p := σ.rateLimiter.check key loginFailureLimit (DotNet.utcNow σ.store)
    (p.2.enabled = true ∧ Limited DotNet.RateLimiter.window (DotNet.utcNow σ.store)
        (log ++ [.check key (DotNet.utcNow σ.store) p.1.isNone]) p.2.hits) ∧
      (p.1.isNone = true ∧ DotNet.refuseLimited p.1 reason = .ok () ∨
        p.1.isNone = false ∧
          ∃ error, DotNet.refuseLimited p.1 reason = .error error ∧ error.status = 429) := by
  intro p
  obtain ⟨hpassed, henabled, hhits⟩ := (DotNet.RateLimiter.simulates attemptLimit_pos).check
    σ.rateLimiter σ.rateLimiter.hits key (DotNet.utcNow σ.store) ⟨limits.enabled, rfl⟩
  have hcheck := Limited.check limits.limited key
  refine ⟨⟨henabled, ?_⟩, ?_⟩
  · change Limited _ _ _ ((DotNet.RateLimiter.calls attemptLimit).check
      σ.rateLimiter key (DotNet.utcNow σ.store)).2.hits
    rw [hhits]
    exact hpassed ▸ hcheck
  · cases p.1 with
    | none => exact .inl ⟨rfl, rfl⟩
    | some wait => exact .inr ⟨rfl, _, rfl, rfl⟩

theorem register (limits : σ.LimitsDotNet log) (env : DotNet.Credentials)
    (body : DotNet.RegisterRequest) (remoteIp : String) (userId : Uuid) (token : String) :
    let p := DotNet.register env σ body remoteIp userId token
    p.2.LimitsDotNet (log ++
      attempted ("register:" ++ remoteIp) (DotNet.utcNow σ.store) false p.1) := by
  obtain ⟨⟨henabled, hlog⟩, ⟨hpassed, hok⟩ | ⟨hrefused, error, herror, hstatus⟩⟩ :=
    limits.check ("register:" ++ remoteIp) "too many registrations from this client"
  · rw [hpassed] at hlog
    simp only [DotNet.register, DotNet.registerLimit, loginFailureLimit] at henabled hok hlog ⊢
    rw [hok]
    simp only
    split_ifs
    · rw [attempted_of_error (by decide)]
      exact ⟨henabled, hlog⟩
    · rw [attempted_of_error (by decide)]
      exact ⟨henabled, hlog⟩
    · rw [attempted_of_error (by decide)]
      exact ⟨henabled, hlog⟩
    · rw [attempted_of_error (by decide)]
      exact ⟨henabled, hlog⟩
    · exact ⟨henabled, hlog⟩
  · rw [hrefused] at hlog
    simp only [DotNet.register, DotNet.registerLimit, loginFailureLimit] at henabled herror hlog ⊢
    rw [herror]
    exact ⟨henabled, by simpa [attempted, hstatus] using hlog⟩

theorem login (limits : σ.LimitsDotNet log) (env : DotNet.Credentials)
    (body : DotNet.LoginRequest) (remoteIp : String) (token : String) :
    let p := DotNet.login env σ body remoteIp token
    p.2.LimitsDotNet (log ++
      attempted ("login:" ++ remoteIp ++ ":" ++ DotNet.normalizedEmail env body.email)
        (DotNet.utcNow σ.store) true p.1) := by
  obtain ⟨⟨henabled, hlog⟩, ⟨hpassed, hok⟩ | ⟨hrefused, error, herror, hstatus⟩⟩ :=
    limits.check ("login:" ++ remoteIp ++ ":" ++ DotNet.normalizedEmail env body.email)
      "too many failed attempts"
  · rw [hpassed] at hlog
    simp only [DotNet.login, DotNet.loginFailureLimit, loginFailureLimit] at henabled hok hlog ⊢
    rw [hok]
    simp only
    split
    · rw [attempted_of_error (by decide)]
      exact ⟨henabled, hlog⟩
    split
    · rw [attempted, if_pos rfl, ← List.singleton_append, ← List.append_assoc]
      exact ⟨henabled, hlog.clear _⟩
    · rw [attempted_of_error (by decide)]
      exact ⟨henabled, hlog⟩
  · rw [hrefused] at hlog
    simp only [DotNet.login, DotNet.loginFailureLimit, loginFailureLimit] at henabled herror hlog ⊢
    rw [herror]
    exact ⟨henabled, by simpa [attempted, hstatus] using hlog⟩

theorem step {a : DotNet.AuthAction} (limits : σ.LimitsDotNet log)
    (h : σ.stepDotNet env a = some σ') : σ'.LimitsDotNet (σ.logDotNet env log a) := by
  cases a with
  | register body remoteIp userId token =>
    obtain ⟨-, h⟩ := Option.ite_none_left_eq_some.mp h
    obtain rfl := Option.some.inj h
    obtain ⟨henabled, hlimited⟩ := limits.register env body remoteIp userId token
    exact ⟨henabled, hlimited⟩
  | login body remoteIp token =>
    obtain ⟨-, h⟩ := Option.ite_none_left_eq_some.mp h
    obtain rfl := Option.some.inj h
    obtain ⟨henabled, hlimited⟩ := limits.login env body remoteIp token
    exact ⟨henabled, hlimited⟩
  | logout cookies =>
    obtain rfl := Option.some.inj h
    refine ⟨limits.enabled, limits.limited.later ?_⟩
    exact (congrArg (· * 10) (DotNet.endSession_sublist σ.store cookies).2.2).ge
  | request cookies =>
    obtain rfl := Option.some.inj h
    exact ⟨limits.enabled, limits.limited⟩
  | restart =>
    obtain rfl := Option.some.inj h
    exact ⟨rfl, .start _ _⟩

end SharedAuth.LimitsDotNet

/-- A step of the .NET process leaves the limiter of the other one, and its clock. -/
theorem SharedAuth.stepDotNet_fastApi {a : DotNet.AuthAction}
    (h : σ.stepDotNet env a = some σ') :
    σ'.monotonic = σ.monotonic ∧ σ'.limiter = σ.limiter := by
  cases a with
  | register body remoteIp userId token =>
    obtain ⟨-, h⟩ := Option.ite_none_left_eq_some.mp h
    obtain rfl := Option.some.inj h
    unfold DotNet.register
    simp only
    split
    · exact ⟨rfl, rfl⟩
    · split_ifs <;> exact ⟨rfl, rfl⟩
  | login body remoteIp token =>
    obtain ⟨-, h⟩ := Option.ite_none_left_eq_some.mp h
    obtain rfl := Option.some.inj h
    unfold DotNet.login
    simp only
    split
    · exact ⟨rfl, rfl⟩
    split
    · exact ⟨rfl, rfl⟩
    · split_ifs <;> exact ⟨rfl, rfl⟩
  | logout _ | request _ | restart =>
    obtain rfl := Option.some.inj h
    exact ⟨rfl, rfl⟩

end

structure SharedAuth.Limits (σ : SharedAuth) (logs : AttemptLogs) : Prop where
  fastApi : σ.toAuthState.Limits logs.fastApi
  dotNet : σ.LimitsDotNet logs.dotNet

theorem SharedAuth.Limits.step {a : SharedAction} (limits : σ.Limits logs)
    (h : σ.step env a = some σ') : σ'.Limits (σ.logAttempt env logs a) := by
  cases a with
  | fastApi a =>
    obtain ⟨τ, hτ, rfl⟩ := Option.map_eq_some_iff.mp h
    refine ⟨?_, limits.dotNet.enabled, limits.dotNet.limited.later ?_⟩
    · have hstep := limits.fastApi.step hτ
      cases a <;> exact hstep
    · exact Int.mul_le_mul_of_nonneg_right (AuthState.step_sessions hτ).now (by decide)
  | dotNet a =>
    obtain ⟨hmonotonic, hlimiter⟩ := SharedAuth.stepDotNet_fastApi h
    refine ⟨?_, limits.dotNet.step h⟩
    rw [AuthState.Limits, hmonotonic, hlimiter]
    exact limits.fastApi

theorem SharedAuth.Limits.run {actions : List SharedAction} (limits : σ.Limits logs)
    (done : execute (SharedAuth.step env) σ actions = some σ') :
    σ'.Limits (attempts env σ actions logs) := by
  induction actions generalizing σ logs with
  | nil =>
    obtain rfl := Option.some.inj done
    exact limits
  | cons a actions ih =>
    obtain ⟨τ, hτ, hrest⟩ := Option.bind_eq_some_iff.mp done
    rw [attempts, hτ]
    exact ih (limits.step hτ) hrest

/-- In every run, each process answers 429 exactly where ten attempts under the key were let
through in the last minute since it was cleared, and no minute between two successes saw more. -/
theorem guesses_bounded {σ₀ : SharedAuth} (limiter : σ₀.limiter = {})
    (rateLimiter : σ₀.rateLimiter = {}) {actions : List SharedAction}
    (done : execute (SharedAuth.step env) σ₀ actions = some σ) :
    let logs := SharedAuth.attempts env σ₀ actions {}
    (Exact windowSeconds (fun _ => 10) logs.fastApi ∧
      ∀ key start, countIn start (start + windowSeconds) (allowedSince key logs.fastApi) ≤ 10) ∧
    Exact DotNet.RateLimiter.window (fun _ => 10) logs.dotNet ∧
      ∀ key start,
        countIn start (start + DotNet.RateLimiter.window) (allowedSince key logs.dotNet) ≤ 10 := by
  have start : σ₀.Limits {} := by
    refine ⟨?_, ?_, ?_⟩
    · rw [AuthState.Limits, limiter]
      exact .start _ _
    · rw [rateLimiter]
    · rw [rateLimiter]
      exact .start _ _
  obtain ⟨fastApi, -, dotNet⟩ := start.run done
  exact ⟨⟨fastApi.exact, fastApi.invariant.within⟩, dotNet.exact, dotNet.invariant.within⟩

namespace Browser

/-- Eleven wrong passwords on the same day, and one on the next. -/
def guesses : List SharedAction :=
  let guess (token : String) : SharedAction :=
    .dotNet (.login ⟨some "bye@example.com", some "wrong-horse"⟩ "127.0.0.1" token)
  [guess "a", guess "b", guess "c", guess "d", guess "e", guess "f", guess "g", guess "h",
    guess "i", guess "j", guess "k", .fastApi (.tick (24 * 60 * 60 * 1000000)), guess "l"]

end Browser

theorem guesses_bounded_guesses : ∃ σ,
    execute (SharedAuth.step Browser.credentials) Browser.shared Browser.guesses =
      some σ ∧
    (let logs := SharedAuth.attempts Browser.credentials Browser.shared Browser.guesses {}
    (Exact windowSeconds (fun _ => 10) logs.fastApi ∧
      ∀ key start, countIn start (start + windowSeconds) (allowedSince key logs.fastApi) ≤ 10) ∧
    Exact DotNet.RateLimiter.window (fun _ => 10) logs.dotNet ∧
      ∀ key start, countIn start (start + DotNet.RateLimiter.window)
        (allowedSince key logs.dotNet) ≤ 10) :=
  ⟨_, rfl, guesses_bounded rfl rfl rfl⟩

end Docsage
