import Docsage.Auth.RateLimit
import Docsage.Library.SlidingWindow
import Mathlib.Tactic.Abel

/-! # The two limiters and their windows

The .NET limiter counts ticks where the Python one counts seconds. Both keep a
pruned queue for each key, and both answer a call as a scan of the whole window would.
-/

namespace Docsage
open SlidingWindow

namespace SlidingWindowLimiter

/-- The limiter under calls with one window and a limit for each key. -/
def calls (window : ℚ) (limit : String → ℕ) : Limiter SlidingWindowLimiter String ℚ ℚ where
  check limiter key now := limiter.check key (limit key) window now
  clear := clear

/-- How the callers read an answer: 0 is falsy. -/
def passed (retryAfter : ℚ) : Bool := retryAfter = 0

def log (window : ℚ) (limit : String → ℕ) (made : List (Call String ℚ)) :
    List (Event String ℚ Bool) :=
  ((calls window limit).run {} made).1.map (Event.map id passed)

end SlidingWindowLimiter

namespace DotNet

def ticksPerSecond : ℤ := 10000000

/-- `RateLimiter`; its times and time spans are in ticks. -/
structure RateLimiter where
  hits : String → List ℤ := fun _ => []
  enabled : Bool := true

namespace RateLimiter

def window : ℤ := 60 * ticksPerSecond

def bucket (limiter : RateLimiter) (key : String) (now : ℤ) : List ℤ :=
  (limiter.hits key).dropWhile fun oldest => window < now - oldest

/-- `Check`: null where the hit is recorded, else how long to wait. -/
def check (limiter : RateLimiter) (key : String) (limit : ℕ) (now : ℤ) :
    Option ℤ × RateLimiter :=
  if !limiter.enabled then (none, limiter)
  else
    let bucket := limiter.bucket key now
    match if limit ≤ bucket.length then bucket.head? else none with
    | some currentOldest =>
      (some (window - (now - currentOldest)),
        { limiter with hits := Function.update limiter.hits key bucket })
    | none => (none, { limiter with hits := Function.update limiter.hits key (bucket ++ [now]) })

def clear (limiter : RateLimiter) (key : String) : RateLimiter :=
  { limiter with hits := Function.update limiter.hits key [] }

def calls (limit : String → ℕ) : Limiter RateLimiter String ℤ (Option ℤ) where
  check limiter key now := limiter.check key (limit key) now
  clear := clear

def log (limit : String → ℕ) (made : List (Call String ℤ)) : List (Event String ℤ Bool) :=
  ((calls limit).run {} made).1.map (Event.map id Option.isNone)

end RateLimiter

/-- What the endpoints do with the answer: the whole seconds and one more. -/
def refuseLimited (answer : Option ℤ) (reason : String) : Except AuthError Unit :=
  match answer with
  | none => .ok ()
  | some wait =>
    let secs := wait.tdiv ticksPerSecond + 1
    .error
      { status := 429, detail := reason ++ "; retry in " ++ toString secs ++ "s"
        retryAfter := some secs }

def seconds : ℤ →+ ℚ := (AddMonoidHom.mulRight ((1 : ℚ) / ticksPerSecond)).comp (Int.castAddHom ℚ)

end DotNet

namespace SlidingWindowLimiter

variable {limiter : SlidingWindowLimiter} {key : String} {limit : ℕ} {window now : ℚ}

theorem check_full (full : limit ≤ (limiter.bucket key window now).length) :
    limiter.check key limit window now =
      (max (window - (now - (limiter.bucket key window now).headD now)) (1 / 10),
        ⟨Function.update limiter.hits key (limiter.bucket key window now)⟩) :=
  if_pos full

theorem check_room (room : ¬ limit ≤ (limiter.bucket key window now).length) :
    limiter.check key limit window now =
      (0, ⟨Function.update limiter.hits key (limiter.bucket key window now ++ [now])⟩) :=
  if_neg room

theorem retryAfter_pos (wait : ℚ) : 0 < max wait (1 / 10) := lt_max_of_lt_right (by norm_num)

theorem simulates (window : ℚ) (limit : String → ℕ) :
    (calls window limit).Simulates (pruning window limit) (fun limiter s => limiter.hits = s) id
      passed where
  check := by
    rintro limiter _ key now rfl
    have hbucket : prune window now (limiter.hits key) = limiter.bucket key window now := rfl
    simp only [calls, pruning, grant, hbucket, id]
    by_cases hfull : limit key ≤ (limiter.bucket key window now).length
    · rw [check_full hfull, if_pos hfull]
      exact ⟨(decide_eq_false (retryAfter_pos _).ne').symm, rfl⟩
    · rw [check_room hfull, if_neg hfull]
      exact ⟨(decide_eq_true rfl).symm, rfl⟩
  clear := by
    rintro limiter _ key rfl
    rfl

end SlidingWindowLimiter

namespace DotNet

theorem RateLimiter.bucket_eq (limiter : RateLimiter) (key : String) (now : ℤ) :
    limiter.bucket key now = prune window now (limiter.hits key) := by
  refine congrArg (List.dropWhile · _) (funext fun oldest => ?_)
  simp only [decide_eq_decide]
  omega

namespace RateLimiter

variable {limiter : RateLimiter} {key : String} {limit : ℕ} {now oldest : ℤ} {rest : List ℤ}

theorem check_full (enabled : limiter.enabled = true)
    (bucket : limiter.bucket key now = oldest :: rest) (full : limit ≤ (oldest :: rest).length) :
    limiter.check key limit now = (some (window - (now - oldest)),
      { limiter with hits := Function.update limiter.hits key (oldest :: rest) }) := by
  simp only [check, enabled, bucket, if_pos full, List.head?_cons]
  rfl

theorem check_room (enabled : limiter.enabled = true)
    (room : ¬ limit ≤ (limiter.bucket key now).length) :
    limiter.check key limit now = (none, { limiter with
      hits := Function.update limiter.hits key (limiter.bucket key now ++ [now]) }) := by
  simp only [check, enabled, if_neg room]
  rfl

theorem exists_oldest (positive : 1 ≤ limit) (full : limit ≤ (limiter.bucket key now).length) :
    ∃ oldest rest, limiter.bucket key now = oldest :: rest :=
  List.exists_cons_of_length_pos (positive.trans full)

theorem simulates {limit : String → ℕ} (positive : ∀ key, 1 ≤ limit key) :
    (calls limit).Simulates (pruning window limit)
      (fun limiter s => limiter.enabled = true ∧ limiter.hits = s) id Option.isNone where
  check := by
    rintro limiter _ key now ⟨henabled, rfl⟩
    simp only [calls, pruning, grant, ← bucket_eq, id]
    by_cases hfull : limit key ≤ (limiter.bucket key now).length
    · obtain ⟨oldest, rest, hbucket⟩ := exists_oldest (positive key) hfull
      rw [hbucket] at hfull ⊢
      rw [check_full henabled hbucket hfull, if_pos hfull]
      exact ⟨rfl, henabled, rfl⟩
    · rw [check_room henabled hfull, if_neg hfull]
      exact ⟨rfl, henabled, rfl⟩
  clear := by
    rintro limiter _ key ⟨henabled, rfl⟩
    exact ⟨henabled, rfl⟩

end RateLimiter

theorem seconds_lt {a b : ℤ} (h : a < b) : seconds a < seconds b := by
  have : (0 : ℚ) < 1 / ticksPerSecond := by norm_num [ticksPerSecond]
  exact mul_lt_mul_of_pos_right (Int.cast_lt.mpr h) this

theorem seconds_window : seconds RateLimiter.window = windowSeconds := by
  norm_num [seconds, RateLimiter.window, ticksPerSecond, windowSeconds]

end DotNet

theorem SlidingWindowLimiter.log_eq (window : ℚ) (limit : String → ℕ)
    (made : List (Call String ℚ)) :
    log window limit made = ((pruning window limit).run (fun _ => []) made).1 := by
  have h := ((simulates window limit).run (s := {}) rfl made).1
  rw [Call.map_id, List.map_id] at h
  exact h.symm

theorem DotNet.RateLimiter.log_eq {limit : String → ℕ} (positive : ∀ key, 1 ≤ limit key)
    (made : List (Call String ℤ)) :
    log limit made = ((pruning window limit).run (fun _ => []) made).1 := by
  have h := ((simulates positive).run (s := {}) ⟨rfl, rfl⟩ made).1
  rw [Call.map_id, List.map_id] at h
  exact h.symm

theorem log_seconds {limit : String → ℕ} (positive : ∀ key, 1 ≤ limit key)
    (made : List (Call String ℤ)) :
    SlidingWindowLimiter.log windowSeconds limit (made.map (Call.map DotNet.seconds)) =
      (DotNet.RateLimiter.log limit made).map (Event.map DotNet.seconds id) := by
  rw [SlidingWindowLimiter.log_eq, DotNet.RateLimiter.log_eq positive, ← DotNet.seconds_window]
  exact ((pruning_simulates DotNet.seconds (fun _ _ h => DotNet.seconds_lt h) _ limit).run
    (s := fun _ => []) rfl made).1

/-- With a limit of at least one call for each key, both limiters allow a call exactly where the
closed window that ends with it holds fewer allowed calls than the limit since the key was last
cleared. So no closed window between two clears holds more, and both decide alike. -/
theorem limiters_exact (limit : String → ℕ) (positive : ∀ key, 1 ≤ limit key) :
    (∀ window made, InOrder made →
      Exact window limit (SlidingWindowLimiter.log window limit made) ∧
        Bounded window limit (SlidingWindowLimiter.log window limit made)) ∧
    (∀ made, InOrder made →
      Exact DotNet.RateLimiter.window limit (DotNet.RateLimiter.log limit made) ∧
        Bounded DotNet.RateLimiter.window limit (DotNet.RateLimiter.log limit made)) ∧
    ∀ made, SlidingWindowLimiter.log windowSeconds limit (made.map (Call.map DotNet.seconds)) =
      (DotNet.RateLimiter.log limit made).map (Event.map DotNet.seconds id) := by
  refine ⟨fun window made ordered => ?_, fun made ordered => ?_, log_seconds positive⟩
  · rw [SlidingWindowLimiter.log_eq]
    exact ⟨pruning_exact window limit ordered, pruning_bounded window limit ordered⟩
  · rw [DotNet.RateLimiter.log_eq positive]
    exact ⟨pruning_exact _ limit ordered, pruning_bounded _ limit ordered⟩

theorem limiters_exact_ten :
    (1 ≤ loginFailureLimit ∧ 1 ≤ registerLimit) ∧
      Exact DotNet.RateLimiter.window (fun _ => loginFailureLimit)
        (DotNet.RateLimiter.log (fun _ => loginFailureLimit)
          [.check "login" 0, .clear "login", .check "login" 1]) :=
  ⟨by decide, ((limiters_exact (fun _ => loginFailureLimit) fun _ => by decide).2.1
    [.check "login" 0, .clear "login", .check "login" 1] (by decide)).1⟩

/-- At a limit of 0 the .NET limiter lets a call through: its full bucket has no oldest hit. -/
theorem check_limit_zero :
    InOrder [Call.check "login" (0 : ℤ)] ∧
      ¬ Exact DotNet.RateLimiter.window (fun _ => 0)
        (DotNet.RateLimiter.log (fun _ => 0) [.check "login" 0]) := by
  refine ⟨List.pairwise_singleton _ _, fun exact => ?_⟩
  exact absurd ((exact [] "login" 0 true [] rfl).mp rfl) (Nat.not_lt_zero _)

section RetryAfter

variable {σ T α : Type} [LinearOrder T] [AddCommGroup T]

/-- A call is refused exactly where its bucket is full. The header of a refusal is positive, and
after that many seconds a call on the key is let through, unless another one was in between. -/
def Honest (L : Limiter σ String T α) (start : σ) (full : σ → String → T → Prop)
    (refuse : α → String → Except AuthError Unit) (wait : ℤ → T) : Prop :=
  ∀ before key now reason, InOrder (before ++ [.check key now]) →
    let s := (L.run start before).2
    (refuse (L.check s key now).1 reason = .ok () ↔ ¬ full s key now) ∧
    ∀ error, refuse (L.check s key now).1 reason = .error error →
      ∃ w, error.retryAfter = some w ∧ 0 < w ∧
        ∀ between later, InOrder (before ++ .check key now :: (between ++ [.check key later])) →
          let r := L.run (L.check s key now).2 between
          (∀ t answer, .check key t answer ∈ r.1 → refuse answer reason ≠ .ok ()) →
          now + wait w ≤ later → refuse (L.check r.2 key later).1 reason = .ok ()

variable [IsOrderedAddMonoid T] {L : Limiter σ String T α} {R : σ → (String → List T) → Prop}
  {f : α → Bool} {window : T} {limit : String → ℕ} {start : σ} {full : σ → String → T → Prop}
  {refuse : α → String → Except AuthError Unit} {wait : ℤ → T}

/-- A pruning limiter is honest where its header exceeds the time that the oldest hit has left. -/
theorem Honest.of_simulates (simulates : L.Simulates (pruning window limit) R id f)
    (rel : R start fun _ => []) (positive : ∀ key, 1 ≤ limit key)
    (reads : ∀ answer reason, refuse answer reason = .ok () ↔ f answer = true)
    (fullness : ∀ s s' key now, R s s' →
      (full s key now ↔ limit key ≤ (prune window now (s' key)).length))
    (header : ∀ s s' key now oldest rest reason, R s s' →
      prune window now (s' key) = oldest :: rest → limit key ≤ (oldest :: rest).length →
        ∃ error w, refuse (L.check s key now).1 reason = .error error ∧
          error.retryAfter = some w ∧ 0 < w ∧ window - (now - oldest) < wait w) :
    Honest L start full refuse wait := by
  intro before key now reason ordered
  obtain ⟨hbefore, hpast⟩ := InOrder.before ordered
  have hreached := Invariant.reached window limit hbefore hpast
  obtain ⟨-, hrel⟩ := simulates.run rel before
  rw [Call.map_id, List.map_id] at hrel
  set s := (L.run start before).2
  set s' := ((pruning window limit).run (fun _ => []) before).2
  obtain ⟨hanswer, hrel'⟩ := simulates.check s s' key now hrel
  rw [id_eq] at hanswer hrel'
  have hpassed : f (L.check s key now).1 = true ↔ ¬ full s key now := by
    rw [← hanswer, pruning_answer, fullness s s' key now hrel]
  refine ⟨(reads _ _).trans hpassed, fun error herror => ?_⟩
  have hfull : limit key ≤ (prune window now (s' key)).length := by
    rw [← fullness s s' key now hrel]
    by_contra hroom
    rw [(reads _ reason).mpr (hpassed.mpr hroom)] at herror
    cases herror
  obtain ⟨oldest, rest, hbucket⟩ := List.exists_cons_of_length_pos ((positive key).trans hfull)
  rw [hbucket] at hfull
  obtain ⟨error', w, herror', hheader, hw, hwait⟩ :=
    header s s' key now oldest rest reason hrel hbucket hfull
  obtain rfl : error' = error := Except.error.inj (herror'.symm.trans herror)
  refine ⟨w, hheader, hw, fun between later hordered => ?_⟩
  intro r hnone hlater
  obtain ⟨hlog, hrel''⟩ := simulates.run hrel' between
  rw [Call.map_id, List.map_id] at hlog hrel''
  refine (reads _ _).mpr ?_
  rw [← (simulates.check _ _ key later hrel'').1]
  obtain ⟨hbetween, htimes, hle⟩ := InOrder.between hordered
  have hleft : oldest < later - window := by
    refine lt_sub_iff_add_lt.mpr (lt_of_lt_of_le ?_ hlater)
    calc oldest + window = now + (window - (now - oldest)) := by abel
      _ < now + wait w := add_lt_add_right hwait now
  refine hreached.admits_again hbucket hfull (positive key) hbetween htimes hle (fun t ht => ?_)
    hleft
  rw [hlog] at ht
  obtain ⟨event, hevent, hmap⟩ := List.mem_map.mp ht
  cases event with
  | clear key' => cases hmap
  | check key' t' answer =>
    obtain ⟨rfl, rfl, hanswer⟩ := Event.check.inj hmap
    exact hnone _ _ hevent ((reads answer reason).mpr hanswer)

end RetryAfter

theorem refuseLimited_eq_ok (retryAfter : ℚ) (reason : String) :
    refuseLimited retryAfter reason = .ok () ↔ SlidingWindowLimiter.passed retryAfter = true := by
  by_cases h : retryAfter = 0 <;> simp [refuseLimited, SlidingWindowLimiter.passed, h]

theorem SlidingWindowLimiter.honest (window : ℚ) {limit : String → ℕ}
    (positive : ∀ key, 1 ≤ limit key) :
    Honest (calls window limit) {} (fun s key now => limit key ≤ (s.bucket key window now).length)
      refuseLimited (fun w => w) := by
  refine Honest.of_simulates (simulates window limit) rfl positive refuseLimited_eq_ok ?_ ?_
  · rintro limiter _ key now rfl
    rfl
  · rintro limiter _ key now oldest rest reason rfl hbucket hfull
    have hbucket : limiter.bucket key window now = oldest :: rest := hbucket
    have hpos : 0 < max (window - (now - oldest)) (1 / 10) := retryAfter_pos _
    have hanswer : ((calls window limit).check limiter key now).1 =
        max (window - (now - oldest)) (1 / 10) := by
      change (limiter.check key (limit key) window now).1 = _
      rw [check_full (by rwa [hbucket]), hbucket, List.headD_cons]
    rw [hanswer, refuseLimited, if_neg hpos.ne']
    refine ⟨_, _, rfl, rfl, Int.lt_add_one_of_le (Int.floor_nonneg.mpr hpos.le), ?_⟩
    calc window - (now - oldest) ≤ max (window - (now - oldest)) (1 / 10) := le_max_left _ _
      _ < ⌊max (window - (now - oldest)) (1 / 10)⌋ + 1 := Int.lt_floor_add_one _
      _ = _ := by push_cast; rfl

theorem DotNet.refuseLimited_eq_ok (answer : Option ℤ) (reason : String) :
    DotNet.refuseLimited answer reason = .ok () ↔ answer.isNone = true := by
  cases answer <;> simp [DotNet.refuseLimited]

theorem DotNet.RateLimiter.honest {limit : String → ℕ} (positive : ∀ key, 1 ≤ limit key) :
    Honest (calls limit) {} (fun s key now => limit key ≤ (s.bucket key now).length)
      DotNet.refuseLimited (fun w => w * ticksPerSecond) := by
  refine Honest.of_simulates (simulates positive) ⟨rfl, rfl⟩ positive DotNet.refuseLimited_eq_ok
    ?_ ?_
  · rintro limiter _ key now ⟨-, rfl⟩
    rw [bucket_eq]
  · rintro limiter _ key now oldest rest reason ⟨henabled, rfl⟩ hbucket hfull
    have hwait : 0 ≤ window - (now - oldest) := by
      have := prune_oldest hbucket
      omega
    rw [← bucket_eq] at hbucket
    have hanswer : ((calls limit).check limiter key now).1 = some (window - (now - oldest)) := by
      change (limiter.check key (limit key) now).1 = _
      rw [check_full henabled hbucket hfull]
    rw [hanswer]
    have htps : 0 < ticksPerSecond := by decide
    refine ⟨_, _, rfl, rfl, Int.lt_add_one_of_le (Int.tdiv_nonneg hwait htps.le), ?_⟩
    rw [Int.tdiv_eq_ediv_of_nonneg hwait]
    exact Int.lt_ediv_add_one_mul_self _ htps

/-- In every reachable state the refusals of both limiters can be relied on. -/
theorem retry_after_honest (limit : String → ℕ) (positive : ∀ key, 1 ≤ limit key) :
    (∀ window : ℚ, Honest (SlidingWindowLimiter.calls window limit) {}
      (fun s key now => limit key ≤ (s.bucket key window now).length) refuseLimited fun w => w) ∧
    Honest (DotNet.RateLimiter.calls limit) {}
      (fun s key now => limit key ≤ (s.bucket key now).length) DotNet.refuseLimited
      fun w => w * DotNet.ticksPerSecond :=
  ⟨fun window => SlidingWindowLimiter.honest window positive,
    DotNet.RateLimiter.honest positive⟩

/-- With room for one call: refused after 30 seconds, let through after the 31 of the header. -/
theorem retry_after_honest_one :
    let L := DotNet.RateLimiter.calls fun _ => 1
    let s := (L.run {} [.check "login" 0]).2
    (∃ error, DotNet.refuseLimited (L.check s "login" 300000000).1 "" = .error error ∧
      error.retryAfter = some 31) ∧
    DotNet.refuseLimited (L.check (L.check s "login" 300000000).2 "login" 610000000).1 "" =
      .ok () := by
  intro L s
  obtain ⟨error, herror, hsecs⟩ : ∃ error,
      DotNet.refuseLimited (L.check s "login" 300000000).1 "" = .error error ∧
        error.retryAfter = some 31 := ⟨_, rfl, rfl⟩
  obtain ⟨w, hw, -, hlater⟩ := ((retry_after_honest (fun _ => 1) fun _ => le_rfl).2
    [.check "login" 0] "login" 300000000 "" (by decide)).2 error herror
  obtain rfl : w = 31 := Option.some.inj (hw.symm.trans hsecs)
  exact ⟨⟨error, herror, hsecs⟩,
    hlater [] 610000000 (by decide) (fun _ _ h => absurd h List.not_mem_nil) (by decide)⟩

end Docsage
