import Docsage.Api.Access
import Mathlib.Algebra.Order.Floor.Ring
import Mathlib.Data.Rat.Floor
import Mathlib.Logic.Function.Basic

/-! # The sliding-window limiter

The in-process limiter of the auth endpoints: one queue of hit times for each
key, on a monotonic clock that counts seconds.
-/

namespace Docsage

def loginFailureLimit : ℕ := 10

def registerLimit : ℕ := 10

def windowSeconds : ℚ := 60

/-- `SlidingWindowLimiter`; a key that was never used has no hits. -/
structure SlidingWindowLimiter where
  hits : String → List ℚ := fun _ => []

namespace SlidingWindowLimiter

def bucket (limiter : SlidingWindowLimiter) (key : String) (window now : ℚ) : List ℚ :=
  (limiter.hits key).dropWhile fun hit => hit < now - window

/-- `check`: record a hit and return 0, or return the seconds until one is free. A refused call
records nothing, but the hits that left the window are gone. No caller passes a limit of 0, where
the source raises on an empty queue. -/
def check (limiter : SlidingWindowLimiter) (key : String) (limit : ℕ) (window now : ℚ) :
    ℚ × SlidingWindowLimiter :=
  let bucket := limiter.bucket key window now
  if limit ≤ bucket.length then
    (max (window - (now - bucket.headD now)) (1 / 10), ⟨Function.update limiter.hits key bucket⟩)
  else (0, ⟨Function.update limiter.hits key (bucket ++ [now])⟩)

def clear (limiter : SlidingWindowLimiter) (key : String) : SlidingWindowLimiter :=
  ⟨Function.update limiter.hits key []⟩

end SlidingWindowLimiter

structure AuthError extends HttpError where
  retryAfter : Option ℤ := none
deriving DecidableEq

/-- `if retry_after: raise HTTPException(429, ...)`. -/
def refuseLimited (retryAfter : ℚ) (reason : String) : Except AuthError Unit :=
  if retryAfter = 0 then .ok ()
  else
    let wait := ⌊retryAfter⌋ + 1
    .error
      { status := 429, detail := reason ++ "; retry in " ++ toString wait ++ "s"
        retryAfter := some wait }

end Docsage
