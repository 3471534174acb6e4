/-
  The checks of the rate limiter (`lib.rs`), over any backend.

  A check asks the store first and reads the system clock afterwards, to say
  when the limit resets; `unix` is that second reading.  The `…Result`
  functions are what a check makes of the store's answer.
-/
import ArmatureRatelimit.Algorithms.Basic
import ArmatureRatelimit.Stores.Basic

namespace ArmatureRatelimit

structure RateLimitCheckResult where
  allowed : Bool
  remaining : ℕ
  limit : ℕ
  /-- Unix timestamp in seconds -/
  resetAt : ℕ
  retryAfter : Option ℕ
  deriving DecidableEq, Repr

namespace RateLimitCheckResult

/-- `RateLimitCheckResult::allowed`. -/
def allow (remaining limit resetAt : ℕ) : RateLimitCheckResult :=
  ⟨true, remaining, limit, resetAt, none⟩

/-- `RateLimitCheckResult::denied`. -/
def deny (limit resetAt retryAfter : ℕ) : RateLimitCheckResult :=
  ⟨false, 0, limit, resetAt, some retryAfter⟩

end RateLimitCheckResult

open RateLimitCheckResult

namespace RateLimiter

variable {ν ε σ : Type} [F64 ν]

/-! ## What the limiter makes of the store's answer -/

def tokenBucketResult (capacity : ℕ) (refillRate : ν) (unix : ℤ) (result : Bool × ℕ) :
    Outcome RateLimitCheckResult :=
  match sinceEpoch unix with
  | none => .error .panic
  | some d =>
    let nowSecs := Duration.asSecs d
    let refills := F64.lt (F64.ofInt 0) refillRate && F64.isFinite refillRate
    let resetAt :=
      if refills then
        let secsToFull := F64.toU64
          (F64.clamp (F64.ofInt capacity / refillRate) (F64.ofInt 0) F64.ofU64Max)
        min (nowSecs + secsToFull) u64Max
      else u64Max
    if result.1 then .ok (allow result.2 capacity resetAt)
    else if refills then
      let secs := F64.clamp (F64.ofInt 1 / refillRate) (F64.ofInt 0) F64.ofU64Max
      match F64.toDuration secs with
      | some retryAfter => .ok (deny capacity resetAt retryAfter)
      | none => .error .panic
    else .ok (deny capacity resetAt (Duration.fromSecs u64Max))

/-- The reset time is a plain sum: the panic above `u64::MAX` is that of a build
    with overflow checks, and other builds wrap. -/
def slidingWindowResult (maxRequests window : ℕ) (unix : ℤ) (result : Bool × ℕ) :
    Outcome RateLimitCheckResult :=
  match sinceEpoch unix with
  | none => .error .panic
  | some d =>
    let resetAt := Duration.asSecs d + Duration.asSecs window
    if u64Max < resetAt then .error .panic
    else if result.1 then .ok (allow result.2 maxRequests resetAt)
    else .ok (deny maxRequests resetAt window)

/-- The end of the epoch-aligned window that contains `nowMs`. -/
def windowEndMs (windowMs nowMs : ℕ) : ℕ := (nowMs / windowMs + 1) * windowMs

def fixedWindowResult (maxRequests window : ℕ) (unix : ℤ) (result : Bool × ℕ) :
    Outcome RateLimitCheckResult :=
  match sinceEpoch unix with
  | none => .error .panic
  | some d =>
    let nowMs := Duration.asMillis d
    let windowMs := max (Duration.asMillis window) 1
    let resetAtMs := windowEndMs windowMs nowMs
    let resetAt := asU64 (resetAtMs / 1000 : ℕ)
    if result.1 then .ok (allow result.2 maxRequests resetAt)
    else
      let retryAfter := Duration.fromMillis (asU64 (resetAtMs - nowMs : ℕ))
      .ok (deny maxRequests resetAt retryAfter)

/-! ## Checks -/

section
variable (store : RateLimitStore ν ε σ) (env : ε) (unix : ℤ) (key : String)

/-- The store's answer, made a result. -/
def answer (result : Bool × ℕ → Outcome RateLimitCheckResult) (r : Outcome (Bool × ℕ) × σ) :
    Outcome RateLimitCheckResult × σ := (r.1 >>= result, r.2)

def checkTokenBucket (capacity : ℕ) (refillRate : ν) (s : σ) : Outcome RateLimitCheckResult × σ :=
  answer (tokenBucketResult capacity refillRate unix)
    (store.tokenBucketCheck env key capacity refillRate s)

def checkSlidingWindow (maxRequests window : ℕ) (s : σ) : Outcome RateLimitCheckResult × σ :=
  answer (slidingWindowResult maxRequests window unix)
    (store.slidingWindowCheck env key maxRequests window s)

def checkFixedWindow (maxRequests window : ℕ) (s : σ) : Outcome RateLimitCheckResult × σ :=
  answer (fixedWindowResult maxRequests window unix)
    (store.fixedWindowCheck env key maxRequests window s)

/-- `RateLimiter::check`. -/
def check (algorithm : Algorithm ν) (s : σ) : Outcome RateLimitCheckResult × σ :=
  match algorithm with
  | .tokenBucket capacity refillRate => checkTokenBucket store env unix key capacity refillRate s
  | .slidingWindowLog maxRequests window =>
    checkSlidingWindow store env unix key maxRequests window s
  | .fixedWindow maxRequests window => checkFixedWindow store env unix key maxRequests window s

end

end RateLimiter

end ArmatureRatelimit
