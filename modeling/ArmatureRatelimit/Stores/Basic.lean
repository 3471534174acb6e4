/-
  The interface of the storage backends (`stores/mod.rs`).

  A backend acts on a state of type `σ` (its maps, or the Redis server), and
  each of its calls reads an environment of type `ε` (clocks, and whatever else
  is not its own to decide).  The record holds what `RateLimiter::check` calls;
  the other methods of the trait are definitions of each backend.
-/
import ArmatureRatelimit.Base

namespace ArmatureRatelimit

/-- `StoreType`. -/
inductive StoreType
  | memory
  | redis
  deriving DecidableEq, Repr

/-- `RateLimitStore`: the checks return `(allowed, remaining)`. -/
structure RateLimitStore (ν ε σ : Type) where
  tokenBucketCheck : ε → String → (capacity : ℕ) → (refillRate : ν) → σ → Outcome (Bool × ℕ) × σ
  slidingWindowCheck : ε → String → (maxRequests window : ℕ) → σ → Outcome (Bool × ℕ) × σ
  fixedWindowCheck : ε → String → (maxRequests window : ℕ) → σ → Outcome (Bool × ℕ) × σ

end ArmatureRatelimit
