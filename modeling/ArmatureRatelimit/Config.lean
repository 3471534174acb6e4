/-
  Configuration and builder (`config.rs`).

  `connect` is what the Redis client makes of a URL: an error, or a connection.
  `redisFeature` says whether the crate is built with the feature `redis`.
-/
import ArmatureRatelimit.Limiter
import ArmatureRatelimit.Stores.Memory
import ArmatureRatelimit.Stores.Redis

namespace ArmatureRatelimit

variable {ν : Type}

structure RateLimitConfig (ν : Type) where
  algorithm : Algorithm ν
  storeType : StoreType
  keyPrefix : String
  includeHeaders : Bool
  skipOnError : Bool
  errorMessage : Option String
  bypassKeys : List String
  operationTimeout : ℕ
  trustedProxyDepth : ℕ

/-- Check if a key should bypass rate limiting. -/
def RateLimitConfig.shouldBypass (self : RateLimitConfig ν) (key : String) : Bool :=
  self.bypassKeys.any (· == key)

/-- A store behind `Arc<dyn RateLimitStore>`, as the builder makes it. -/
inductive Store (ν : Type)
  | memory (store : MemoryStore ν)
  | redis (store : RedisStore)

structure RateLimiter (ν : Type) where
  store : Store ν
  algorithm : Algorithm ν
  config : RateLimitConfig ν

structure RateLimiterBuilder (ν : Type) where
  algorithm : Option (Algorithm ν)
  storeType : StoreType
  keyPrefix : String
  includeHeaders : Bool
  skipOnError : Bool
  errorMessage : Option String
  bypassKeys : List String
  operationTimeout : ℕ
  trustedProxyDepth : ℕ
  redisUrl : Option String

/-- Catches inputs that would otherwise produce NaN or infinities. -/
def validateAlgorithm [F64 ν] : Algorithm ν → Except RateLimitError Unit
  | .tokenBucket capacity refillRate =>
    if capacity = 0 then .error (.configError "TokenBucket capacity must be > 0")
    else if !F64.isFinite refillRate || F64.le refillRate (F64.ofInt 0) then
      .error (.configError "TokenBucket refill_rate must be finite and > 0")
    else .ok ()
  | .slidingWindowLog maxRequests window | .fixedWindow maxRequests window =>
    if maxRequests = 0 then .error (.configError "max_requests must be > 0")
    else if Duration.isZero window then .error (.configError "window must be > 0")
    else .ok ()

namespace RateLimiterBuilder

/-- Create a new builder with default values. -/
def new : RateLimiterBuilder ν where
  algorithm := none
  storeType := .memory
  keyPrefix := "ratelimit"
  includeHeaders := true
  skipOnError := true
  errorMessage := none
  bypassKeys := []
  operationTimeout := Duration.fromSecs 3
  trustedProxyDepth := 0
  redisUrl := none

def tokenBucket (self : RateLimiterBuilder ν) (capacity : ℕ) (refillRate : ν) :
    RateLimiterBuilder ν := { self with algorithm := some (.tokenBucket capacity refillRate) }

def slidingWindow (self : RateLimiterBuilder ν) (maxRequests window : ℕ) :
    RateLimiterBuilder ν := { self with algorithm := some (.slidingWindowLog maxRequests window) }

def fixedWindow (self : RateLimiterBuilder ν) (maxRequests window : ℕ) :
    RateLimiterBuilder ν := { self with algorithm := some (.fixedWindow maxRequests window) }

def redisStore (self : RateLimiterBuilder ν) (url : String) : RateLimiterBuilder ν :=
  { self with storeType := .redis, redisUrl := some url }

def config (self : RateLimiterBuilder ν) (algorithm : Algorithm ν) : RateLimitConfig ν where
  algorithm := algorithm
  storeType := self.storeType
  keyPrefix := self.keyPrefix
  includeHeaders := self.includeHeaders
  skipOnError := self.skipOnError
  errorMessage := self.errorMessage
  bypassKeys := self.bypassKeys
  operationTimeout := self.operationTimeout
  trustedProxyDepth := self.trustedProxyDepth

/-- The store that `build` makes. -/
def store (self : RateLimiterBuilder ν) (redisFeature : Bool)
    (connect : String → Except String Unit) : Except RateLimitError (Store ν) :=
  match self.storeType, redisFeature with
  | .memory, _ => .ok (.memory MemoryStore.new)
  | .redis, false => .error (.configError
      "Redis feature is not enabled. Add `redis` feature to use Redis store.")
  | .redis, true =>
    match self.redisUrl with
    | none => .error (.configError "Redis URL must be specified for Redis store")
    | some url =>
      match connect url with
      | .error msg => .error (.redisError msg)
      | .ok () => .ok (.redis ⟨self.keyPrefix, self.operationTimeout⟩)

/-- Build the rate limiter. -/
def build [F64 ν] (self : RateLimiterBuilder ν) (redisFeature : Bool)
    (connect : String → Except String Unit) : Except RateLimitError (RateLimiter ν) :=
  match self.algorithm with
  | none => .error (.configError "Algorithm must be specified")
  | some algorithm =>
    match validateAlgorithm algorithm with
    | .error e => .error e
    | .ok () =>
      match self.store redisFeature connect with
      | .error e => .error e
      | .ok store => .ok ⟨store, algorithm, self.config algorithm⟩

end RateLimiterBuilder

/-! ## What the builder promises -/

/-- What `validate_algorithm` accepts. -/
def Algorithm.Valid [F64 ν] : Algorithm ν → Prop
  | .tokenBucket capacity refillRate =>
    0 < capacity ∧ F64.isFinite refillRate = true ∧ F64.le refillRate (F64.ofInt 0) = false
  | .slidingWindowLog maxRequests window | .fixedWindow maxRequests window =>
    0 < maxRequests ∧ 0 < window

theorem validateAlgorithm_ok [F64 ν] (algorithm : Algorithm ν) :
    validateAlgorithm algorithm = .ok () ↔ algorithm.Valid := by
  cases algorithm with
  | tokenBucket capacity refillRate =>
    simp only [validateAlgorithm, Algorithm.Valid]
    split_ifs with h1 h2
    · simp [h1]
    · simp only [Bool.or_eq_true, Bool.not_eq_true'] at h2
      constructor
      · rintro ⟨⟩
      · rintro ⟨-, hf, hl⟩; rcases h2 with h2 | h2 <;> simp_all
    · simp only [Bool.or_eq_true, Bool.not_eq_true', not_or, Bool.not_eq_false,
        Bool.not_eq_true] at h2
      simp [h2, Nat.pos_of_ne_zero h1]
  | slidingWindowLog maxRequests window | fixedWindow maxRequests window =>
    simp only [validateAlgorithm, Algorithm.Valid, Duration.isZero]
    split_ifs with h1 h2
    · simp [h1]
    · simp_all
    · simp_all [Nat.pos_iff_ne_zero]

/-- Every valid algorithm builds over the memory store. -/
theorem build_of_valid [F64 ν] {b : RateLimiterBuilder ν} {algorithm : Algorithm ν}
    (ha : b.algorithm = some algorithm) (hv : algorithm.Valid) (hs : b.storeType = .memory)
    (redisFeature : Bool) (connect : String → Except String Unit) :
    b.build redisFeature connect = .ok ⟨.memory .new, algorithm, b.config algorithm⟩ := by
  simp only [RateLimiterBuilder.build, ha, (validateAlgorithm_ok algorithm).mpr hv,
    RateLimiterBuilder.store, hs]

/-- **What a built limiter is**: its algorithm is valid, and with the memory
    store it starts from a new store with the default settings. -/
theorem build_memory [F64 ν] {b : RateLimiterBuilder ν} {redisFeature : Bool}
    {connect : String → Except String Unit} {limiter : RateLimiter ν} {m : MemoryStore ν}
    (hb : b.build redisFeature connect = .ok limiter) (hm : limiter.store = .memory m) :
    limiter.algorithm.Valid ∧ m = MemoryStore.new := by
  simp only [RateLimiterBuilder.build] at hb
  split at hb
  · cases hb
  · split at hb
    · cases hb
    · rename_i algorithm _ u hv
      split at hb
      · cases hb
      · rename_i store hs
        obtain rfl := Except.ok.inj hb
        refine ⟨(validateAlgorithm_ok _).mp hv, ?_⟩
        simp only at hm
        subst hm
        simp only [RateLimiterBuilder.store] at hs
        split at hs
        · cases hs; rfl
        · cases hs
        · split at hs
          · cases hs
          · split at hs <;> cases hs

end ArmatureRatelimit
