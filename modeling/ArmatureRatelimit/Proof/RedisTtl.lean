/-
  When the token bucket script of the Redis store completes
  (`stores/redis.rs`, `config.rs`), over any numbers.

  The script ends with an `EXPIRE` whose time to live grows without bound in
  `capacity / refill_rate`, which `validate_algorithm` does not bound.  It
  completes exactly when the server accepts the deadline, whatever the bucket
  holds; otherwise every check of the limiter ends with an error.
-/
import ArmatureRatelimit.Config
import ArmatureRatelimit.Scripts.TokenBucket
import ArmatureRatelimit.Lib.Runs

open Lib Lib.Redis

namespace ArmatureRatelimit

open RedisStore

/-! ## Checks -/

/-- What a check of the limiter reads: the environment of the store's call, and
    the clock after it. -/
structure RedisCheck where
  env : RedisEnv
  unix : ℤ

section
variable {ν : Type} [F64 ν] (store : RedisStore) (keyDigest : String → String) (key : String)
  (capacity : ℕ) (refillRate : ν)

/-- A check of a limiter with a token bucket over the store. -/
def bucketCheck (c : RedisCheck) : Db ν → Outcome RateLimitCheckResult × Db ν :=
  RateLimiter.check (store.backend keyDigest) c.env c.unix key (.tokenBucket capacity refillRate)

/-- The key of the bucket. -/
def bucketKey : String := store.key ("tb:" ++ keyDigest key)

/-- The time to live that the capacity and the rate ask for is an integer, and
    ends before the last millisecond of the server's clock. -/
def DeadlineFits (server : ℤ) (capacity : ℕ) (refillRate : ν) : Prop :=
  ∃ ttl : ℤ, F64.toRat? (F64.ceil (F64.ofInt capacity / refillRate) + F64.ofInt 10) =
    some (ttl : ℚ) ∧ server + 1000 * ttl ≤ 2 ^ 63 - 1

end

variable {ν : Type} [F64 ν] {store : RedisStore} {keyDigest : String → String} {key : String}
  {capacity : ℕ} {refillRate : ν}

theorem validTtl_iff {server : ℤ} :
    ValidTtl server (F64.toInt? (bucketTtl (F64.ofInt capacity) refillRate)) ↔
      DeadlineFits server capacity refillRate := by
  simp only [ValidTtl, DeadlineFits, F64.toInt?_eq_some]
  rfl

/-- The limiter makes no error of an answer. -/
theorem tokenBucketResult_ne_err (unix : ℤ) (result : Bool × ℕ) (e : RateLimitError) :
    RateLimiter.tokenBucketResult capacity refillRate unix result ≠ .error (.err e) := by
  intro h
  simp only [RateLimiter.tokenBucketResult] at h
  split at h
  · cases h
  · split at h
    · cases h
    · split at h
      · split at h <;> cases h
      · cases h

/-! ## Runs -/

theorem holdsHash_bucketCheck {db : Db ν} (hdb : HoldsHash (bucketKey store keyDigest key) db)
    (c : RedisCheck) : HoldsHash (bucketKey store keyDigest key)
      (bucketCheck store keyDigest key capacity refillRate c db).2 := by
  simp only [bucketCheck, RateLimiter.check, RateLimiter.checkTokenBucket, RateLimiter.answer,
    backend, tokenBucketCheck]
  cases sinceEpoch c.env.unix with
  | none => exact hdb
  | some d =>
    change HoldsHash _ (store.withOpTimeout c.env (tokenBucketScript c.env.server
      (bucketKey store keyDigest key) (F64.ofInt capacity) refillRate (F64.ofDuration d)) db).2
    rcases withOpTimeout_snd c.env (tokenBucketScript c.env.server
      (bucketKey store keyDigest key) (F64.ofInt capacity) refillRate (F64.ofDuration d)) db
      with h | h
    · rw [h]; exact hdb
    · rw [h]; exact hdb.script _

/-- A check that is answered in time fails exactly when its script does. -/
theorem bucketCheck_fails_iff {db : Db ν} {c : RedisCheck} {took : ℕ}
    (hanswered : c.env.delivery = .answered took) (htook : took ≤ store.operationTimeout)
    (hunix : 0 ≤ c.env.unix) :
    (∃ e, (bucketCheck store keyDigest key capacity refillRate c db).1 = .error (.err e)) ↔
      ¬ ∃ reply, (tokenBucketScript c.env.server (bucketKey store keyDigest key)
        (F64.ofInt capacity) refillRate (F64.ofDuration c.env.unix.toNat) db).1 = .ok reply := by
  simp only [bucketCheck, RateLimiter.check, RateLimiter.checkTokenBucket, RateLimiter.answer,
    backend, tokenBucketCheck, sinceEpoch, hunix, if_true, withOpTimeout, hanswered, htook]
  change _ ↔ ¬ ∃ reply, (tokenBucketScript c.env.server (store.key ("tb:" ++ keyDigest key))
    (F64.ofInt capacity) refillRate (F64.ofDuration c.env.unix.toNat) db).1 = .ok reply
  cases hx : tokenBucketScript c.env.server (store.key ("tb:" ++ keyDigest key))
    (F64.ofInt capacity) refillRate (F64.ofDuration c.env.unix.toNat) db with
  | mk r db' =>
    cases r with
    | ok reply =>
      refine ⟨?_, fun h => (h ⟨reply, rfl⟩).elim⟩
      rintro ⟨e, he⟩
      exact (tokenBucketResult_ne_err _ _ _ he).elim
    | error msg =>
      refine ⟨?_, fun _ => ⟨_, rfl⟩⟩
      rintro - ⟨reply, hreply⟩
      cases hreply

/-- **When the bucket script completes**: after any checks from a missing key,
    a further execution completes if and only if the deadline fits; and a check
    that is answered in time ends with an error, which the middleware by
    default lets pass, if and only if it does not fit. -/
theorem redisBucket_completes_iff (start : Db ν)
    (hfresh : start.lookup (bucketKey store keyDigest key) = none) (earlier : List RedisCheck) :
    (∀ (server : ℤ) (now : ν), (∃ reply, (tokenBucketScript server (bucketKey store keyDigest key)
        (F64.ofInt capacity) refillRate now
        (run (bucketCheck store keyDigest key capacity refillRate) start earlier)).1 =
          .ok reply) ↔ DeadlineFits server capacity refillRate) ∧
    (∀ (c : RedisCheck) (took : ℕ), c.env.delivery = .answered took →
      took ≤ store.operationTimeout → 0 ≤ c.env.unix →
        ((∃ e, (bucketCheck store keyDigest key capacity refillRate c
          (run (bucketCheck store keyDigest key capacity refillRate) start earlier)).1 =
            .error (.err e)) ↔ ¬ DeadlineFits c.env.server capacity refillRate)) := by
  have hholds : HoldsHash (bucketKey store keyDigest key)
      (run (bucketCheck store keyDigest key capacity refillRate) start earlier) :=
    run_inv (fun e he => by rw [hfresh] at he; cases he) fun c _ _ h => holdsHash_bucketCheck h c
  have hcompletes : ∀ (server : ℤ) (now : ν), (∃ reply, (tokenBucketScript server
      (bucketKey store keyDigest key) (F64.ofInt capacity) refillRate now
      (run (bucketCheck store keyDigest key capacity refillRate) start earlier)).1 = .ok reply) ↔
      DeadlineFits server capacity refillRate := by
    intro server now
    obtain ⟨h, d, hb⟩ := hholds.hashAt server
    rw [tokenBucketScript_completes hb, validTtl_iff]
  refine ⟨hcompletes, ?_⟩
  intro c took hanswered htook hunix
  rw [bucketCheck_fails_iff hanswered htook hunix, hcompletes]

/-- A store with the default settings. -/
def defaultStore : RedisStore := ⟨"ratelimit", defaultOperationTimeout⟩

/-- A check at 1,700,000,000 s on both clocks, answered at once. -/
def promptCheck : RedisCheck :=
  ⟨⟨1700000000000000000, 1700000000000, .answered 0⟩, 1700000000000000000⟩

/-- One hundred tokens at one a second: the bucket works. -/
theorem redisBucket_completes_oncePerSecond :
    ¬ ∃ e, (bucketCheck defaultStore id "client" 100 (1.0 : Float) promptCheck
      (run (bucketCheck defaultStore id "client" 100 (1.0 : Float)) ∅ [promptCheck])).1 =
        .error (.err e) := by
  have hfits : DeadlineFits promptCheck.env.server 100 (1.0 : Float) :=
    ⟨110, by decide +kernel, by decide⟩
  exact mt ((redisBucket_completes_iff ∅ rfl [promptCheck]).2 promptCheck 0 rfl (by decide)
    (by decide)).mp (not_not_intro hfits)

/-- `f64::EPSILON`, the rate that `validate_algorithm` recommends for a bucket
    that never refills. -/
def f64Epsilon : Float := 2.220446049250313e-16

/-- One hundred tokens at that rate are accepted, and the first check already
    fails. -/
theorem epsilonRate_fails :
    validateAlgorithm (.tokenBucket 100 f64Epsilon) = .ok () ∧
      ∃ e, (bucketCheck defaultStore id "client" 100 f64Epsilon promptCheck ∅).1 =
        .error (.err e) :=
  ⟨by decide, .storeError (invalidExpire "expire"), by decide +kernel⟩

end ArmatureRatelimit
