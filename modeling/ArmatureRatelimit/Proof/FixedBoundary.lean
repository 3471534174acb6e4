/-
  Where a fixed window ends, for the limiter and for the Redis store (`lib.rs`,
  `stores/redis.rs`).

  The limiter computes `retry_after` in `u128` from a clock reading of its own,
  and the store computes window ids in `u64` from its readings.  Both take the
  milliseconds of the window, at least one, so the delay ends where the next
  window id starts (`retryAfter_next`), and a check that waits for it is the
  first of its window (`Denial.redisFixed_retryAfter`).
-/
import ArmatureRatelimit.Proof.KeyNames
import ArmatureRatelimit.Proof.RetryAfter

open Lib Lib.Redis

namespace ArmatureRatelimit

open RedisStore

variable {ν : Type}

/-! ## The delay -/

/-- Readings in the range of a `u64` have window ids in their order. -/
theorem windowIdAt_mono {window : ℕ} {t u : ℤ} (htu : t ≤ u)
    (hu : Duration.asMillis u.toNat < 2 ^ 53) : windowIdAt window t ≤ windowIdAt window u := by
  have hmillis : Duration.asMillis t.toNat ≤ Duration.asMillis u.toNat :=
    Nat.div_le_div_right (Int.toNat_le_toNat htu)
  unfold windowIdAt
  rw [asU64_of_lt (by omega), asU64_of_lt (by omega)]
  exact Nat.div_le_div_right hmillis

section
variable {window : ℕ} {unix : ℤ}

/-- The limiter's delay after a denial, in milliseconds. -/
def waitMillis (window : ℕ) (unix : ℤ) : ℕ :=
  RateLimiter.windowEndMs (max (Duration.asMillis window) 1) (Duration.asMillis unix.toNat) -
    Duration.asMillis unix.toNat

theorem waitMillis_bounds (window : ℕ) (unix : ℤ) :
    0 < waitMillis window unix ∧ waitMillis window unix ≤ max (Duration.asMillis window) 1 := by
  have hpos : 0 < max (Duration.asMillis window) 1 := lt_max_of_lt_right one_pos
  have hstart := windowStartMs_le (max (Duration.asMillis window) 1)
    (Duration.asMillis unix.toNat)
  have hend := lt_windowEndMs hpos (Duration.asMillis unix.toNat)
  unfold waitMillis
  rw [windowEndMs_eq]
  omega

/-- **Both clocks agree on the boundary**: after the delay the window id is a
    later one. -/
theorem retryAfter_next (hwindow : Duration.asMillis window < 2 ^ 53) (hunix : 0 ≤ unix)
    (hlt : Duration.asMillis unix.toNat < 2 ^ 53) {t : ℤ}
    (ht : unix + Duration.fromMillis (waitMillis window unix) ≤ t)
    (htlt : Duration.asMillis t.toNat < 2 ^ 53) :
    windowIdAt window unix < windowIdAt window t := by
  have hmillis : windowMillis window = max (Duration.asMillis window) 1 := by
    unfold windowMillis
    rw [asU64_of_lt (by omega)]
  have hpos : 0 < max (Duration.asMillis window) 1 := lt_max_of_lt_right one_pos
  have hend : Duration.asMillis unix.toNat + waitMillis window unix =
      (Duration.asMillis unix.toNat / max (Duration.asMillis window) 1 + 1) *
        max (Duration.asMillis window) 1 := by
    have hlt' := lt_windowEndMs hpos (Duration.asMillis unix.toNat)
    rw [← windowEndMs_eq] at hlt'
    unfold waitMillis
    rw [Nat.add_sub_cancel' hlt'.le]
    rfl
  have hreached : Duration.asMillis unix.toNat + waitMillis window unix ≤
      Duration.asMillis t.toNat := by
    generalize waitMillis window unix = wait at ht
    simp only [Duration.asMillis, Duration.fromMillis] at ht ⊢
    omega
  unfold windowIdAt
  rw [hmillis, asU64_of_lt (by omega), asU64_of_lt (by omega)]
  refine Nat.lt_of_succ_le ((Nat.le_div_iff_mul_le hpos).mpr ?_)
  rw [hend] at hreached
  exact hreached

end

/-! ## A denial and the next check -/

/-- A call that, if it is a fixed window check of the digest, has this window and
    has read the clock by `unix`. -/
def RedisCall.ReadsBy (keyDigest : String → String) (digest : String) (window : ℕ) (unix : ℤ)
    (c : RedisCall ν) : Prop := ∀ key maxRequests window',
  c.op = .fixedWindow key maxRequests window' → keyDigest key = digest →
    window' = window ∧ c.env.unix ≤ unix

/-- Calls by any number of instances, on a server where the windows of a key
    start without counters, and then a check of the key, for which the store
    reads `env.unix` and the limiter `unix`.  No check of the key before it has
    read the clock after the limiter. -/
structure Denial (ν : Type) where
  store : RedisStore
  keyDigest : String → String
  key : String
  maxRequests : ℕ
  maxRequests_pos : 1 ≤ maxRequests
  window : ℕ
  window_pos : 0 < window
  window_lt : Duration.asMillis window < 2 ^ 53
  start : Db ν
  fresh : ∀ q, start.lookup (store.counterKey (keyDigest key) q) = none
  before : List (RedisCall ν)
  env : RedisEnv
  unix : ℤ
  limiter_after : env.unix ≤ unix
  unix_lt : Duration.asMillis unix.toNat < 2 ^ 53
  earlier : ∀ c ∈ before, c.ReadsBy keyDigest (keyDigest key) window unix

namespace Denial

section
variable [F64 ν] (R : Denial ν)

/-- The call is no check of the key that reads the clock after the limiter. -/
def Earlier (c : RedisCall ν) : Prop :=
  c.ReadsBy R.keyDigest (R.keyDigest R.key) R.window R.unix

def step : RedisCall ν → Db ν → Outcome (Option (Bool × ℕ)) × Db ν := R.store.serve R.keyDigest

/-- A check of the limiter over the store. -/
def check (env : RedisEnv) (unix : ℤ) : Db ν → Outcome RateLimitCheckResult × Db ν :=
  RateLimiter.checkFixedWindow (R.store.backend R.keyDigest) env unix R.key R.maxRequests R.window

/-- The keys before the denied check. -/
def db : Db ν := run R.step R.start R.before

/-- The keys before a check after it. -/
def dbAfter (between : List (RedisCall ν)) : Db ν :=
  run R.step (R.check R.env R.unix R.db).2 between

end

variable [F64 ν] {R : Denial ν}

omit [F64 ν] in
/-- An earlier check counts in no later window. -/
theorem Earlier.window?_ne {c : RedisCall ν} (hc : R.Earlier c) {q : ℕ}
    (hq : windowIdAt R.window R.unix < q) :
    c.window? R.keyDigest ≠ some (R.keyDigest R.key, q) := by
  intro hwindow
  unfold RedisCall.window? at hwindow
  split at hwindow
  · rename_i key' maxRequests' window' hop
    obtain ⟨hdigest, hid⟩ := Prod.mk.inj (Option.some.inj hwindow)
    obtain ⟨rfl, hunix⟩ := hc _ _ _ hop hdigest
    have hle : windowIdAt R.window c.env.unix ≤ windowIdAt R.window R.unix :=
      windowIdAt_mono hunix R.unix_lt
    omega
  · cases hwindow

/-- What the limiter returns comes from an answer of the store. -/
theorem answer_ok {env : RedisEnv} {unix : ℤ} {db : Db ν} {r : RateLimitCheckResult}
    (h : (R.check env unix db).1 = .ok r) : ∃ res,
      (R.store.fixedWindowCheck R.keyDigest env R.key R.maxRequests R.window db).1 = .ok res ∧
      RateLimiter.fixedWindowResult R.maxRequests R.window unix res = .ok r := by
  change (R.store.fixedWindowCheck R.keyDigest env R.key R.maxRequests R.window db).1 >>= _ = _ at h
  cases hres : (R.store.fixedWindowCheck R.keyDigest env R.key R.maxRequests R.window db).1 with
  | ok res =>
    rw [hres] at h
    exact ⟨res, rfl, h⟩
  | error e =>
    rw [hres] at h
    cases h

/-- The counters of later windows are still missing after the denied check. -/
theorem counter_missing {between : List (RedisCall ν)} (hbetween : ∀ c ∈ between, R.Earlier c)
    {q : ℕ} (hq : windowIdAt R.window R.unix < q) :
    (R.dbAfter between).lookup (R.store.counterKey (R.keyDigest R.key) q) = none := by
  have hdb : R.db.lookup (R.store.counterKey (R.keyDigest R.key) q) = none := by
    refine run_inv (P := fun db : Db ν => db.lookup _ = none) (R.fresh q) ?_
    intro c hc db hmissing
    exact serve_counter_missing (Earlier.window?_ne (R.earlier c hc) hq) hmissing
  refine run_inv (P := fun db : Db ν => db.lookup _ = none) ?_ ?_
  · -- the denied check counts in its own window
    have hself : R.Earlier ⟨R.env, .fixedWindow R.key R.maxRequests R.window⟩ := by
      intro key' maxRequests' window' hop _
      obtain ⟨-, -, rfl⟩ := RedisOp.fixedWindow.inj hop
      exact ⟨rfl, R.limiter_after⟩
    exact serve_counter_missing (hself.window?_ne hq) hdb
  · intro c hc db hmissing
    exact serve_counter_missing ((hbetween c hc).window?_ne hq) hmissing

omit [F64 ν] in
/-- The first check of a window is admitted. -/
theorem first_admitted {db : Db ν} {env : RedisEnv} {took : ℕ}
    (hanswered : env.delivery = .answered took) (htook : took ≤ R.store.operationTimeout)
    (hunix : 0 ≤ env.unix) (hserver : env.server < 2 ^ 53)
    (hmissing : db.lookup (R.store.counterKey (R.keyDigest R.key)
      (windowIdAt R.window env.unix)) = none) :
    (R.store.fixedWindowCheck R.keyDigest env R.key R.maxRequests R.window db).1 =
      .ok (true, R.maxRequests - 1) := by
  have hwindow := R.window_lt
  have hmillis : windowMillis R.window ≤ 2 ^ 53 := by
    unfold windowMillis
    rw [asU64_of_lt (by omega)]
    omega
  have hvalid : env.server + 1000 * luaInt (fixedTtl R.window) ≤ int64Max := by
    rw [luaInt_fixedTtl (by omega)]
    unfold fixedTtl int64Max
    omega
  have hfind : find env.server (R.store.counterKey (R.keyDigest R.key)
      (windowIdAt R.window env.unix)) db = none := by
    rw [find, hmissing]
    rfl
  rw [fixedWindowCheck_eq hunix]
  simp only
  rw [withOpTimeout_answered hanswered htook, checkScript, asI64_fixedTtl,
    fixedWindowScript_first hfind (luaInt_fixedTtl_pos _) hvalid]
  have hone : fixedDecision R.maxRequests 1 = (true, R.maxRequests - 1) := if_pos R.maxRequests_pos
  show Except.ok (fixedDecision R.maxRequests 1) = _
  rw [hone]

/-- One request a second, asked for twice in the first millisecond of the epoch. -/
def twice : Denial ℚ where
  store := ⟨"ratelimit", defaultOperationTimeout⟩
  keyDigest := ArmatureRatelimit.keyDigest sampleSha256
  key := "client"
  maxRequests := 1
  maxRequests_pos := le_rfl
  window := Duration.fromSecs 1
  window_pos := by decide
  window_lt := by decide
  start := ∅
  fresh _ := rfl
  before := [⟨⟨0, 0, .answered 0⟩, .fixedWindow "client" 1 (Duration.fromSecs 1)⟩]
  env := ⟨0, 0, .answered 0⟩
  unix := 0
  limiter_after := le_rfl
  unix_lt := by decide
  earlier c hc key maxRequests window hop _ := by
    obtain rfl := List.mem_singleton.mp hc
    obtain ⟨-, -, rfl⟩ := RedisOp.fixedWindow.inj hop
    exact ⟨rfl, le_rfl⟩

/-- One request a second, asked for by an instance whose clock is ahead, and then
    by another one at the epoch. -/
def readAhead : Db ℚ := run (twice.store.serve twice.keyDigest) ∅
  [⟨⟨1500000000, 1500, .answered 0⟩, .fixedWindow "client" 1 (Duration.fromSecs 1)⟩,
    ⟨⟨0, 1500, .answered 0⟩, .fixedWindow "client" 1 (Duration.fromSecs 1)⟩]

end Denial

end ArmatureRatelimit
