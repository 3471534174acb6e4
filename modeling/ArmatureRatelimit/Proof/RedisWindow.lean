/-
  The sliding window of the Redis store (`stores/redis.rs`).

  The stamps of a key are milliseconds, and the script drops those that are not
  after `now - window`, both truncated.  The checks of one key are a trace of its
  keys (`SlidingRun.trace`), and a request executes before the stamps of the last
  window expire, so the limit holds for stamps that span less than the truncated
  window (`redisWindow_limit`).
-/
import ArmatureRatelimit.Proof.KeyNames
import ArmatureRatelimit.Proof.WindowTrace

open Lib Lib.Redis

namespace ArmatureRatelimit

open RedisStore

variable {ν : Type}

/-! ## Runs of checks -/

/-- Checks of one key by any number of instances, whose scripts execute in the
    order of a shared clock, on a key that starts missing. -/
structure SlidingRun (ν : Type) where
  store : RedisStore
  keyDigest : String → String
  key : String
  maxRequests : ℕ
  window : ℕ
  start : Db ν
  calls : ℕ → RedisEnv
  fresh_key : start.lookup (windowKeys store (keyDigest key)).key = none
  fresh_seq : start.lookup (windowKeys store (keyDigest key)).seqkey = none
  inOrder : ∀ i j, i ≤ j → (calls i).unix ≤ (calls j).unix
  server_inOrder : ∀ i j, i ≤ j → (calls i).server ≤ (calls j).server

namespace SlidingRun

section
variable (R : SlidingRun ν)

def step (env : RedisEnv) : Db ν → Outcome (Bool × ℕ) × Db ν :=
  R.store.slidingWindowCheck R.keyDigest env R.key R.maxRequests R.window

def keys : WindowKeys := windowKeys R.store (R.keyDigest R.key)

/-- Check `n` is admitted. -/
def admits (n : ℕ) : Bool := isAdmitted (outputAt R.step R.start R.calls n)

/-- The whole milliseconds of the reading of check `n`. -/
def millis (n : ℕ) : ℕ := Duration.asMillis (R.calls n).unix.toNat

/-- An admitted request executes on the server no earlier than its reading, and
    at most nine seconds later. -/
def Prompt : Prop :=
  ∀ n, R.admits n = true → (R.millis n : ℤ) ≤ (R.calls n).server ∧
    (R.calls n).server ≤ R.millis n + 9000

/-- Up to check `n` the readings are in the range of the doubles, and the checks
    find the counter in the range of the texts. -/
def ExactTo (n : ℕ) : Prop :=
  ∀ k ≤ n, R.millis k < 2 ^ 53 ∧
    integerAt (R.calls k).server R.keys.seqkey (stateAt R.step R.start R.calls k) < 10 ^ 14

end

variable {R : SlidingRun ν}

theorem check_executes (R : SlidingRun ν) (n : ℕ) (env : RedisEnv)
    (henv : some (R.calls n) = some env) :
    (stateAt R.step R.start R.calls (n + 1) = stateAt R.step R.start R.calls n ∧
      R.admits n = false) ∨
    (stateAt R.step R.start R.calls (n + 1) =
        (sentScript R.keys R.maxRequests R.window env (stateAt R.step R.start R.calls n)).2 ∧
      (R.admits n = true → 0 ≤ env.unix ∧ Granted
        (sentScript R.keys R.maxRequests R.window env (stateAt R.step R.start R.calls n)).1)) := by
  obtain rfl := Option.some.inj henv
  rw [admits, outputAt, stateAt_succ]
  exact slidingWindowCheck_executes R.store R.keyDigest (R.calls n) R.key R.maxRequests R.window _

theorem check_inOrder (R : SlidingRun ν) (i j : ℕ) (env env' : RedisEnv) (hij : i ≤ j)
    (hi : some (R.calls i) = some env) (hj : some (R.calls j) = some env') :
    env.server ≤ env'.server := by
  obtain rfl := Option.some.inj hi
  obtain rfl := Option.some.inj hj
  exact R.server_inOrder i j hij

/-- The run as a trace: every call is a check. -/
def trace (R : SlidingRun ν) : WindowTrace ν where
  keys := R.keys
  maxRequests := R.maxRequests
  window := R.window
  state := stateAt R.step R.start R.calls
  request n := some (R.calls n)
  admits := R.admits
  fresh_key := R.fresh_key
  fresh_seq := R.fresh_seq
  check := R.check_executes
  other _ h := absurd h (Option.some_ne_none _)
  inOrder := R.check_inOrder

theorem ExactTo.trace {n : ℕ} (h : R.ExactTo n) : R.trace.ExactTo n := by
  intro k hk env henv
  obtain rfl := Option.some.inj henv
  exact h k hk

instance (n : ℕ) : Decidable (R.ExactTo n) :=
  inferInstanceAs (Decidable (∀ k ≤ n, _ ∧ _))

/-! ## The limit -/

/-- The deadlines of the trace. -/
theorem deadlineAt_eq (R : SlidingRun ν) (n : ℕ) : R.trace.deadlineAt n =
    (R.calls n).server + 1000 * slidingTtl (Duration.asSecs R.window) :=
  WindowTrace.deadlineAt_eq (T := R.trace) rfl

/-- The stamps of readings in the range of the doubles are their milliseconds. -/
theorem stampAt_eq {n : ℕ} (h : R.millis n < 2 ^ 53) : R.trace.stampAt n = R.millis n := by
  rw [WindowTrace.stampAt_eq (T := R.trace) (rfl : R.trace.request n = some (R.calls n)),
    sentStamp_exact h, sentStamp_eq h]
  rfl

/-- **A check that comes before the window is over keeps the stamp.** -/
theorem keeps_of_span (hprompt : R.Prompt) {i j k : ℕ} (hexact : R.ExactTo i)
    (hi : R.admits i = true) (hj : R.admits j = true) (hjk : j ≤ k) (hki : k ≤ i)
    (hspan : R.millis i < R.millis j + Duration.asMillis R.window) :
    R.trace.Keeps (R.calls k) j := by
  have hmono : R.millis k ≤ R.millis i :=
    Nat.div_le_div_right (Int.toNat_le_toNat (R.inOrder k i hki))
  have hserver := R.server_inOrder k i hki
  have hpi := hprompt i hi
  have hpj := hprompt j hj
  have hwin := Duration.asMillis_lt R.window
  have hri := (hexact i le_rfl).1
  have hrj := (hexact j (hjk.trans hki)).1
  have hvalid := (WindowTrace.admits_count (T := R.trace)
    (fun l hl => ExactTo.trace fun m hm => hexact m (hm.trans hl.le)) rfl hi).2.1
  rw [deadlineAt_eq, int64Max] at hvalid
  rw [WindowTrace.Keeps, deadlineAt_eq, stampAt_eq hrj]
  constructor
  · -- the server has not come to the deadline
    rcases lt_or_ge (Duration.asSecs R.window + 10) (2 ^ 53) with hsmall | hlarge
    · rw [slidingTtl_eq (by omega)]
      omega
    · have := slidingTtl_large (by omega : 2 ^ 53 ≤ (Duration.asSecs R.window : ℤ) + 10)
      omega
  · -- the cutoff has not come to the stamp
    have hsecs := slidingTtl_ge (Int.natCast_nonneg (Duration.asSecs R.window)) (by omega)
    have hwindow : asI64 (Duration.asMillis R.trace.window) = Duration.asMillis R.window :=
      asI64_of_lt (n := Duration.asMillis R.window) (by omega)
    have hspan' : (R.millis k : ℤ) < R.millis j + Duration.asMillis R.window := by
      exact_mod_cast hmono.trans_lt hspan
    rw [hwindow, sentStamp_eq (hexact k hki).1]
    exact luaInt_lt hrj (sub_lt_iff_lt_add.mpr hspan')

/-- **The limit of the Redis sliding window.**  Admitted requests whose readings
    span less than the window, both in whole milliseconds, keep to the limit. -/
theorem redisWindow_limit (R : SlidingRun ν) (hprompt : R.Prompt) (S : Finset ℕ)
    (hS : ∀ n ∈ S, R.admits n = true) (hexact : ∀ n ∈ S, R.ExactTo n)
    (hspan : ∀ m ∈ S, ∀ n ∈ S, R.millis n < R.millis m + Duration.asMillis R.window) :
    S.card ≤ R.maxRequests := by
  refine WindowTrace.card_le (T := R.trace) hS (fun n hn => (hexact n hn).trace) ?_
  intro i hi j hj _ k env hjk hki henv
  obtain rfl := Option.some.inj henv
  exact keeps_of_span hprompt (hexact i hi) (hS i hi) (hS j hj) hjk.le hki (hspan j hj i hi)

/-- Checks of one key at regular readings, in a window of one minute, each
    executed on the server in the millisecond of its reading. -/
def regular (maxRequests first period : ℕ) : SlidingRun ℚ where
  store := ⟨"ratelimit", defaultOperationTimeout⟩
  keyDigest := ArmatureRatelimit.keyDigest sampleSha256
  key := "client"
  maxRequests := maxRequests
  window := Duration.fromSecs 60
  start := ∅
  calls n := ⟨(first + n * period : ℕ), Duration.asMillis (first + n * period), .answered 0⟩
  fresh_key := rfl
  fresh_seq := rfl
  inOrder i j hij := by
    have := Nat.mul_le_mul_right period hij
    simp only
    omega
  server_inOrder i j hij := by
    have := Nat.mul_le_mul_right period hij
    exact Int.ofNat_le.mpr (Nat.div_le_div_right (by omega))

theorem regular_prompt (maxRequests first period : ℕ) : (regular maxRequests first period).Prompt :=
  fun n _ => by
    simp only [millis, regular, Int.toNat_natCast]
    omega

theorem redisWindow_limit_twoPerMinute :
    ({0, 1} : Finset ℕ).card ≤ (regular 2 0 20000000000).maxRequests := by
  refine redisWindow_limit (regular 2 0 20000000000) (regular_prompt _ _ _) {0, 1} ?_ ?_ ?_
  · decide +kernel
  · decide +kernel
  · decide

/-- Two readings at 0.9 ms and 60,000.1 ms are less than a minute apart, and
    their stamps 0 and 60,000 are not: with a limit of one both are admitted. -/
theorem redisWindow_limit_exceeded :
    (regular 1 900000 59999200000).Prompt ∧
      (∀ n ∈ ({0, 1} : Finset ℕ), (regular 1 900000 59999200000).admits n = true) ∧
      (∀ m ∈ ({0, 1} : Finset ℕ), ∀ n ∈ ({0, 1} : Finset ℕ),
        ((regular 1 900000 59999200000).calls n).unix -
          ((regular 1 900000 59999200000).calls m).unix <
            (regular 1 900000 59999200000).window) ∧
      ¬ ({0, 1} : Finset ℕ).card ≤ (regular 1 900000 59999200000).maxRequests := by
  refine ⟨regular_prompt _ _ _, ?_, ?_, ?_⟩
  · decide +kernel
  · decide
  · decide

end SlidingRun

end ArmatureRatelimit
