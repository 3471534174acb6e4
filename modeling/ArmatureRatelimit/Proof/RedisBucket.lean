/-
  The token bucket script of the Redis store (`stores/redis.rs`).

  Over exact rationals the script subtracts clock readings without a floor, so
  a reading that goes back takes away exactly what the next one adds, and the
  value `tokens - rate * last_refill` is a clipped account whatever the order of
  the readings (`redisBucket_rate_bound`).
-/
import ArmatureRatelimit.Config
import ArmatureRatelimit.Scripts.TokenBucket
import ArmatureRatelimit.Lib.MinPlus
import ArmatureRatelimit.Lib.Runs

open Lib Lib.Redis

namespace ArmatureRatelimit

open RedisStore

/-! ## Executions -/

/-- An execution of the script: the server's clock, and the reading `now` that
    the caller sends. -/
structure Execution (ν : Type) where
  server : ℤ
  now : ν

def execute {ν : Type} [F64 ν] (key : String) (capacity refillRate : ν) (e : Execution ν) :
    Db ν → Except String (ℤ × ℤ) × Db ν :=
  tokenBucketScript e.server key capacity refillRate e.now

/-- Executions on a key that starts missing; whenever the key is there, its
    deadline has not passed. -/
structure ScriptRun where
  key : String
  capacity : ℕ
  refillRate : ℚ
  rate_pos : 0 < refillRate
  start : Db ℚ
  fresh : start.lookup key = none
  execs : ℕ → Execution ℚ
  noExpiry : ∀ n e, (stateAt (execute key (capacity : ℚ) refillRate) start execs n).lookup key =
    some e → e.live (execs n).server = true

namespace ScriptRun

section
variable (R : ScriptRun)

def step : Execution ℚ → Db ℚ → Except String (ℤ × ℤ) × Db ℚ :=
  execute R.key (R.capacity : ℚ) R.refillRate

/-- The bucket of the key before execution `n`. -/
def entryAt (n : ℕ) : Option (Entry ℚ) := (stateAt R.step R.start R.execs n).lookup R.key

/-- Execution `n` replies that the request is allowed. -/
def admits (n : ℕ) : Bool :=
  match outputAt R.step R.start R.execs n with
  | .ok reply => reply.1 == 1
  | .error _ => false

/-- The hash that execution `n` finds. -/
def hashOf (n : ℕ) : KeyMap String ℚ :=
  match R.entryAt n with
  | some ⟨.hash h, _⟩ => h
  | _ => ∅

/-- The tokens that execution `n` finds after its refill. -/
def levelAt (n : ℕ) : ℚ := refilled (R.capacity : ℚ) R.refillRate (R.execs n).now (R.hashOf n)

end

variable {R : ScriptRun}

theorem stateAt_holdsHash (R : ScriptRun) (n : ℕ) :
    HoldsHash R.key (stateAt R.step R.start R.execs n) := by
  refine stateAt_inv (P := fun _ db => HoldsHash R.key db) ?_ ?_ n
  · intro e he
    rw [R.fresh] at he
    cases he
  · intro n db h
    exact h.script _

theorem hashAt_hashOf (R : ScriptRun) (n : ℕ) :
    ∃ d, hashAt (R.execs n).server R.key (stateAt R.step R.start R.execs n) =
      some (R.hashOf n, d) := by
  have hlive := R.noExpiry n
  change ∀ e, R.entryAt n = some e → e.live (R.execs n).server = true at hlive
  have hholds := R.stateAt_holdsHash n
  change ∀ e, R.entryAt n = some e → ∃ h, e.value = .hash h at hholds
  have hfind : find (R.execs n).server R.key (stateAt R.step R.start R.execs n) = R.entryAt n :=
    find_live hlive
  rw [hashOf]
  cases he : R.entryAt n with
  | none => exact ⟨none, viewAt_none (hfind.trans he)⟩
  | some e =>
    obtain ⟨h, hval⟩ := hholds e he
    obtain ⟨v, d⟩ := e
    obtain rfl : v = .hash h := hval
    exact ⟨d, viewAt_some (hfind.trans he) rfl⟩

theorem execution_lookup (R : ScriptRun) (n : ℕ) : ∃ d, R.entryAt (n + 1) =
    some ⟨.hash (written (R.capacity : ℚ) R.refillRate (R.execs n).now (R.hashOf n)), d⟩ := by
  obtain ⟨d, hb⟩ := R.hashAt_hashOf n
  obtain ⟨httl, ht⟩ := toInt?_bucketTtl_rat R.capacity R.rate_pos
  refine tokenBucketScript_lookup hb ?_
  intro t' ht'
  rw [httl] at ht'
  exact Option.some.inj ht' ▸ ht

/-- An execution is admitted only if it finds a token. -/
theorem one_le_levelAt {n : ℕ} (hn : R.admits n = true) : 1 ≤ R.levelAt n := by
  obtain ⟨d, hb⟩ := R.hashAt_hashOf n
  rw [admits] at hn
  split at hn
  · rename_i reply hok
    rw [tokenBucketScript_reply hb hok] at hn
    by_contra hlt
    have hle : F64.le (F64.ofInt 1) (refilled (R.capacity : ℚ) R.refillRate (R.execs n).now
        (R.hashOf n)) = false := decide_eq_false (by rw [levelAt] at hlt; simpa using hlt)
    simp only [bucketReply, hle, Bool.false_eq_true, if_false] at hn
    cases hn
  · cases hn

/-! ## The account of a bucket -/

section
variable (R)

/-- The tokens of the bucket less what has been refilled since time zero. -/
def potentialAt : ℕ → Option ℚ
  | 0 => none
  | n + 1 => some (taken (R.levelAt n) - R.refillRate * (R.execs n).now)

/-- What a full bucket would have at execution `n`. -/
def potentialCap (n : ℕ) : ℚ := R.capacity - R.refillRate * (R.execs n).now

def consumed (n : ℕ) : ℚ := if 1 ≤ R.levelAt n then 1 else 0

end

/-- The refill is the clipping of the account, in whatever order the readings
    come. -/
theorem levelAt_eq (R : ScriptRun) (n : ℕ) :
    R.levelAt n - R.refillRate * (R.execs n).now = clip (R.potentialCap n) (R.potentialAt n) := by
  cases n with
  | zero =>
    have hnone : R.hashOf 0 = ∅ := by rw [hashOf, entryAt, stateAt, R.fresh]
    rw [levelAt, hnone, refilled_empty]
    rfl
  | succ n =>
    obtain ⟨d, hentry⟩ := R.execution_lookup n
    have hhash : R.hashOf (n + 1) =
        written (R.capacity : ℚ) R.refillRate (R.execs n).now (R.hashOf n) := by
      rw [hashOf, hentry]
    have hholds : HoldsBucket (R.hashOf (n + 1)) (taken (R.levelAt n)) (R.execs n).now := by
      rw [hhash]
      exact written_holdsBucket _
    rw [levelAt, hholds.refilled_rat]
    simp only [potentialCap, potentialAt, clip]
    rw [min_comm, ← min_sub_sub_right]
    congr 1
    ring

theorem clipped (R : ScriptRun) :
    Clipped (fun _ => True) R.potentialCap R.consumed R.potentialAt where
  zero := rfl
  step n _ := by
    rw [← R.levelAt_eq n, potentialAt, consumed, taken]
    simp only [F64.le_rat, F64.ofInt_rat, Int.cast_one, decide_eq_true_eq]
    split_ifs <;> congr 1 <;> ring
  skip n hn := absurd trivial hn
  unused n hn := absurd trivial hn

theorem card_admits_le_sum (R : ScriptRun) (i j : ℕ) :
    (((Finset.Ico i j).filter fun m => R.admits m = true).card : ℚ) ≤
      ∑ m ∈ Finset.Ico i j, R.consumed m := by
  rw [← Finset.sum_boole]
  refine Finset.sum_le_sum ?_
  intro m _
  rw [consumed]
  split_ifs with hadm hone
  · exact le_rfl
  · exact absurd (one_le_levelAt hadm) hone
  · exact zero_le_one
  · exact le_rfl

/-- **The rate of the Redis bucket**, over exact rationals: whatever the order
    of the readings, the executions from `i` up to an admitted execution `j`
    admit at most the capacity plus what is refilled from the reading of `i` to
    that of `j`. -/
theorem redisBucket_rate_bound (R : ScriptRun) {i j : ℕ} (hij : i ≤ j) (hj : R.admits j = true) :
    (((Finset.Icc i j).filter fun m => R.admits m = true).card : ℚ) ≤
      R.capacity + R.refillRate * ((R.execs j).now - (R.execs i).now) := by
  have hlevel : 1 - R.refillRate * (R.execs j).now ≤
      clip (R.potentialCap j) (R.potentialAt j) := by
    rw [← R.levelAt_eq j]
    linarith [one_le_levelAt hj]
  have hbound := (R.clipped.le_clip_iff trivial _).mp hlevel i hij trivial
  have hsum := R.card_admits_le_sum i j
  have hsplit : ((Finset.Icc i j).filter fun m => R.admits m = true).card =
      ((Finset.Ico i j).filter fun m => R.admits m = true).card + 1 := by
    rw [← Finset.Ico_insert_right hij, Finset.filter_insert, if_pos hj,
      Finset.card_insert_of_notMem (by simp)]
  rw [potentialCap] at hbound
  rw [hsplit]
  push_cast
  linarith

/-- Two instances on one bucket of one token a second, whose clocks are two
    seconds apart. -/
def skewedClocks (n : ℕ) : Execution ℚ := ⟨0, if n % 2 = 0 then n + 2 else n⟩

/-- While the server's clock stands still, nothing expires. -/
theorem skewedClocks_live (n : ℕ) :
    HoldsHash "tb" (stateAt (execute "tb" ((1 : ℕ) : ℚ) 1) ∅ skewedClocks n) ∧
      ∀ e, (stateAt (execute "tb" ((1 : ℕ) : ℚ) 1) ∅ skewedClocks n).lookup "tb" = some e →
        e.live 0 = true := by
  induction n with
  | zero =>
    have hnone : (∅ : Db ℚ).lookup "tb" = none := rfl
    exact ⟨fun e he => (Option.some_ne_none e (he.symm.trans hnone)).elim,
      fun e he => (Option.some_ne_none e (he.symm.trans hnone)).elim⟩
  | succ n ih =>
    refine ⟨ih.1.script _, ?_⟩
    intro e he
    obtain ⟨h, d, hb⟩ := ih.1.hashAt (skewedClocks n).server
    have httl : F64.toInt? (bucketTtl ((1 : ℕ) : ℚ) 1) = some 11 := by decide +kernel
    have hvalid : (0 : ℤ) + 1000 * 11 ≤ int64Max := by decide
    rw [stateAt_succ, execute, tokenBucketScript_lookup_valid hb httl (by decide) hvalid] at he
    obtain rfl := Option.some.inj he
    rfl

def skewedRun : ScriptRun where
  key := "tb"
  capacity := 1
  refillRate := 1
  rate_pos := one_pos
  start := ∅
  fresh := rfl
  execs := skewedClocks
  noExpiry n := (skewedClocks_live n).2

theorem redisBucket_rate_bound_skewed :
    (((Finset.Icc 0 4).filter fun m => skewedRun.admits m = true).card : ℚ) ≤
      skewedRun.capacity +
        skewedRun.refillRate * ((skewedRun.execs 4).now - (skewedRun.execs 0).now) :=
  redisBucket_rate_bound skewedRun (by decide) (by decide +kernel)

end ScriptRun

end ArmatureRatelimit
