/-
  The arithmetic of a token bucket check (`check_token_bucket`), in `f64`.

  The delay of a denial is `1 / refill_rate` seconds, clamped to `u64::MAX as f64`.
  That bound is `2 ^ 64` itself, one more than a `Duration` can hold: a delay that
  reaches it panics.  `checkTokenBucket_returns_iff`: it does so for the rates up
  to `2 ^ -64`, and for no others.
-/
import ArmatureRatelimit.Config
import ArmatureRatelimit.Lib.Binary64

open Lib Float.Model

namespace ArmatureRatelimit

/-! ## The clamped delay -/

theorem unpack_ofU64Max : (F64.ofU64Max : Float).toModel.unpack = Binary64.binade 12 := rfl

theorem lt_eq_unpack (x y : Float) : F64.lt x y = x.toModel.unpack.lt y.toModel.unpack := by
  show decide (_ = true) = _
  exact Bool.decide_eq_true

theorem toDuration_zero : F64.toDuration (F64.ofInt 0 : Float) = some 0 := by decide +kernel

/-- The bound of the clamp is not a duration. -/
theorem toDuration_ofU64Max : F64.toDuration (F64.ofU64Max : Float) = none := by
  decide +kernel

theorem toDuration_of_value {x : Float} {q : ℚ} (hx : floatValue x = some q) (hq : 0 ≤ q) :
    F64.toDuration x = if 2 ^ 64 * 1000000000 ≤ F64.roundEven (q * 1000000000) then none
      else some (F64.roundEven (q * 1000000000)).toNat := by
  have hvalue : F64.toRat? x = some q := hx
  simp only [F64.toDuration, hvalue]
  exact if_neg hq.not_gt

/-- Up to the greatest number below `2 ^ 64`, a number is a duration. -/
theorem toDuration_isSome {x : Float} {q : ℚ} (hx : floatValue x = some q) (hq : 0 ≤ q)
    (hle : q ≤ 2 ^ 64 - 2 ^ 11) : (F64.toDuration x).isSome = true := by
  have hround : F64.roundEven (q * 1000000000) ≤ (2 ^ 64 - 2 ^ 11) * 1000000000 :=
    F64.roundEven_le (by push_cast; linarith)
  rw [toDuration_of_value hx hq, if_neg (by omega)]
  rfl

theorem toDuration_two_pow {x : Float} (hx : floatValue x = some (2 ^ 64)) :
    F64.toDuration x = none := by
  have hround : 2 ^ 64 * 1000000000 ≤ F64.roundEven (2 ^ 64 * 1000000000) :=
    F64.le_roundEven (by norm_num)
  rw [toDuration_of_value hx (by positivity), if_pos hround]

/-- Only a number below `2 ^ 64` becomes a duration, after it is clamped. -/
theorem toDuration_clamp (x : Float) :
    (F64.toDuration (F64.clamp x (F64.ofInt 0) F64.ofU64Max)).isSome =
      F64.lt x F64.ofU64Max := by
  have hc := Binary64.unpack_canonical x.toModel.toBits.toBitVec
  have hvalue : F64.toRat? x = floatValue x := rfl
  change Binary64.Canonical x.toModel.unpack at hc
  simp only [F64.clamp, lt_eq_unpack, unpack_ofU64Max]
  cases hx : x.toModel.unpack with
  | notANumber =>
    have hnone : F64.toRat? x = none := by rw [hvalue, floatValue, hx]
    show (F64.toDuration x).isSome = false
    rw [F64.toDuration, hnone]
    rfl
  | infinity s =>
    cases s with
    | negative => exact congrArg Option.isSome toDuration_zero
    | positive => exact congrArg Option.isSome toDuration_ofU64Max
  | zero s =>
    show (F64.toDuration x).isSome = true
    have hzero : floatValue x = some 0 := by rw [floatValue, hx]
    exact toDuration_isSome hzero le_rfl (by norm_num)
  | finite s m e hm =>
    cases s with
    | negative => exact congrArg Option.isSome toDuration_zero
    | positive =>
      rw [hx] at hc
      obtain ⟨hm53, -, -, hnormal⟩ := hc
      show (F64.toDuration (if (Binary64.binade 12).lt _ = true then _ else x)).isSome = _
      have hvalue : floatValue x = some ((m : ℚ) * 2 ^ e) := by
        rw [floatValue, hx]
        rfl
      by_cases hover : 12 < e ∨ 12 = e ∧ 2 ^ 52 < m
      · rw [if_pos ((Binary64.binade_lt hm).mpr hover), toDuration_ofU64Max]
        refine (Bool.eq_false_iff.mpr ?_).symm
        rw [ne_eq, Binary64.lt_binade]
        omega
      · rw [if_neg (by rwa [Binary64.binade_lt])]
        rcases lt_or_eq_of_le (by omega : e ≤ 12) with he | rfl
        · rw [(Binary64.lt_binade hm).mpr (.inl he)]
          refine toDuration_isSome hvalue (by positivity) ?_
          have hm' : (m : ℚ) ≤ 2 ^ 53 - 1 := by
            have : m + 1 ≤ 2 ^ 53 := hm53
            have : ((m + 1 : ℕ) : ℚ) ≤ ((2 ^ 53 : ℕ) : ℚ) := by exact_mod_cast this
            push_cast at this
            linarith
          calc (m : ℚ) * 2 ^ e ≤ (2 ^ 53 - 1) * 2 ^ (11 : ℤ) :=
                mul_le_mul hm' (zpow_le_zpow_right₀ one_le_two (by omega)) (by positivity)
                  (by norm_num)
            _ = 2 ^ 64 - 2 ^ 11 := by norm_num
        · -- the float is the bound itself
          obtain rfl : m = 2 ^ 52 := by omega
          have hbound : floatValue x = some (2 ^ 64) := by
            rw [hvalue]
            norm_num
          rw [toDuration_two_pow hbound]
          rfl

/-! ## Rates -/

/-- An accepted rate is a positive number. -/
theorem unpack_of_valid {capacity : ℕ} {refillRate : Float}
    (h : (Algorithm.tokenBucket capacity refillRate).Valid) :
    ∃ m e hm, refillRate.toModel.unpack = .finite .positive m e hm := by
  obtain ⟨-, hfinite, hpos⟩ := h
  change (floatValue refillRate).isSome = true at hfinite
  have hle : F64.le refillRate (F64.ofInt 0) =
      refillRate.toModel.unpack.le (.zero .positive) := by
    show decide (_ = true) = _
    exact Bool.decide_eq_true
  rw [hle] at hpos
  rw [floatValue] at hfinite
  cases hr : refillRate.toModel.unpack with
  | notANumber =>
    rw [hr] at hfinite
    cases hfinite
  | infinity s =>
    rw [hr] at hfinite
    cases hfinite
  | zero s =>
    rw [hr] at hpos
    cases hpos
  | finite s m e hm =>
    cases s with
    | positive => exact ⟨m, e, hm, rfl⟩
    | negative =>
      rw [hr] at hpos
      cases hpos

/-- **The delay.**  The clamped delay of a rate is a duration exactly when the rate
    is above `2 ^ -64`. -/
theorem delay_isSome {refillRate : Float} {m : ℕ} {e : ℤ} {hm : 0 < m}
    (hr : refillRate.toModel.unpack = .finite .positive m e hm) :
    (F64.toDuration (F64.clamp (F64.ofInt 1 / refillRate) (F64.ofInt 0) F64.ofU64Max)).isSome =
        true ↔
      ∃ q, floatValue refillRate = some q ∧ 1 / 2 ^ 64 < q := by
  have hc := Binary64.unpack_canonical refillRate.toModel.toBits.toBitVec
  change Binary64.Canonical refillRate.toModel.unpack at hc
  rw [hr] at hc
  have hrecip : (F64.ofInt 1 / refillRate : Float).toModel.unpack =
      UnpackedFloat.unpack Format.binary64 (UnpackedFloat.pack Format.binary64
        (UnpackedFloat.div Format.binary64 Binary64.one refillRate.toModel.unpack)) := rfl
  have hvalue : floatValue refillRate = some ((m : ℚ) * 2 ^ e) := by
    rw [floatValue, hr]
    rfl
  rw [toDuration_clamp, lt_eq_unpack, unpack_ofU64Max, hrecip, hr,
    Binary64.recip_lt_binade hm hc (by norm_num) (by norm_num), hvalue]
  have hpow : (2 : ℚ) ^ (-(52 + 12) : ℤ) = 1 / 2 ^ 64 := by norm_num
  rw [hpow]
  constructor
  · exact fun h => ⟨_, rfl, h⟩
  · rintro ⟨q, hq, hlt⟩
    rwa [Option.some.inj hq]

/-! ## Checks -/

section
variable {ε σ : Type}

/-- **A token bucket check returns.**  When the store has answered, the check
    returns a result exactly when the clock does not read before the epoch and
    the request is admitted or the rate is above `2 ^ -64`. -/
theorem checkTokenBucket_returns_iff (store : RateLimitStore Float ε σ) (env : ε) (unix : ℤ)
    (key : String) {capacity : ℕ} {refillRate : Float} (s : σ) {allowed : Bool} {remaining : ℕ}
    (hvalid : (Algorithm.tokenBucket capacity refillRate).Valid)
    (hstore : (store.tokenBucketCheck env key capacity refillRate s).1 = .ok (allowed, remaining)) :
    (∃ result,
      (RateLimiter.checkTokenBucket store env unix key capacity refillRate s).1 = .ok result) ↔
      0 ≤ unix ∧ (allowed = true ∨ ∃ q, floatValue refillRate = some q ∧ 1 / 2 ^ 64 < q) := by
  obtain ⟨m, e, hm, hr⟩ := unpack_of_valid hvalid
  have hrefills : (F64.lt (F64.ofInt 0) refillRate && F64.isFinite refillRate) = true := by
    rw [hvalid.2.1, lt_eq_unpack, hr]
    rfl
  rw [← delay_isSome hr]
  simp only [RateLimiter.checkTokenBucket, RateLimiter.answer, hstore]
  show (∃ result, RateLimiter.tokenBucketResult capacity refillRate unix (allowed, remaining) =
    .ok result) ↔ _
  simp only [RateLimiter.tokenBucketResult, hrefills, if_true]
  by_cases hunix : 0 ≤ unix
  · have hclock : sinceEpoch unix = some unix.toNat := if_pos hunix
    simp only [hclock, hunix, true_and]
    cases allowed with
    | true => simp
    | false =>
      cases F64.toDuration (F64.clamp (F64.ofInt 1 / refillRate) (F64.ofInt 0) F64.ofU64Max) <;>
        simp
  · have hclock : sinceEpoch unix = none := if_neg hunix
    simp [hclock, hunix]

/-- A store that denies every request. -/
def denyAll : RateLimitStore Float Unit Unit where
  tokenBucketCheck _ _ _ _ _ := (.ok (false, 0), ())
  slidingWindowCheck _ _ _ _ _ := (.ok (false, 0), ())
  fixedWindowCheck _ _ _ _ _ := (.ok (false, 0), ())

/-- With `f64::EPSILON`, which the configuration recommends, a denial is reported. -/
theorem checkTokenBucket_returns_epsilon :
    ∃ result, (RateLimiter.checkTokenBucket denyAll () 1700000000000000000 "client" 1
      (1 / 4503599627370496) ()).1 = .ok result :=
  (checkTokenBucket_returns_iff denyAll () 1700000000000000000 "client" ()
    ⟨by decide, by decide, by decide⟩ rfl).mpr
    ⟨by decide, .inr ⟨1 / 4503599627370496, by decide +kernel, by norm_num⟩⟩

/-- At a rate of `2 ^ -64`, which is accepted, a denial panics. -/
theorem checkTokenBucket_panics :
    (Algorithm.tokenBucket 1 (1 / 18446744073709551616 : Float)).Valid ∧
    (RateLimiter.checkTokenBucket denyAll () 1700000000000000000 "client" 1
      (1 / 18446744073709551616) ()).1 = .error .panic :=
  ⟨⟨by decide, by decide, by decide⟩, by decide +kernel⟩

end

end ArmatureRatelimit
