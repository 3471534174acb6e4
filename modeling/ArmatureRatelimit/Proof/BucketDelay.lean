/-
  How long a denied request has to wait under the token bucket, over exact
  rationals.

  The delay is the period of the refill rate, rounded to the nearest nanosecond.
  A bucket that is empty at the denial refills a whole token in an exact period,
  so a delay that is rounded down comes short by the tokens of less than a
  nanosecond.  It is long enough exactly when the bucket held at least these
  when it denied (`bucketDelay_suffices_iff`).
-/
import ArmatureRatelimit.Proof.Accounting
import ArmatureRatelimit.MemoryRuns

open Lib

namespace ArmatureRatelimit

/-! ## The rounded period -/

/-- The seconds per token, rounded to nanoseconds. -/
def period (refillRate : ℚ) : ℕ := (F64.roundEven (1 / refillRate * 1000000000)).toNat

/-- The part of a token that does not refill in the rounded period. -/
def shortfall (refillRate : ℚ) : ℚ := 1 - Duration.secs (period refillRate) * refillRate

theorem roundEven_sub_le (q : ℚ) : q - F64.roundEven q ≤ 1 / 2 := by
  have hlo := Int.floor_le q
  have hhi := Int.lt_floor_add_one q
  have hmod : 0 ≤ ⌊q⌋ % 2 := Int.emod_nonneg _ (by decide)
  have hmod' : (0 : ℚ) ≤ (⌊q⌋ % 2 : ℤ) := by exact_mod_cast hmod
  unfold F64.roundEven
  split_ifs with hlt hgt
  · linarith
  · push_cast; linarith
  · push_cast at hmod' ⊢; linarith

section
variable {refillRate : ℚ}

theorem secs_period (hr : 0 < refillRate) :
    Duration.secs (period refillRate) =
      (F64.roundEven (1 / refillRate * 1000000000) : ℚ) / 1000000000 := by
  have hnonneg : 0 ≤ F64.roundEven (1 / refillRate * 1000000000) :=
    F64.le_roundEven (by push_cast; positivity)
  have hcast : ((period refillRate : ℕ) : ℚ) = F64.roundEven (1 / refillRate * 1000000000) := by
    have := Int.toNat_of_nonneg hnonneg
    exact_mod_cast this
  rw [Duration.secs, hcast]

/-- Rounding loses no more than the tokens of half a nanosecond. -/
theorem shortfall_le (hr : 0 < refillRate) : shortfall refillRate ≤ refillRate / 2000000000 := by
  have hround := roundEven_sub_le (1 / refillRate * 1000000000)
  have hcancel : 1 / refillRate * refillRate = 1 := one_div_mul_cancel hr.ne'
  rw [shortfall, secs_period hr]
  have hscaled := mul_le_mul_of_nonneg_right hround hr.le
  linarith

/-- A period of whole nanoseconds is not rounded. -/
theorem shortfall_of_whole (hr : 0 < refillRate) {k : ℤ}
    (hk : 1 / refillRate * 1000000000 = k) : shortfall refillRate = 0 := by
  have hcancel : 1 / refillRate * refillRate = 1 := one_div_mul_cancel hr.ne'
  rw [shortfall, secs_period hr, hk, F64.roundEven_intCast, ← hk]
  linarith

/-! ## The check -/

theorem refills_rat (hr : 0 < refillRate) :
    (F64.lt (F64.ofInt 0) refillRate && F64.isFinite refillRate) = true := by
  simp [F64.isFinite, F64.toRat?, hr]

theorem clamp_period (hr : 0 < refillRate) (hlong : 1 / refillRate < 2 ^ 64) :
    F64.clamp (F64.ofInt 1 / refillRate) (F64.ofInt 0) F64.ofU64Max = 1 / refillRate := by
  have hpos : ¬ 1 / refillRate < 0 := not_lt.mpr (by positivity)
  have hle : ¬ (2 : ℚ) ^ 64 < 1 / refillRate := not_lt.mpr hlong.le
  simp only [F64.clamp, F64.ofU64Max, F64.ofInt_rat, F64.lt_rat, Int.cast_one, Int.cast_zero,
    decide_eq_true_eq, hpos, if_false]
  rw [if_neg (by push_cast; exact hle)]

/-- The delay of a denial is the rounded period. -/
theorem tokenBucketResult_denied (hr : 0 < refillRate) (hlong : 1 / refillRate < 2 ^ 64)
    {capacity : ℕ} {unix : ℤ} {remaining : ℕ} {result : RateLimitCheckResult}
    (h : RateLimiter.tokenBucketResult capacity refillRate unix (false, remaining) = .ok result) :
    result.retryAfter = some (period refillRate) := by
  simp only [RateLimiter.tokenBucketResult, refills_rat hr, clamp_period hr hlong] at h
  cases hd : sinceEpoch unix with
  | none => simp [hd] at h
  | some d =>
    cases hdelay : F64.toDuration (1 / refillRate) with
    | none =>
      simp only [hd, hdelay, Bool.false_eq_true, if_false, if_true] at h
      cases h
    | some delay =>
      have hperiod : delay = period refillRate := by
        have hnonneg : ¬ 1 / refillRate < 0 := not_lt.mpr (by positivity)
        simp only [F64.toDuration, F64.toRat?, hnonneg, if_false] at hdelay
        split_ifs at hdelay
        exact (Option.some.inj hdelay).symm
      simp only [hd, hdelay, Bool.false_eq_true, if_false, if_true] at h
      rw [← Except.ok.inj h, hperiod]
      rfl

end

/-! ## Waiting -/

section
variable (capacity : ℕ) (refillRate : ℚ) (key : String)

/-- Whatever happens to other keys after `s`, a check of the key that is made `d`
    or more after `t` is admitted. -/
def AdmitsFrom (t : ℤ) (d : ℕ) (s : MemoryStore ℚ) : Prop :=
  ∀ others : List Event, (∀ e ∈ others, e.Spares key) →
    ∀ (env : MemoryEnv) (unix : ℤ), t + d ≤ env.now →
      isAdmitted (MemoryStore.checkWith (.tokenBucket capacity refillRate) env key
        (run (MemoryStore.step (.tokenBucket capacity refillRate)) s others)).1 = true ∧
      (0 ≤ unix → ∃ result, (RateLimiter.check MemoryStore.backend env unix key
        (.tokenBucket capacity refillRate)
        (run (MemoryStore.step (.tokenBucket capacity refillRate)) s others)).1 = .ok result ∧
        result.allowed = true)

variable {capacity refillRate key}

theorem tokenBucket_checkWith (hr : 0 ≤ refillRate) (env : MemoryEnv) (s : MemoryStore ℚ) :
    (isAdmitted (MemoryStore.checkWith (.tokenBucket capacity refillRate) env key s).1 = true ↔
      1 ≤ BucketState.level capacity refillRate env.now (s.tokenBuckets.lookup key)) := by
  show isAdmitted (.ok (BucketState.acquire capacity refillRate env.now env.now
    (s.tokenBuckets.lookup key)).1) = true ↔ _
  rw [BucketState.acquire_rat_fst hr]
  split_ifs with h <;> simp [isAdmitted, h]

/-- A denial leaves the tokens of the key as they are at that time. -/
theorem tokenBucket_denied (hr : 0 < refillRate) (hlong : 1 / refillRate < 2 ^ 64)
    {env : MemoryEnv} {unix : ℤ} {s s' : MemoryStore ℚ} {result : RateLimitCheckResult}
    (h : RateLimiter.check MemoryStore.backend env unix key (.tokenBucket capacity refillRate) s =
      (.ok result, s')) (hno : result.allowed = false) :
    result.retryAfter = some (period refillRate) ∧
      s'.tokenBuckets.lookup key =
        some ⟨BucketState.level capacity refillRate env.now (s.tokenBuckets.lookup key),
          env.now⟩ := by
  have hresult : RateLimiter.tokenBucketResult capacity refillRate unix
      (BucketState.acquire capacity refillRate env.now env.now (s.tokenBuckets.lookup key)).1 =
      .ok result := congrArg Prod.fst h
  have hentry : s'.tokenBuckets.lookup key = some (BucketState.acquire capacity refillRate env.now
      env.now (s.tokenBuckets.lookup key)).2 := by
    rw [← show (RateLimiter.check MemoryStore.backend env unix key
      (.tokenBucket capacity refillRate) s).2 = s' from congrArg Prod.snd h]
    exact KeyMap.access_lookup_self _ _ _
  rw [BucketState.acquire_rat hr.le] at hresult hentry
  split_ifs at hresult hentry with hlevel
  · rcases RateLimiter.resultOf_cases (.tokenBucket capacity refillRate) unix true (F64.toU64
        (BucketState.level capacity refillRate env.now (s.tokenBuckets.lookup key) - 1)) with
      ⟨x, hx, hallowed, -⟩ | ⟨hx, -⟩
    · obtain rfl := Except.ok.inj (hx.symm.trans hresult)
      cases hno.symm.trans hallowed
    · cases hx.symm.trans hresult
  · exact ⟨tokenBucketResult_denied hr hlong hresult, hentry⟩

/-- No bucket is overdrawn. -/
theorem tokens_nonneg (hr : 0 ≤ refillRate) {start : MemoryStore ℚ}
    (hstart : start.tokenBuckets = ∅) (history : List Event) {x : TokenBucketState ℚ}
    (hx : (run (MemoryStore.step (.tokenBucket capacity refillRate)) start
      history).tokenBuckets.lookup key = some x) : 0 ≤ x.tokens := by
  refine (tokenBucketView capacity refillRate).entry_inv (tokenBucketView_keepsEntries _ _)
    (P := fun x => 0 ≤ x.tokens) ?_ hstart key x hx
  rintro ev - b e hb he
  obtain rfl := Option.some.inj hb
  show 0 ≤ (BucketState.acquire capacity refillRate ev.now ev.now e).2.tokens
  rw [BucketState.acquire_rat_snd hr]
  have hlevel : 0 ≤ BucketState.level capacity refillRate ev.now e :=
    BucketState.level_nonneg hr he
  split_ifs with h
  · exact sub_nonneg.mpr h
  · exact hlevel

/-- Where the rounding leaves nothing out, any bucket holds enough. -/
theorem shortfall_le_level (hr : 0 ≤ refillRate) (hexact : shortfall refillRate ≤ 0)
    {start : MemoryStore ℚ} (hstart : start.tokenBuckets = ∅) (history : List Event) (now : ℤ) :
    shortfall refillRate ≤ BucketState.level capacity refillRate now
      ((run (MemoryStore.step (.tokenBucket capacity refillRate)) start
        history).tokenBuckets.lookup key) :=
  hexact.trans (BucketState.level_nonneg hr fun _ hx => tokens_nonneg hr hstart history hx)

/-! ## The exact condition -/

/-- **The delay of a denied token bucket check.**  After any history, the delay
    that a denial returns is long enough if and only if the bucket held, at the
    denial, the part of a token that the rounding of the delay leaves out. -/
theorem bucketDelay_suffices_iff (hcap : 1 ≤ capacity) (hr : 0 < refillRate)
    (hlong : 1 / refillRate < 2 ^ 64) (start : MemoryStore ℚ) (history : List Event)
    {env : MemoryEnv} {unix : ℤ} {s' : MemoryStore ℚ} {result : RateLimitCheckResult}
    (hcheck : RateLimiter.check MemoryStore.backend env unix key (.tokenBucket capacity refillRate)
      (run (MemoryStore.step (.tokenBucket capacity refillRate)) start history) = (.ok result, s'))
    (hdenied : result.allowed = false) {d : ℕ} (hd : result.retryAfter = some d) :
    AdmitsFrom capacity refillRate key env.now d s' ↔
      shortfall refillRate ≤ BucketState.level capacity refillRate env.now
        ((run (MemoryStore.step (.tokenBucket capacity refillRate)) start
          history).tokenBuckets.lookup key) := by
  obtain ⟨hdelay, hentry⟩ := tokenBucket_denied hr hlong hcheck hdenied
  obtain rfl : d = period refillRate := Option.some.inj (hd.symm.trans hdelay)
  generalize BucketState.level capacity refillRate env.now ((run (MemoryStore.step
    (.tokenBucket capacity refillRate)) start history).tokenBuckets.lookup key) = level at *
  have hcap' : (1 : ℚ) ≤ capacity := by exact_mod_cast hcap
  have hlater : ∀ others : List Event, (∀ e ∈ others, e.Spares key) → ∀ later : MemoryEnv,
      (isAdmitted (MemoryStore.checkWith (.tokenBucket capacity refillRate) later key
        (run (MemoryStore.step (.tokenBucket capacity refillRate)) s' others)).1 = true ↔
      1 ≤ level + Duration.secs (durationSince later.now env.now) * refillRate) := by
    intro others hothers later
    have hframe := (lookup_run_of_spares (tokenBucketView capacity refillRate) hothers s').trans
      hentry
    change (run _ s' others).tokenBuckets.lookup key = _ at hframe
    rw [tokenBucket_checkWith hr.le, hframe, BucketState.level, le_min_iff]
    exact and_iff_left hcap'
  simp only [shortfall, sub_le_iff_le_add]
  constructor
  · intro h
    obtain ⟨later, hnow⟩ : ∃ later : MemoryEnv, later.now = env.now + period refillRate :=
      ⟨⟨env.now + period refillRate, env.order⟩, rfl⟩
    have hadm := (hlater [] (by simp) later).mp (h [] (by simp) later 0 hnow.ge).1
    have hsince : durationSince later.now env.now = period refillRate := by
      simp only [durationSince]; omega
    rwa [hsince] at hadm
  · intro h others hothers later unix' hnow
    have hsince : period refillRate ≤ durationSince later.now env.now := by
      simp only [durationSince]; omega
    have hmono := mul_le_mul_of_nonneg_right (Duration.secs_mono hsince) hr.le
    have hadm := (hlater others hothers later).mpr (by linarith)
    exact ⟨hadm, fun hunix => RateLimiter.check_of_admitted hunix hadm⟩

end

/-! ### Three tokens a second -/

/-- A bucket of one token, which was taken at the start of the clock. -/
def takenAtStart : MemoryStore ℚ :=
  run (MemoryStore.step (.tokenBucket 1 3)) .new
    [⟨⟨0, .stored⟩, 1700000000000000000, .check "client"⟩]

def deniedAt (t : ℤ) : Outcome RateLimitCheckResult × MemoryStore ℚ :=
  RateLimiter.check MemoryStore.backend ⟨t, .stored⟩ 1700000000000000000 "client"
    (.tokenBucket 1 3) takenAtStart

/-- Denied after a nanosecond, the request may be made again 333333333 ns later. -/
theorem bucketDelay_suffices_later :
    AdmitsFrom 1 3 "client" 1 333333333 (deniedAt 1).2 :=
  have hcheck : RateLimiter.check MemoryStore.backend ⟨1, .stored⟩ 1700000000000000000 "client"
      (.tokenBucket 1 3) takenAtStart =
      (.ok (.deny 1 1700000000 333333333), (deniedAt 1).2) :=
    Prod.ext (by decide +kernel) rfl
  (bucketDelay_suffices_iff (by decide) (by norm_num) (by norm_num) .new _ hcheck rfl rfl).mpr
    (by decide +kernel)

/-- Denied at the start of the clock, the request is denied again 333333333 ns
    later. -/
theorem bucketDelay_short :
    (Algorithm.tokenBucket 1 (3 : ℚ)).Valid ∧
    (deniedAt 0).1 = .ok (.deny 1 1700000000 333333333) ∧
    ¬ AdmitsFrom 1 3 "client" 0 333333333 (deniedAt 0).2 := by
  refine ⟨⟨by decide, by decide, by decide⟩, by decide +kernel, ?_⟩
  intro h
  have hadmitted := (h [] (by simp) ⟨333333333, .stored⟩ 0 (by decide)).1
  revert hadmitted
  decide +kernel

end ArmatureRatelimit
