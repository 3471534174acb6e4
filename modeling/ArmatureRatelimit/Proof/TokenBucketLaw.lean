/-
  What the token bucket admits (`algorithms/token_bucket.rs`), over exact
  rationals.

  Between two calls of a key the value `tokens - rate * last_refill` does not
  change, and a call first clips it to `capacity - rate * now`: it is a clipped
  account, whose closed form says exactly which calls are admitted.
-/
import ArmatureRatelimit.Algorithms.TokenBucket
import ArmatureRatelimit.Lib.Counting
import ArmatureRatelimit.Lib.MinPlus
import ArmatureRatelimit.Lib.Runs

open Lib

namespace ArmatureRatelimit

/-! ## Calls of one key -/

section
variable (s₀ : TokenBucket ℚ) (calls : ℕ → TokenBucket.Call) (key : String)

/-- The bucket of the key before call `n`. -/
def bucketAt (n : ℕ) : Option (BucketState ℚ) :=
  (stateAt TokenBucket.call s₀ calls n).buckets.lookup key

/-- Call `n` is a call of the key, and it is admitted. -/
def bucketAdmits (n : ℕ) : Bool :=
  decide ((calls n).key = key) && (outputAt TokenBucket.call s₀ calls n).1

/-- The calls of the key come in the order of time, the key starts without a
    bucket, and its bucket is never evicted. -/
structure BucketRun : Prop where
  fresh : s₀.buckets.lookup key = none
  inOrder : ∀ i j, i ≤ j → (calls i).key = key → (calls j).key = key →
    (calls i).now ≤ (calls j).now
  kept : ∀ n, bucketAt s₀ calls key n ≠ none → bucketAt s₀ calls key (n + 1) ≠ none

end

variable {s₀ : TokenBucket ℚ} {calls : ℕ → TokenBucket.Call} {key : String}

theorem capacity_stateAt (n : ℕ) :
    (stateAt TokenBucket.call s₀ calls n).capacity = s₀.capacity ∧
      (stateAt TokenBucket.call s₀ calls n).refillRate = s₀.refillRate :=
  stateAt_inv (P := fun _ (s : TokenBucket ℚ) =>
    s.capacity = s₀.capacity ∧ s.refillRate = s₀.refillRate) ⟨rfl, rfl⟩ (fun _ _ h => h) n

/-- The tokens that call `n` finds after its refill. -/
def levelAt (s₀ : TokenBucket ℚ) (calls : ℕ → TokenBucket.Call) (key : String) (n : ℕ) : ℚ :=
  BucketState.level s₀.capacity s₀.refillRate (calls n).now (bucketAt s₀ calls key n)

/-- What a call of the key answers and leaves. -/
theorem bucket_call (hr : 0 ≤ s₀.refillRate) {n : ℕ} (hn : (calls n).key = key) :
    (outputAt TokenBucket.call s₀ calls n = if 1 ≤ levelAt s₀ calls key n then
        (true, F64.toU64 (levelAt s₀ calls key n - 1)) else (false, 0)) ∧
      bucketAt s₀ calls key (n + 1) = some ⟨if 1 ≤ levelAt s₀ calls key n then
        levelAt s₀ calls key n - 1 else levelAt s₀ calls key n, (calls n).now⟩ := by
  obtain ⟨hcap, hrate⟩ := @capacity_stateAt s₀ calls n
  subst hn
  obtain ⟨hout, hlook⟩ := makeRoom_access_self (calls n).sel TokenBucket.lastActive
    (stateAt TokenBucket.call s₀ calls n).maxKeys
    (BucketState.acquire (stateAt TokenBucket.call s₀ calls n).capacity
      (stateAt TokenBucket.call s₀ calls n).refillRate (calls n).inserted (calls n).now)
    (calls n).key (stateAt TokenBucket.call s₀ calls n).buckets
  rw [hcap, hrate] at hout hlook
  rw [BucketState.acquire_rat_fst hr] at hout
  rw [BucketState.acquire_rat_snd hr] at hlook
  constructor
  · rw [outputAt, TokenBucket.call, TokenBucket.tryAcquire, hcap, hrate]; exact hout
  · rw [bucketAt, stateAt_succ, TokenBucket.call, TokenBucket.tryAcquire, hcap, hrate]; exact hlook

/-- A call of another key leaves the bucket, as it is never evicted. -/
theorem BucketRun.call_other (h : BucketRun s₀ calls key) {n : ℕ} (hn : (calls n).key ≠ key) :
    bucketAt s₀ calls key (n + 1) = bucketAt s₀ calls key n := by
  rcases makeRoom_access_ne (calls n).sel TokenBucket.lastActive
    (stateAt TokenBucket.call s₀ calls n).maxKeys
    (BucketState.acquire (stateAt TokenBucket.call s₀ calls n).capacity
      (stateAt TokenBucket.call s₀ calls n).refillRate (calls n).inserted (calls n).now)
    (Ne.symm hn) (stateAt TokenBucket.call s₀ calls n).buckets with heq | hnone
  · exact heq
  · by_contra hne
    refine h.kept n (fun hnil => hne ?_) hnone
    rw [hnil]; exact hnone

/-- A bucket was last refilled by an earlier call of its key. -/
theorem BucketRun.lastRefill (h : BucketRun s₀ calls key) (hr : 0 ≤ s₀.refillRate) {n : ℕ}
    {b : BucketState ℚ} (hb : bucketAt s₀ calls key n = some b) :
    ∃ j < n, (calls j).key = key ∧ b.lastRefill = (calls j).now := by
  induction n generalizing b with
  | zero => rw [bucketAt, stateAt, h.fresh] at hb; cases hb
  | succ n ih =>
    by_cases hn : (calls n).key = key
    · rw [(bucket_call hr hn).2] at hb
      obtain rfl := Option.some.inj hb
      exact ⟨n, Nat.lt_succ_self n, hn, rfl⟩
    · rw [h.call_other hn] at hb
      obtain ⟨j, hj, hkey, hlast⟩ := ih hb
      exact ⟨j, by omega, hkey, hlast⟩

/-! ## The account of a bucket -/

section
variable (s₀ calls key)

/-- The tokens of the bucket less what has been refilled since time zero. -/
def potentialAt (n : ℕ) : Option ℚ :=
  (bucketAt s₀ calls key n).map fun b => b.tokens - s₀.refillRate * span 0 b.lastRefill

/-- What a full bucket would have at call `n`. -/
def potentialCap (n : ℕ) : ℚ := s₀.capacity - s₀.refillRate * span 0 (calls n).now

def consumed (n : ℕ) : ℚ := if bucketAdmits s₀ calls key n = true then 1 else 0

end

/-- The refill is the clipping of the account. -/
theorem BucketRun.levelAt_eq (h : BucketRun s₀ calls key) (hr : 0 ≤ s₀.refillRate) {n : ℕ}
    (hn : (calls n).key = key) :
    levelAt s₀ calls key n - s₀.refillRate * span 0 (calls n).now =
      clip (potentialCap s₀ calls n) (potentialAt s₀ calls key n) := by
  rw [levelAt, potentialCap, potentialAt]
  cases hb : bucketAt s₀ calls key n with
  | none => rfl
  | some b =>
    obtain ⟨j, hj, hkey, hlast⟩ := h.lastRefill hr hb
    have hle : b.lastRefill ≤ (calls n).now := hlast ▸ h.inOrder j n hj.le hkey hn
    have hadd := span_add 0 b.lastRefill (calls n).now
    simp only [BucketState.level, clip, Option.map_some, secs_durationSince hle]
    rw [min_comm, ← min_sub_sub_right, ← hadd]
    congr 1
    ring

theorem bucketAdmits_iff (hr : 0 ≤ s₀.refillRate) {n : ℕ} (hn : (calls n).key = key) :
    bucketAdmits s₀ calls key n = true ↔ 1 ≤ levelAt s₀ calls key n := by
  rw [bucketAdmits, (bucket_call hr hn).1]
  split_ifs with h <;> simp [hn, h]

theorem BucketRun.clipped (h : BucketRun s₀ calls key) (hr : 0 ≤ s₀.refillRate) :
    Clipped (fun n => (calls n).key = key) (potentialCap s₀ calls) (consumed s₀ calls key)
      (potentialAt s₀ calls key) where
  zero := by rw [potentialAt, bucketAt, stateAt, h.fresh]; rfl
  step n hn := by
    rw [← h.levelAt_eq hr hn, potentialAt, (bucket_call hr hn).2, consumed]
    simp only [bucketAdmits_iff hr hn, Option.map_some, Option.some.injEq]
    split_ifs <;> ring
  skip n hn := by rw [potentialAt, h.call_other hn, potentialAt]
  unused n hn := by simp [consumed, bucketAdmits, hn]

theorem sum_consumed (j i : ℕ) :
    ∑ m ∈ Finset.Ico j i, consumed s₀ calls key m =
      ((Finset.Ico j i).filter fun m => bucketAdmits s₀ calls key m = true).card := by
  simp only [consumed, Finset.sum_boole]

/-- **Maximal conforming traffic.**  A call is admitted if and only if, from
    every call of the key up to it on, it and the calls admitted in between keep
    to the capacity plus what is refilled meanwhile. -/
theorem BucketRun.admits_iff (h : BucketRun s₀ calls key) (hr : 0 ≤ s₀.refillRate) {i : ℕ}
    (hi : (calls i).key = key) :
    bucketAdmits s₀ calls key i = true ↔ ∀ j ≤ i, (calls j).key = key →
      (((Finset.Ico j i).filter fun m => bucketAdmits s₀ calls key m = true).card : ℚ) + 1 ≤
        s₀.capacity + s₀.refillRate * span (calls j).now (calls i).now := by
  rw [bucketAdmits_iff hr hi, ← sub_le_sub_iff_right (s₀.refillRate * span 0 (calls i).now),
    h.levelAt_eq hr hi, (h.clipped hr).le_clip_iff hi]
  refine forall₃_congr fun j _ _ => ?_
  rw [sum_consumed, potentialCap, ← span_add 0 (calls j).now (calls i).now]
  constructor <;> intro hle <;> linarith

/-! ## Consequences -/

theorem onKey_of_admits {n : ℕ} (h : bucketAdmits s₀ calls key n = true) :
    (calls n).key = key := by
  simp only [bucketAdmits, Bool.and_eq_true, decide_eq_true_eq] at h
  exact h.1

/-- Any span of time admits at most the capacity plus its refill. -/
theorem BucketRun.card_le (h : BucketRun s₀ calls key) (hr : 0 ≤ s₀.refillRate) (start : ℤ)
    (duration : ℕ) (S : Finset ℕ) (hS : ∀ n ∈ S, bucketAdmits s₀ calls key n = true ∧
      start ≤ (calls n).now ∧ (calls n).now ≤ start + duration) :
    (S.card : ℚ) ≤ s₀.capacity + s₀.refillRate * Duration.secs duration := by
  rcases S.eq_empty_or_nonempty with rfl | hne
  · have := mul_nonneg hr (Duration.secs_nonneg duration)
    have hcap : (0 : ℚ) ≤ s₀.capacity := Nat.cast_nonneg _
    simp only [Finset.card_empty, Nat.cast_zero]; linarith
  · have hmin := hS _ (S.min'_mem hne)
    have hmax := hS _ (S.max'_mem hne)
    have hle := S.min'_le _ (S.max'_mem hne)
    -- all of `S` but its last call lies among the calls from its first on
    have hcard := card_le_succ (T := (Finset.Ico (S.min' hne) (S.max' hne)).filter
        fun m => bucketAdmits s₀ calls key m = true) hne (by
      intro m hm hlt
      exact Finset.mem_filter.mpr
        ⟨Finset.mem_Ico.mpr ⟨S.min'_le m hm, hlt⟩, (hS m hm).1⟩)
    have hcard' : (S.card : ℚ) ≤ (((Finset.Ico (S.min' hne) (S.max' hne)).filter
        fun m => bucketAdmits s₀ calls key m = true).card : ℚ) + 1 := by exact_mod_cast hcard
    have hbound := (h.admits_iff hr (onKey_of_admits hmax.1)).mp hmax.1 _ hle
      (onKey_of_admits hmin.1)
    have hspan : span (calls (S.min' hne)).now (calls (S.max' hne)).now ≤
        Duration.secs duration := by
      have hd : (calls (S.max' hne)).now - (calls (S.min' hne)).now ≤ (duration : ℤ) := by omega
      have hq : (((calls (S.max' hne)).now - (calls (S.min' hne)).now : ℤ) : ℚ) ≤
          (duration : ℚ) := by
        exact_mod_cast hd
      simp only [span, Duration.secs]; linarith
    have := mul_le_mul_of_nonneg_left hspan hr
    linarith

/-- The stored tokens stay between zero and the capacity. -/
theorem BucketRun.tokens_mem (h : BucketRun s₀ calls key) (hr : 0 ≤ s₀.refillRate) {n : ℕ}
    {b : BucketState ℚ} (hb : bucketAt s₀ calls key n = some b) :
    0 ≤ b.tokens ∧ b.tokens ≤ s₀.capacity := by
  induction n generalizing b with
  | zero => rw [bucketAt, stateAt, h.fresh] at hb; cases hb
  | succ n ih =>
    by_cases hn : (calls n).key = key
    · have hlevel : 0 ≤ levelAt s₀ calls key n := by
        rw [levelAt]
        cases hprev : bucketAt s₀ calls key n with
        | none => exact Nat.cast_nonneg _
        | some x =>
          have := mul_nonneg (Duration.secs_nonneg (durationSince (calls n).now x.lastRefill)) hr
          exact le_min (by linarith [(ih hprev).1]) (Nat.cast_nonneg _)
      have hcap : levelAt s₀ calls key n ≤ s₀.capacity := BucketState.level_le _ _ _ _
      rw [(bucket_call hr hn).2] at hb
      obtain rfl := Option.some.inj hb
      simp only
      split_ifs with hone
      · exact ⟨by linarith, by linarith⟩
      · exact ⟨hlevel, hcap⟩
    · rw [h.call_other hn] at hb
      exact ih hb

/-- An admitted call returns the floor of the tokens left. -/
theorem bucketAdmits_remaining (hr : 0 ≤ s₀.refillRate) (hrange : s₀.capacity ≤ u64Max) {n : ℕ}
    (hn : bucketAdmits s₀ calls key n = true) :
    ∃ b, bucketAt s₀ calls key (n + 1) = some b ∧
      ((outputAt TokenBucket.call s₀ calls n).2 : ℤ) = ⌊b.tokens⌋ := by
  have hkey := onKey_of_admits hn
  have hone := (bucketAdmits_iff hr hkey).mp hn
  refine ⟨_, (bucket_call hr hkey).2, ?_⟩
  rw [(bucket_call hr hkey).1]
  simp only [hone, if_true, F64.toU64_rat]
  have hpos : 0 ≤ ⌊levelAt s₀ calls key n - 1⌋ := Int.floor_nonneg.mpr (sub_nonneg.mpr hone)
  have hcap : levelAt s₀ calls key n ≤ s₀.capacity := BucketState.level_le _ _ _ _
  have hfloor : ⌊levelAt s₀ calls key n - 1⌋ < s₀.capacity := by
    rw [Int.floor_lt]
    push_cast
    linarith
  omega

/-- **The law of the token bucket**, over exact rationals: exactly the maximal
    conforming traffic is admitted, so any span of time admits at most the
    capacity plus its refill; the tokens stay between zero and the capacity,
    and an admitted call returns the floor of those left. -/
theorem tokenBucket_law (hr : 0 < s₀.refillRate) (hrange : s₀.capacity ≤ u64Max)
    (h : BucketRun s₀ calls key) :
    (∀ i, (calls i).key = key → ((outputAt TokenBucket.call s₀ calls i).1 = true ↔
      ∀ j ≤ i, (calls j).key = key →
        (((Finset.Ico j i).filter fun m => bucketAdmits s₀ calls key m = true).card : ℚ) + 1 ≤
          s₀.capacity + s₀.refillRate * span (calls j).now (calls i).now)) ∧
    (∀ (start : ℤ) (duration : ℕ) (S : Finset ℕ), (∀ n ∈ S, bucketAdmits s₀ calls key n = true ∧
        start ≤ (calls n).now ∧ (calls n).now ≤ start + duration) →
      (S.card : ℚ) ≤ s₀.capacity + s₀.refillRate * Duration.secs duration) ∧
    (∀ n b, bucketAt s₀ calls key n = some b → 0 ≤ b.tokens ∧ b.tokens ≤ s₀.capacity) ∧
    (∀ i, (calls i).key = key → (outputAt TokenBucket.call s₀ calls i).1 = true →
      ∃ b, bucketAt s₀ calls key (i + 1) = some b ∧
        ((outputAt TokenBucket.call s₀ calls i).2 : ℤ) = ⌊b.tokens⌋) := by
  have hadm : ∀ i, (calls i).key = key →
      (bucketAdmits s₀ calls key i = true ↔ (outputAt TokenBucket.call s₀ calls i).1 = true) :=
    fun i hi => by simp [bucketAdmits, hi]
  refine ⟨?_, h.card_le hr.le, fun n b => h.tokens_mem hr.le, ?_⟩
  · intro i hi
    rw [← hadm i hi]; exact h.admits_iff hr.le hi
  · intro i hi ha
    exact bucketAdmits_remaining hr.le hrange ((hadm i hi).mpr ha)

/-- A limiter of five tokens, one a second. -/
def fiveTokens : TokenBucket ℚ := ⟨5, 1, ∅, 100⟩

/-- One client that calls once a second. -/
def oncePerSecond (n : ℕ) : TokenBucket.Call :=
  ⟨"client", .sorting, n * 1000000000, n * 1000000000⟩

theorem oncePerSecond_run : BucketRun fiveTokens oncePerSecond "client" where
  fresh := rfl
  inOrder i j hij _ _ := by simp only [oncePerSecond]; omega
  kept n _ := by
    have hkey : (oncePerSecond n).key = "client" := rfl
    rw [(bucket_call zero_le_one hkey).2]
    simp

theorem tokenBucket_law_oncePerSecond :
    ∃ b, bucketAt fiveTokens oncePerSecond "client" 1 = some b ∧
      ((outputAt TokenBucket.call fiveTokens oncePerSecond 0).2 : ℤ) = ⌊b.tokens⌋ :=
  (tokenBucket_law one_pos (by decide) oncePerSecond_run).2.2.2 0 rfl (by decide +kernel)

end ArmatureRatelimit
