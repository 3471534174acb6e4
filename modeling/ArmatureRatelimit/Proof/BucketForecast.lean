/-
  `remaining` of a token bucket (`algorithms/token_bucket.rs`) and of the token
  buckets of the memory store (`stores/memory.rs`), over exact rationals.

  A check refills the bucket before it looks for a token; the queries report the
  tokens that the last operation has left.  So a query foretells the check
  exactly as long as the refill since then completes no whole token
  (`bucketRemaining_foretells_iff`).
-/
import ArmatureRatelimit.Proof.Forecast

open Lib

namespace ArmatureRatelimit

namespace BucketState

/-- The refill up to `now` completes no whole token. -/
def SameWhole (capacity : ℕ) (refillRate : ℚ) (now : ℤ) (b : BucketState ℚ) : Prop :=
  ⌊min (b.tokens + Duration.secs (durationSince now b.lastRefill) * refillRate) capacity⌋₊ =
    ⌊b.tokens⌋₊

/-- A check leaves no more tokens than the capacity. -/
theorem acquire_snd_le (capacity : ℕ) (refillRate : ℚ) (inserted now : ℤ)
    (e : Option (BucketState ℚ)) :
    (acquire capacity refillRate inserted now e).2.tokens ≤ capacity := by
  have hrefill : ((e.getD (full capacity inserted)).refill capacity refillRate now).tokens ≤
      capacity := by
    simp only [refill, F64.min_rat, F64.ofInt_rat, Int.cast_natCast]
    exact min_le_right _ _
  rw [acquire]
  generalize (e.getD (full capacity inserted)).refill capacity refillRate now = b at hrefill ⊢
  simp only [consume, F64.le_rat, F64.ofInt_rat, Int.cast_one]
  split_ifs
  · show b.tokens - 1 ≤ capacity
    linarith
  · exact hrefill

/-- What the queries read of a bucket. -/
theorem toU64_tokens {capacity : ℕ} (hcap : capacity ≤ u64Max) {b : BucketState ℚ}
    (hb : b.tokens ≤ capacity) : F64.toU64 b.tokens = ⌊b.tokens⌋₊ := by
  have hfloor : ⌊b.tokens⌋₊ ≤ capacity := Nat.floor_le_of_le hb
  have hread : F64.toU64 b.tokens = min ⌊b.tokens⌋₊ u64Max := rfl
  rw [hread, Nat.min_eq_left (by omega)]

theorem toU64_max_zero (x : ℚ) : F64.toU64 (F64.max x (F64.ofInt 0)) = F64.toU64 x := by
  simp only [F64.max, F64.lt_rat, F64.ofInt_rat, Int.cast_zero, decide_eq_true_eq]
  split_ifs with hx
  · rfl
  · have hfloor : ⌊x⌋ ≤ 0 := by
      rw [← Int.floor_zero (R := ℚ)]
      exact Int.floor_le_floor (not_lt.mp hx)
    rw [F64.toU64_rat, F64.toU64_rat, Int.floor_zero, Int.toNat_of_nonpos hfloor]
    rfl

theorem foretells_iff_sameWhole {capacity : ℕ} (hcap : capacity ≤ u64Max) (refillRate : ℚ)
    (inserted now : ℤ) {b : BucketState ℚ} (hb : b.tokens ≤ capacity) :
    Foretells (F64.toU64 b.tokens) (.ok (acquire capacity refillRate inserted now (some b)).1) ↔
      SameWhole capacity refillRate now b := by
  rw [acquire_some_fst hcap, foretells_answerOf, toU64_tokens hcap hb, eq_comm]
  rfl

end BucketState

/-! ## The limiter -/

namespace TokenBucket

/-- The limiter has its parameters, and no bucket has more tokens than fit. -/
structure Filled (capacity : ℕ) (refillRate : ℚ) (s : TokenBucket ℚ) : Prop where
  hasCapacity : s.capacity = capacity
  hasRate : s.refillRate = refillRate
  tokens : ∀ key b, s.buckets.lookup key = some b → b.tokens ≤ capacity

theorem Filled.operate {capacity : ℕ} {refillRate : ℚ} {s : TokenBucket ℚ}
    (h : Filled capacity refillRate s) (e : Operation) :
    Filled capacity refillRate (operate e s).2 := by
  obtain ⟨rfl, rfl, htokens⟩ := h
  obtain ⟨op, now, inserted, sel⟩ := e
  refine ⟨?_, ?_, ?_⟩
  · cases op <;> rfl
  · cases op <;> rfl
  · intro k b hb
    cases op with
    | check key =>
      exact makeRoom_access_forall sel lastActive
        (fun e _ => BucketState.acquire_snd_le s.capacity s.refillRate inserted now e) s.maxKeys key
        htokens hb
    | reset key =>
      have hinsert : (s.buckets.insert key (.full s.capacity now)).lookup k = some b := hb
      rw [KeyMap.lookup_insert_eq_ite] at hinsert
      split_ifs at hinsert
      · obtain rfl := Option.some.inj hinsert
        simp [BucketState.full]
      · exact htokens k b hinsert
    | remaining key => exact htokens k b hb

theorem filled_run {capacity : ℕ} {refillRate : ℚ} {limiter : TokenBucket ℚ}
    (hnew : new capacity refillRate = some limiter) (maxKeys : ℕ) (ops : List Operation) :
    Filled capacity refillRate (run TokenBucket.operate (limiter.withMaxKeys maxKeys) ops) := by
  obtain ⟨-, rfl⟩ := new_eq_some.mp hnew
  refine run_inv ?_ fun e _ s hs => hs.operate e
  exact ⟨rfl, rfl, fun key b h => by cases h⟩

end TokenBucket

/-! ## The store -/

/-- No more tokens than fit in the bucket of a key. -/
theorem KeyRun.tokens_le {key : String} {capacity : ℕ} {refillRate : ℚ} {s : MemoryStore ℚ}
    {calls : List (StoreCall ℚ)} {t : ℤ}
    (h : KeyRun key (.tokenBucket capacity refillRate) s calls t) {b : TokenBucketState ℚ}
    (hb : (run MemoryStore.call s calls).tokenBuckets.lookup key = some b) :
    b.tokens ≤ capacity := by
  have hentries := h.entries (P := fun _ ks => ∀ b, ks.bucket = some b → b.tokens ≤ capacity)
    (fun _ _ _ _ hP => hP) ?_ ?_ ?_
  · exact hentries b hb
  · intro _ ks ks' hsheds hP b hb
    exact hP b (of_kept_or_gone hsheds.bucket hb)
  · intro _ b hb
    cases hb
  · intro now _ ks _ b hb
    obtain rfl := Option.some.inj hb
    exact BucketState.acquire_snd_le _ _ _ _ _

/-- **What a query tells about a token bucket.**  A query of a tracked key
    foretells the check at `t` exactly if the refill from the last operation on
    the key up to `t` completes no whole token. -/
theorem bucketRemaining_foretells_iff {capacity : ℕ} (hcap : capacity ≤ u64Max) (refillRate : ℚ)
    (key : String) :
    (∀ limiter, TokenBucket.new capacity refillRate = some limiter → ∀ maxKeys ops b,
      (run TokenBucket.operate (limiter.withMaxKeys maxKeys) ops).buckets.lookup key = some b →
      ∀ sel inserted t,
        (Foretells
            ((run TokenBucket.operate (limiter.withMaxKeys maxKeys) ops).remaining key)
            (.ok ((run TokenBucket.operate (limiter.withMaxKeys maxKeys) ops).tryAcquire sel key
              inserted t).1) ↔
          b.SameWhole capacity refillRate t)) ∧
    ∀ s calls t, KeyRun key (.tokenBucket capacity refillRate) s calls t → ∀ b,
      (run MemoryStore.call s calls).tokenBuckets.lookup key = some b →
        (Foretells ((run MemoryStore.call s calls).remaining key t)
            ((run MemoryStore.call s calls).tokenBucketCheck key capacity refillRate t).1 ↔
          b.SameWhole capacity refillRate t) := by
  constructor
  · intro limiter hnew maxKeys ops b hb sel inserted t
    obtain ⟨hcapacity, hrate, htokens⟩ := TokenBucket.filled_run hnew maxKeys ops
    obtain ⟨s, hs⟩ : ∃ s, s = run TokenBucket.operate (limiter.withMaxKeys maxKeys) ops :=
      ⟨_, rfl⟩
    rw [← hs] at hb hcapacity hrate htokens ⊢
    have hcheck : (s.tryAcquire sel key inserted t).1 =
        (BucketState.acquire capacity refillRate inserted t (some b)).1 := by
      rw [← hb, ← hcapacity, ← hrate]
      exact (makeRoom_access_self sel TokenBucket.lastActive s.maxKeys _ key s.buckets).1
    rw [hcheck, TokenBucket.remaining, hb]
    exact BucketState.foretells_iff_sameWhole hcap refillRate inserted t (htokens key b hb)
  · intro s calls t h b hb
    have htokens := h.tokens_le hb
    generalize run MemoryStore.call s calls = s' at hb ⊢
    have hcheck : (s'.tokenBucketCheck key capacity refillRate t).1 =
        .ok (BucketState.acquire capacity refillRate t t (some b)).1 := by
      rw [← hb]
      rfl
    rw [hcheck, MemoryStore.remaining, hb]
    simp only [BucketState.toU64_max_zero]
    exact BucketState.foretells_iff_sameWhole hcap refillRate t t htokens

/-- A check of the key `a` at the start. -/
def firstCheck : Operation := ⟨.check "a", 0, 0, .sorting⟩

/-- A bucket after its first check, refilled by one token a second. -/
def checkedBucket (capacity : ℕ) : TokenBucket ℚ :=
  run TokenBucket.operate (TokenBucket.withMaxKeys ⟨capacity, 1, ∅, defaultMaxKeys⟩ 1) [firstCheck]

def checkedStore (capacity : ℕ) : MemoryStore ℚ :=
  run MemoryStore.call .new [callAt 0 (.check "a" (.tokenBucket capacity 1))]

/-- A bucket of two tokens, half a second after the first one was taken. -/
theorem bucketRemaining_foretells_halfway :
    Foretells ((checkedBucket 2).remaining "a")
        (.ok ((checkedBucket 2).tryAcquire .sorting "a" 500000000 500000000).1) ∧
      Foretells ((checkedStore 2).remaining "a" 500000000)
        ((checkedStore 2).tokenBucketCheck "a" 2 1 500000000).1 := by
  have hwhole : BucketState.SameWhole 2 1 500000000 ⟨1, 0⟩ := by
    unfold BucketState.SameWhole
    decide +kernel
  have hboth := @bucketRemaining_foretells_iff 2 (by decide) 1 "a"
  refine ⟨(hboth.1 _ rfl 1 [firstCheck] ⟨1, 0⟩ (by decide +kernel) _ _ _).mpr hwhole, ?_⟩
  exact (hboth.2 _ _ _ (keyRun_single _ _ (by decide)) ⟨1, 0⟩ (by decide +kernel)).mpr hwhole

/-- A bucket of one token, a second after it was taken: nothing is left, and the
    check is admitted. -/
theorem bucketRemaining_stale :
    ¬ Foretells ((checkedBucket 1).remaining "a")
        (.ok ((checkedBucket 1).tryAcquire .sorting "a" 1000000000 1000000000).1) ∧
      ¬ Foretells ((checkedStore 1).remaining "a" 1000000000)
        ((checkedStore 1).tokenBucketCheck "a" 1 1 1000000000).1 := by
  exact ⟨not_foretells_admitted 0 (by decide +kernel) (by decide +kernel),
    not_foretells_admitted 0 (by decide +kernel) (by decide +kernel)⟩

end ArmatureRatelimit
