/-
  An idle TTL that is long enough (`with_idle_ttl` in `stores/memory.rs`).

  A store that is used with one algorithm does not show its `cleanup` passes if
  what they evict is stale: a log whose stamps have all left the window, a
  window that is over, a bucket that has become full (`cleanup_unnoticed`).
-/
import ArmatureRatelimit.Proof.Prune

open Lib

namespace ArmatureRatelimit

/-- The idle TTL outlasts what the algorithm remembers. -/
def LongEnough (idleTtl : ℕ) : Algorithm ℚ → Prop
  | .tokenBucket capacity refillRate => (capacity : ℚ) ≤ Duration.secs idleTtl * refillRate
  | .slidingWindowLog _ window => window < idleTtl
  | .fixedWindow _ window => window ≤ idleTtl

/-- A bucket of capacity zero never holds a token, whatever its rate. -/
theorem tokenBucketBody_zero (refillRate : ℚ) (now : ℤ) (e : Option (BucketState ℚ)) :
    (MemoryStore.tokenBucketBody 0 refillRate now e).1 = (false, 0) := by
  unfold MemoryStore.tokenBucketBody BucketState.acquire BucketState.consume BucketState.refill
  simp only [F64.min_rat, F64.ofInt_rat, F64.le_rat]
  rw [if_neg]
  simp

/-- So its checks answer alike in all states. -/
theorem zeroCapacity_silentSim (refillRate : ℚ) :
    SilentSim (MemoryStore.storeStep (.tokenBucket 0 refillRate)) (fun e => !e.isPrune) Event.now
      MemoryStore.WithinCap (fun _ _ _ => True) where
  mono _ _ := trivial
  visible_step {e s s'} hv _ := by
    obtain ⟨env, unix, action⟩ := e
    cases action with
    | check key =>
      refine ⟨?_, trivial⟩
      show Reply.decision (.ok (MemoryStore.tokenBucketBody 0 refillRate env.now _).1) =
        Reply.decision (.ok (MemoryStore.tokenBucketBody 0 refillRate env.now _).1)
      rw [tokenBucketBody_zero, tokenBucketBody_zero]
    | reset key => exact ⟨rfl, trivial⟩
    | prune => cases hv
  silent_step _ _ _ := trivial

/-- **Cleanup goes unnoticed.**  In a store that is used with one algorithm and
    whose idle TTL is long enough for it, every check of a run answers as in the
    run without the cleanup passes. -/
theorem cleanup_unnoticed {algorithm : Algorithm ℚ} {s : MemoryStore ℚ}
    (hlong : LongEnough s.idleTtl algorithm) (hbuckets : s.tokenBuckets = ∅)
    (hlogs : s.slidingLogs = ∅) (hwindows : s.fixedWindows = ∅) {evs : List Event}
    (hord : InOrder evs)
    (hcap : Along (MemoryStore.storeStep algorithm) MemoryStore.WithinCap s evs) :
    MemoryStore.storeReplies algorithm s evs =
      MemoryStore.storeReplies algorithm s (evs.filter fun e => !e.isPrune) := by
  cases algorithm with
  | slidingWindowLog maxRequests window =>
    exact (slidingWindow_fading maxRequests hlong).trace_filter
      (slidingWindowView_actsOnStore _ _).actsBy_storeStep rfl hlogs hord hcap
  | fixedWindow maxRequests window =>
    exact (fixedWindow_fading maxRequests hlong).trace_filter
      (fixedWindowView_actsOnStore _ _).actsBy_storeStep rfl hwindows hord hcap
  | tokenBucket capacity refillRate =>
    have hlong : (capacity : ℚ) ≤ Duration.secs s.idleTtl * refillRate := hlong
    rcases le_or_gt 0 refillRate with hr | hr
    · exact (tokenBucket_fading hr hlong).trace_filter
        (tokenBucketView_actsOnStore _ _).actsBy_storeStep rfl hbuckets hord hcap
    · -- only a bucket of capacity zero meets the condition at a negative rate
      have hzero : capacity = 0 := by
        have hle := mul_nonpos_of_nonneg_of_nonpos (Duration.secs_nonneg s.idleTtl) hr.le
        exact_mod_cast le_antisymm (hlong.trans hle) (Nat.cast_nonneg capacity)
      subst hzero
      cases evs with
      | nil => rfl
      | cons e evs =>
        refine (zeroCapacity_silentSim refillRate).trace_filter (t := e.now) hcap hord ?_ trivial
        intro i hi
        rcases List.mem_cons.mp hi with rfl | hi
        · exact le_rfl
        · exact (List.pairwise_cons.mp hord).1 i hi

/-- A window of a minute and an idle TTL of five: a pass drops the log of a
    client, and the next check does not miss it. -/
theorem cleanup_unnoticed_minute :
    let algorithm : Algorithm ℚ := .slidingWindowLog 1 (Duration.fromSecs 60)
    MemoryStore.storeReplies algorithm .new
        [checkAt "client" 0, pruneAt 300000000000, checkAt "client" 300000000000] =
      MemoryStore.storeReplies algorithm .new
        [checkAt "client" 0, checkAt "client" 300000000000] := by
  intro algorithm
  have hlong : LongEnough MemoryStore.defaultIdleTtl algorithm := by
    show Duration.fromSecs 60 < MemoryStore.defaultIdleTtl
    decide
  refine cleanup_unnoticed (s := MemoryStore.new) hlong rfl rfl rfl ?_ ⟨?_, ?_, ?_, ?_⟩
  · simp [InOrder, Event.now, checkAt, pruneAt]
  all_goals
    rintro max ⟨⟩
    decide

end ArmatureRatelimit
