/-
  The cap on the keys of a token bucket (`algorithms/token_bucket.rs`) and of a
  sliding window log (`algorithms/sliding_window.rs`).

  `try_acquire` makes room before it inserts a new key.  In a token bucket
  `remaining` inserts nothing, and `reset` inserts a full bucket whether or not
  there is room; in a sliding window log `reset` only removes, and `remaining`
  inserts an empty log whether or not there is room.  So the cap holds exactly
  as long as no such operation meets a new key in a full map
  (`tokenBucket_withinCap_iff`, `slidingWindow_withinCap_iff`).
-/
import ArmatureRatelimit.Operations

open Lib

namespace ArmatureRatelimit

namespace TokenBucket

variable {ν : Type}

def WithinCap (self : TokenBucket ν) : Prop := self.buckets.size ≤ self.maxKeys

/-- A reset of a key without a bucket finds room for one. -/
def ResetHasRoom (e : Operation) (self : TokenBucket ν) : Prop :=
  ∀ key, e.op = .reset key → self.buckets.lookup key = none → self.buckets.size < self.maxKeys

variable [F64 ν]

theorem operate_maxKeys (e : Operation) (self : TokenBucket ν) :
    (operate e self).2.maxKeys = self.maxKeys := by
  unfold operate
  cases e.op <;> rfl

/-- One operation leaves the map within the cap unless it is a reset without
    room. -/
theorem operate_withinCap_iff {self : TokenBucket ν} (hcap : 1 ≤ self.maxKeys)
    (h : self.WithinCap) (e : Operation) :
    (operate e self).2.WithinCap ↔ ResetHasRoom e self := by
  obtain ⟨op, now, inserted, sel⟩ := e
  cases op with
  | check key =>
    have hroom : ResetHasRoom ⟨.check key, now, inserted, sel⟩ self := by
      intro k hk
      cases hk
    exact iff_of_true (makeRoom_access_size sel lastActive hcap _ key h) hroom
  | remaining key =>
    have hroom : ResetHasRoom ⟨.remaining key, now, inserted, sel⟩ self := by
      intro k hk
      cases hk
    exact iff_of_true h hroom
  | reset key =>
    have hsize := KeyMap.size_insert key (BucketState.full self.capacity now) self.buckets
    unfold WithinCap operate reset ResetHasRoom at *
    simp only [Op.reset.injEq, forall_eq']
    rw [hsize]
    split_ifs with hnone
    · exact ⟨fun hle _ => hle, fun hlt => hlt hnone⟩
    · exact ⟨fun _ hn => absurd hn hnone, fun _ => h⟩

end TokenBucket

variable {ν : Type} [F64 ν]

/-- **The cap on the keys of a token bucket.**  All along a run of operations on
    a new limiter the map stays within the cap if and only if every reset of a
    key without a bucket finds room for one. -/
theorem tokenBucket_withinCap_iff {capacity : ℕ} {refillRate : ν} {limiter : TokenBucket ν}
    (hnew : TokenBucket.new capacity refillRate = some limiter) (maxKeys : ℕ)
    (ops : List Operation) :
    Along TokenBucket.operate TokenBucket.WithinCap (limiter.withMaxKeys maxKeys) ops ↔
      Allowed TokenBucket.operate TokenBucket.ResetHasRoom (limiter.withMaxKeys maxKeys) ops := by
  have hempty : limiter.buckets = ∅ := by rw [(TokenBucket.new_eq_some.mp hnew).2]
  refine along_iff_allowed (Q := fun s => 1 ≤ s.maxKeys) ?_ ?_ (le_max_right _ _) ?_
  · intro e s hcap
    rwa [TokenBucket.operate_maxKeys]
  · intro e s hcap h
    exact TokenBucket.operate_withinCap_iff hcap h e
  · show KeyMap.size limiter.buckets ≤ _
    rw [hempty]
    exact Nat.zero_le _

/-- An operation at time zero. -/
def atZero (op : Op) : Operation := ⟨op, 0, 0, .sorting⟩

/-- A bucket of one token, with room for one key. -/
def oneKey : TokenBucket ℚ := (⟨1, 1, ∅, defaultMaxKeys⟩ : TokenBucket ℚ).withMaxKeys 1

/-- A check of another key makes room for it, and its reset needs none. -/
theorem tokenBucket_withinCap_checks :
    Along TokenBucket.operate TokenBucket.WithinCap oneKey
      [atZero (.check "a"), atZero (.check "b"), atZero (.reset "b")] := by
  have hnew : TokenBucket.new 1 (1 : ℚ) = some ⟨1, 1, ∅, defaultMaxKeys⟩ := rfl
  refine (tokenBucket_withinCap_iff hnew 1 _).mpr ⟨?_, ?_, ?_, trivial⟩
  · rintro k ⟨⟩
  · rintro k ⟨⟩
  · rintro k ⟨⟩
    decide

/-- Two resets of different keys are enough to exceed the cap. -/
theorem tokenBucket_resets_exceedCap :
    TokenBucket.new 1 (1 : ℚ) = some ⟨1, 1, ∅, defaultMaxKeys⟩ ∧
      ¬ Along TokenBucket.operate TokenBucket.WithinCap oneKey
        [atZero (.reset "a"), atZero (.reset "b")] := by
  refine ⟨rfl, ?_⟩
  rintro ⟨-, -, h⟩
  have htwo : ¬ (2 ≤ 1) := by decide
  exact htwo h

/-! ## The sliding window log -/

namespace SlidingWindowLog

def WithinCap (self : SlidingWindowLog) : Prop := self.logs.size ≤ self.maxKeys

/-- A query for a key without a log finds room for one, or fails before it
    touches the map. -/
def RemainingHasRoom (e : Operation) (self : SlidingWindowLog) : Prop :=
  ∀ key, e.op = .remaining key → self.logs.lookup key = none →
    (instantSub e.now self.window).isSome = true → self.logs.size < self.maxKeys

theorem operate_maxKeys (e : Operation) (self : SlidingWindowLog) :
    (operate e self).2.maxKeys = self.maxKeys := by
  obtain ⟨op, now, inserted, sel⟩ := e
  cases op with
  | check key =>
    simp only [operate]
    rcases self.tryAcquire_cases sel key now with ⟨-, heq⟩ | ⟨cutoff, -, heq⟩
    · rw [heq]
    · rw [heq]
  | reset key => rfl
  | remaining key =>
    simp only [operate, remaining, cleanAndCount]
    cases instantSub now self.window <;> rfl

/-- One operation leaves the map within the cap unless it is a query without
    room. -/
theorem operate_withinCap_iff {self : SlidingWindowLog} (hcap : 1 ≤ self.maxKeys)
    (h : self.WithinCap) (e : Operation) :
    (operate e self).2.WithinCap ↔ RemainingHasRoom e self := by
  obtain ⟨op, now, inserted, sel⟩ := e
  cases op with
  | check key =>
    refine iff_of_true ?_ (by rintro k ⟨⟩)
    simp only [operate]
    rcases self.tryAcquire_cases sel key now with ⟨-, heq⟩ | ⟨cutoff, -, heq⟩
    · rw [heq]
      exact h
    · rw [heq]
      exact makeRoom_access_size sel lastActive hcap _ key h
  | reset key =>
    refine iff_of_true ?_ (by rintro k ⟨⟩)
    exact (KeyMap.size_erase_le key self.logs).trans h
  | remaining key =>
    simp only [operate, remaining, cleanAndCount, RemainingHasRoom, Op.remaining.injEq,
      forall_eq']
    cases instantSub now self.window with
    | none => exact iff_of_true h fun _ hsome => by cases hsome
    | some cutoff =>
      simp only [WithinCap, KeyMap.access, KeyMap.size_insert, Option.isSome_some, forall_const]
      split_ifs with hnone
      · exact ⟨fun hle _ => hle, fun hlt => hlt hnone⟩
      · exact ⟨fun _ hn => absurd hn hnone, fun _ => h⟩

end SlidingWindowLog

/-- **The cap on the keys of a sliding window log.**  All along a run of
    operations on a new limiter the map stays within the cap if and only if
    every query for a key without a log finds room for one. -/
theorem slidingWindow_withinCap_iff {maxRequests window : ℕ} {limiter : SlidingWindowLog}
    (hnew : SlidingWindowLog.new maxRequests window = some limiter) (maxKeys : ℕ)
    (ops : List Operation) :
    Along SlidingWindowLog.operate SlidingWindowLog.WithinCap (limiter.withMaxKeys maxKeys) ops ↔
      Allowed SlidingWindowLog.operate SlidingWindowLog.RemainingHasRoom
        (limiter.withMaxKeys maxKeys) ops := by
  have hempty : limiter.logs = ∅ := by
    unfold SlidingWindowLog.new at hnew
    split_ifs at hnew
    rw [← Option.some.inj hnew]
  refine along_iff_allowed (Q := fun s => 1 ≤ s.maxKeys) ?_ ?_ (le_max_right _ _) ?_
  · intro e s hcap
    rwa [SlidingWindowLog.operate_maxKeys]
  · intro e s hcap h
    exact SlidingWindowLog.operate_withinCap_iff hcap h e
  · show KeyMap.size limiter.logs ≤ _
    rw [hempty]
    exact Nat.zero_le _

/-- A log of one request a second, with room for one key. -/
def oneLog : SlidingWindowLog :=
  (⟨1, Duration.fromSecs 1, ∅, defaultMaxKeys⟩ : SlidingWindowLog).withMaxKeys 1

/-- A check of another key makes room for it, and asking for its allowance
    needs none. -/
theorem slidingWindow_withinCap_checks :
    Along SlidingWindowLog.operate SlidingWindowLog.WithinCap oneLog
      [atZero (.check "a"), atZero (.check "b"), atZero (.remaining "b")] := by
  have hnew : SlidingWindowLog.new 1 (Duration.fromSecs 1) =
      some ⟨1, Duration.fromSecs 1, ∅, defaultMaxKeys⟩ := rfl
  refine (slidingWindow_withinCap_iff hnew 1 _).mpr ⟨?_, ?_, ?_, trivial⟩
  · rintro k ⟨⟩
  · rintro k ⟨⟩
  · rintro k ⟨⟩
    decide

/-- Asking for the allowances of two keys is enough to exceed the cap. -/
theorem slidingWindow_queries_exceedCap :
    SlidingWindowLog.new 1 (Duration.fromSecs 1) =
        some ⟨1, Duration.fromSecs 1, ∅, defaultMaxKeys⟩ ∧
      ¬ Along SlidingWindowLog.operate SlidingWindowLog.WithinCap oneLog
        [atZero (.remaining "a"), atZero (.remaining "b")] := by
  refine ⟨rfl, ?_⟩
  rintro ⟨-, -, h⟩
  have htwo : ¬ (2 ≤ 1) := by decide
  exact htwo h

end ArmatureRatelimit
