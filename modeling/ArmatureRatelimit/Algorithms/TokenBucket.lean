/-
  The token bucket (`algorithms/token_bucket.rs`).

  `BucketState` and its operations are the part that the memory store's token
  buckets share; `TokenBucket` is the standalone limiter, a map of such states
  with a cap on its keys.
-/
import ArmatureRatelimit.Algorithms.Basic

open Lib

namespace ArmatureRatelimit

/-- Default hard cap on the keys that a standalone limiter retains. -/
def defaultMaxKeys : ℕ := 100000

/-! ## One bucket -/

structure BucketState (ν : Type) where
  tokens : ν
  lastRefill : ℤ
  deriving DecidableEq

namespace BucketState

variable {ν : Type} [F64 ν]

/-- A full bucket, as `or_insert_with` creates it. -/
def full (capacity : ℕ) (now : ℤ) : BucketState ν := ⟨F64.ofInt capacity, now⟩

/-- Refill tokens based on elapsed time. -/
def refill (capacity : ℕ) (refillRate : ν) (now : ℤ) (state : BucketState ν) : BucketState ν :=
  let elapsed := F64.ofDuration (durationSince now state.lastRefill)
  let newTokens := elapsed * refillRate
  ⟨F64.min (state.tokens + newTokens) (F64.ofInt capacity), now⟩

/-- Try to consume a token. -/
def consume (state : BucketState ν) : (Bool × ℕ) × BucketState ν :=
  if F64.le (F64.ofInt 1) state.tokens then
    let tokens := state.tokens - F64.ofInt 1
    ((true, F64.toU64 tokens), { state with tokens := tokens })
  else ((false, 0), state)

/-- The body that runs on the locked entry of a key: `inserted` is the reading
    that a new entry is created with. -/
def acquire (capacity : ℕ) (refillRate : ν) (inserted now : ℤ) (entry : Option (BucketState ν)) :
    (Bool × ℕ) × BucketState ν :=
  ((entry.getD (full capacity inserted)).refill capacity refillRate now).consume

theorem acquire_lastRefill (capacity : ℕ) (refillRate : ν) (inserted now : ℤ)
    (entry : Option (BucketState ν)) :
    (acquire capacity refillRate inserted now entry).2.lastRefill = now := by
  unfold acquire consume
  split_ifs <;> rfl

/-! ### Exact arithmetic -/

/-- The tokens of a bucket after its refill at `now`; a missing bucket is full. -/
def level (capacity : ℕ) (refillRate : ℚ) (now : ℤ) : Option (BucketState ℚ) → ℚ
  | none => capacity
  | some b => min (b.tokens + Duration.secs (durationSince now b.lastRefill) * refillRate) capacity

theorem level_le (capacity : ℕ) (refillRate : ℚ) (now : ℤ) (e : Option (BucketState ℚ)) :
    level capacity refillRate now e ≤ capacity := by
  cases e with
  | none => exact le_rfl
  | some b => exact min_le_right _ _

theorem level_nonneg {capacity : ℕ} {refillRate : ℚ} (hr : 0 ≤ refillRate) {now : ℤ}
    {e : Option (BucketState ℚ)} (h : ∀ b, e = some b → 0 ≤ b.tokens) :
    0 ≤ level capacity refillRate now e := by
  cases e with
  | none => exact Nat.cast_nonneg capacity
  | some b =>
    have htokens := h b rfl
    have hrefill := mul_nonneg (Duration.secs_nonneg (durationSince now b.lastRefill)) hr
    exact le_min (by linarith) (Nat.cast_nonneg capacity)

theorem refill_rat {capacity : ℕ} {refillRate : ℚ} (hr : 0 ≤ refillRate) (inserted now : ℤ)
    (e : Option (BucketState ℚ)) :
    (e.getD (full capacity inserted)).refill capacity refillRate now =
      ⟨level capacity refillRate now e, now⟩ := by
  cases e with
  | none =>
    have h := mul_nonneg (Duration.secs_nonneg (durationSince now inserted)) hr
    have hmin : min ((capacity : ℚ) + Duration.secs (durationSince now inserted) * refillRate)
        capacity = capacity := min_eq_right (by linarith)
    simp only [refill, level, full, Option.getD_none, F64.min_rat, F64.ofDuration_rat,
      F64.ofInt_rat, Int.cast_natCast, hmin]
  | some b =>
    simp only [refill, level, Option.getD_some, F64.min_rat, F64.ofDuration_rat, F64.ofInt_rat,
      Int.cast_natCast]

/-- **What a call does to a bucket**, over exact rationals. -/
theorem acquire_rat {capacity : ℕ} {refillRate : ℚ} (hr : 0 ≤ refillRate) (inserted now : ℤ)
    (e : Option (BucketState ℚ)) :
    acquire capacity refillRate inserted now e =
      if 1 ≤ level capacity refillRate now e then
        ((true, F64.toU64 (level capacity refillRate now e - 1)),
          ⟨level capacity refillRate now e - 1, now⟩)
      else ((false, 0), ⟨level capacity refillRate now e, now⟩) := by
  simp only [acquire, refill_rat hr, consume, F64.le_rat, F64.ofInt_rat, Int.cast_one,
    decide_eq_true_eq]

theorem acquire_rat_fst {capacity : ℕ} {refillRate : ℚ} (hr : 0 ≤ refillRate) (inserted now : ℤ)
    (e : Option (BucketState ℚ)) :
    (acquire capacity refillRate inserted now e).1 =
      if 1 ≤ level capacity refillRate now e then
        (true, F64.toU64 (level capacity refillRate now e - 1))
      else (false, 0) := by
  rw [acquire_rat hr]; split_ifs <;> rfl

theorem acquire_rat_snd {capacity : ℕ} {refillRate : ℚ} (hr : 0 ≤ refillRate) (inserted now : ℤ)
    (e : Option (BucketState ℚ)) :
    (acquire capacity refillRate inserted now e).2 =
      ⟨if 1 ≤ level capacity refillRate now e then level capacity refillRate now e - 1
        else level capacity refillRate now e, now⟩ := by
  rw [acquire_rat hr]; split_ifs <;> rfl

end BucketState

/-! ## The limiter -/

structure TokenBucket (ν : Type) where
  capacity : ℕ
  refillRate : ν
  buckets : KeyMap String (BucketState ν)
  maxKeys : ℕ

namespace TokenBucket

variable {ν : Type} [F64 ν]

/-- `none` is a panic of one of the assertions. -/
def new (capacity : ℕ) (refillRate : ν) : Option (TokenBucket ν) :=
  if 0 < capacity ∧ F64.lt (F64.ofInt 0) refillRate then
    some ⟨capacity, refillRate, ∅, defaultMaxKeys⟩
  else none

theorem new_eq_some {capacity : ℕ} {refillRate : ν} {limiter : TokenBucket ν} :
    new capacity refillRate = some limiter ↔
      (0 < capacity ∧ F64.lt (F64.ofInt 0) refillRate = true) ∧
        limiter = ⟨capacity, refillRate, ∅, defaultMaxKeys⟩ := by
  unfold new
  split_ifs with h
  · simp [h, eq_comm]
  · simp [h]

def withMaxKeys (self : TokenBucket ν) (maxKeys : ℕ) : TokenBucket ν :=
  { self with maxKeys := max maxKeys 1 }

def lastActive (state : BucketState ν) : WithBot ℤ := state.lastRefill

/-- The clock is read when a new bucket is inserted (`inserted`) and again when
    the bucket is refilled (`now`). -/
def tryAcquire (self : TokenBucket ν) (sel : Selection) (key : String) (inserted now : ℤ) :
    (Bool × ℕ) × TokenBucket ν :=
  let buckets := makeRoom sel lastActive self.maxKeys key self.buckets
  let r := buckets.access (BucketState.acquire self.capacity self.refillRate inserted now) key
  (r.1, { self with buckets := r.2 })

/-- A call of `try_acquire`, with what it reads. -/
structure Call where
  key : String
  sel : Selection
  inserted : ℤ
  now : ℤ

def call (c : Call) (self : TokenBucket ν) : (Bool × ℕ) × TokenBucket ν :=
  self.tryAcquire c.sel c.key c.inserted c.now

def reset (self : TokenBucket ν) (key : String) (now : ℤ) : TokenBucket ν :=
  { self with buckets := self.buckets.insert key (.full self.capacity now) }

def remaining (self : TokenBucket ν) (key : String) : ℕ :=
  match self.buckets.lookup key with
  | some state => F64.toU64 state.tokens
  | none => self.capacity

end TokenBucket

end ArmatureRatelimit
