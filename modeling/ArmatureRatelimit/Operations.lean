/-
  Operations of the limiters: `check`, `reset` and `remaining` on any keys, as
  the trait `RateLimitAlgorithm` offers them for the standalone limiters and
  `RateLimitStore` for the memory store.

  An operation reads the clock once; a token bucket, which reads it again when
  it inserts a new bucket, may get another reading there.
-/
import ArmatureRatelimit.Stores.Memory
import ArmatureRatelimit.Lib.Runs

open Lib

namespace ArmatureRatelimit

inductive Op
  | check (key : String)
  | reset (key : String)
  | remaining (key : String)

/-- An operation with what it reads: the clock, and the behaviour of an eviction
    that it may cause. -/
structure Operation where
  op : Op
  now : ℤ
  inserted : ℤ
  sel : Selection

def Operation.isRemaining (e : Operation) : Bool :=
  match e.op with
  | .remaining _ => true
  | _ => false

/-- What an operation returns. -/
inductive OpReply
  | decision (result : Outcome (Bool × ℕ))
  | done
  | left (count : Outcome ℕ)
  deriving DecidableEq

/-- The operations happen under a clock that does not run backwards. -/
def InTurn (ops : List Operation) : Prop := ops.Pairwise fun e e' => e.now ≤ e'.now

/-! ## The standalone limiters -/

def TokenBucket.operate {ν : Type} [F64 ν] (e : Operation) (self : TokenBucket ν) :
    OpReply × TokenBucket ν :=
  match e.op with
  | .check key =>
    let r := self.tryAcquire e.sel key e.inserted e.now
    (.decision (.ok r.1), r.2)
  | .reset key => (.done, self.reset key e.now)
  | .remaining key => (.left (.ok (self.remaining key)), self)

def SlidingWindowLog.operate (e : Operation) (self : SlidingWindowLog) :
    OpReply × SlidingWindowLog :=
  match e.op with
  | .check key =>
    let r := self.tryAcquire e.sel key e.now
    (.decision r.1, r.2)
  | .reset key => (.done, self.reset key)
  | .remaining key =>
    let r := self.remaining key e.now
    (.left r.1, r.2)

def FixedWindow.operate (e : Operation) (self : FixedWindow) : OpReply × FixedWindow :=
  match e.op with
  | .check key =>
    let r := self.tryAcquire e.sel key e.now
    (.decision (.ok r.1), r.2)
  | .reset key => (.done, self.reset key)
  | .remaining key => (.left (.ok (self.remaining key e.now)), self)

/-! ## The memory store -/

namespace MemoryStore

variable {ν : Type} [F64 ν]

/-- The check of the store that serves an algorithm. -/
def checkWith (algorithm : Algorithm ν) (env : MemoryEnv) (key : String) (s : MemoryStore ν) :
    Outcome (Bool × ℕ) × MemoryStore ν :=
  match algorithm with
  | .tokenBucket capacity refillRate => backend.tokenBucketCheck env key capacity refillRate s
  | .slidingWindowLog maxRequests window =>
    backend.slidingWindowCheck env key maxRequests window s
  | .fixedWindow maxRequests window => backend.fixedWindowCheck env key maxRequests window s

/-- An operation, where checks are those of one algorithm. -/
def operate (algorithm : Algorithm ν) (e : Operation) (s : MemoryStore ν) :
    OpReply × MemoryStore ν :=
  match e.op with
  | .check key =>
    let r := checkWith algorithm ⟨e.now, .stored⟩ key s
    (.decision r.1, r.2)
  | .reset key => (.done, s.reset key)
  | .remaining key => (.left (.ok (s.remaining key e.now)), s)

end MemoryStore

end ArmatureRatelimit
