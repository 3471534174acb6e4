/-
  The keys of the memory store (`stores/memory.rs`) do not affect each other.

  Seen from one key the store is a machine of its own, `KeyState`: the entries
  of the key in the three maps, which the operations on the key and the passes
  of `cleanup` change.  The store projects to it as long as no cleanup finds a
  map above the cap (`keyProjection`), since below the cap a pass drops an entry
  for its own age only.
-/
import ArmatureRatelimit.MemoryRuns

open Lib

namespace ArmatureRatelimit

variable {ν : Type}

/-! ## Calls of the store -/

inductive StoreOp (ν : Type)
  | check (key : String) (algorithm : Algorithm ν)
  | remaining (key : String)
  | reset (key : String)
  | cleanup

/-- A call with what it reads. -/
structure StoreCall (ν : Type) where
  env : MemoryEnv
  op : StoreOp ν

def MemoryStore.call [F64 ν] (c : StoreCall ν) (s : MemoryStore ν) : OpReply × MemoryStore ν :=
  match c.op with
  | .check key algorithm =>
    let r := checkWith algorithm c.env key s
    (.decision r.1, r.2)
  | .remaining key => (.left (.ok (s.remaining key c.env.now)), s)
  | .reset key => (.done, s.reset key)
  | .cleanup => (.done, s.cleanup c.env)

/-- A cleanup finds no map above the cap. -/
def CleanupWithinCap (c : StoreCall ν) (s : MemoryStore ν) : Prop :=
  match c.op with
  | .cleanup => s.WithinCap
  | _ => True

/-! ## One key -/

/-- The entries of one key. -/
@[ext]
structure KeyState (ν : Type) where
  bucket : Option (TokenBucketState ν)
  log : Option SlidingWindowState
  fixedWindow : Option FixedWindowState

inductive KeyOp (ν : Type)
  | check (algorithm : Algorithm ν)
  | remaining
  | reset
  | cleanup

/-- What a key sees of a call. -/
structure KeyCall (ν : Type) where
  now : ℤ
  op : KeyOp ν

/-- The call is an operation on the key itself. -/
def KeyCall.isOperation (c : KeyCall ν) : Bool :=
  match c.op with
  | .cleanup => false
  | _ => true

def StoreCall.seenBy (key : String) (c : StoreCall ν) : Option (KeyCall ν) :=
  match c.op with
  | .check k algorithm => if k = key then some ⟨c.env.now, .check algorithm⟩ else none
  | .remaining k => if k = key then some ⟨c.env.now, .remaining⟩ else none
  | .reset k => if k = key then some ⟨c.env.now, .reset⟩ else none
  | .cleanup => some ⟨c.env.now, .cleanup⟩

def StoreCall.isOn (key : String) (c : StoreCall ν) : Bool :=
  (c.seenBy key).any KeyCall.isOperation

def MemoryStore.entriesOf (key : String) (s : MemoryStore ν) : KeyState ν :=
  ⟨s.tokenBuckets.lookup key, s.slidingLogs.lookup key, s.fixedWindows.lookup key⟩

namespace KeyState

/-- An operation changes the entries of its key by the bodies of the store's
    checks, and a pass keeps or drops each of them. -/
def step [F64 ν] (idleTtl : ℕ) (c : KeyCall ν) (s : KeyState ν) : OpReply × KeyState ν :=
  match c.op with
  | .check (.tokenBucket capacity refillRate) =>
    let r := MemoryStore.tokenBucketBody capacity refillRate c.now s.bucket
    (.decision (.ok r.1), { s with bucket := some r.2 })
  | .check (.slidingWindowLog maxRequests window) =>
    match instantSub c.now window with
    | none => (.decision (.error .panic), s)
    | some cutoff =>
      let r := MemoryStore.slidingWindowBody maxRequests window c.now cutoff s.log
      (.decision (.ok r.1), { s with log := some r.2 })
  | .check (.fixedWindow maxRequests window) =>
    let r := MemoryStore.fixedWindowBody maxRequests window c.now s.fixedWindow
    (.decision (.ok r.1), { s with fixedWindow := some r.2 })
  | .remaining =>
    let left :=
      match s.bucket, s.fixedWindow, s.log with
      | some entry, _, _ => F64.toU64 (F64.max entry.tokens (F64.ofInt 0))
      | none, some entry, _ =>
        if entry.window ≤ durationSince c.now entry.windowStart then entry.limit
        else entry.limit - entry.count
      | none, none, some entry =>
        entry.limit - entry.log.countP fun t => durationSince c.now t < entry.window
      | none, none, none => 0
    (.left (.ok left), s)
  | .reset => (.done, ⟨none, none, none⟩)
  | .cleanup =>
    (.done,
      ⟨s.bucket.filter fun b => !MemoryStore.isIdle idleTtl c.now b.lastRefill,
        s.log.filter (MemoryStore.keepLog idleTtl c.now),
        s.fixedWindow.filter fun w => !MemoryStore.isIdle idleTtl c.now w.windowStart⟩)

end KeyState

/-! ## The projection -/

/-- The store holds the entries `ks` of the key. -/
structure EntriesAre (key : String) (idleTtl : ℕ) (s : MemoryStore ν) (ks : KeyState ν) : Prop where
  idleTtl : s.idleTtl = idleTtl
  entries : s.entriesOf key = ks

variable [F64 ν] {key : String} {idleTtl : ℕ}

theorem EntriesAre.check {s : MemoryStore ν} {ks : KeyState ν} (h : EntriesAre key idleTtl s ks)
    (env : MemoryEnv) (algorithm : Algorithm ν) :
    (MemoryStore.call ⟨env, .check key algorithm⟩ s).1 =
        (KeyState.step idleTtl ⟨env.now, .check algorithm⟩ ks).1 ∧
      EntriesAre key idleTtl (MemoryStore.call ⟨env, .check key algorithm⟩ s).2
        (KeyState.step idleTtl ⟨env.now, .check algorithm⟩ ks).2 := by
  obtain ⟨httl, rfl⟩ := h
  cases algorithm with
  | tokenBucket capacity refillRate =>
    refine ⟨rfl, httl, ?_⟩
    ext1
    · exact KeyMap.access_lookup_self _ _ _
    · rfl
    · rfl
  | slidingWindowLog maxRequests window =>
    simp only [MemoryStore.call, MemoryStore.checkWith, MemoryStore.backend, KeyState.step]
    rcases s.slidingWindowCheck_cases key maxRequests window env.now with
      ⟨hcutoff, heq⟩ | ⟨cutoff, hcutoff, heq⟩
    · simp only [hcutoff, heq]
      exact ⟨trivial, httl, rfl⟩
    · simp only [hcutoff, heq]
      refine ⟨rfl, httl, ?_⟩
      ext1
      · rfl
      · exact KeyMap.access_lookup_self _ _ _
      · rfl
  | fixedWindow maxRequests window =>
    refine ⟨rfl, httl, ?_⟩
    ext1
    · rfl
    · rfl
    · exact KeyMap.access_lookup_self _ _ _

/-- A check of another key leaves the entries of the key as they are. -/
theorem EntriesAre.check_ne {s : MemoryStore ν} {ks : KeyState ν} (h : EntriesAre key idleTtl s ks)
    {k : String} (hk : k ≠ key) (env : MemoryEnv) (algorithm : Algorithm ν) :
    EntriesAre key idleTtl (MemoryStore.checkWith algorithm env k s).2 ks := by
  obtain ⟨httl, rfl⟩ := h
  cases algorithm with
  | tokenBucket capacity refillRate =>
    refine ⟨httl, ?_⟩
    ext1
    · exact KeyMap.access_lookup_ne _ hk.symm _
    · rfl
    · rfl
  | slidingWindowLog maxRequests window =>
    simp only [MemoryStore.checkWith, MemoryStore.backend]
    rcases s.slidingWindowCheck_cases k maxRequests window env.now with ⟨-, heq⟩ | ⟨cutoff, -, heq⟩
    · rw [heq]
      exact ⟨httl, rfl⟩
    · rw [heq]
      refine ⟨httl, ?_⟩
      ext1
      · rfl
      · exact KeyMap.access_lookup_ne _ hk.symm _
      · rfl
  | fixedWindow maxRequests window =>
    refine ⟨httl, ?_⟩
    ext1
    · rfl
    · rfl
    · exact KeyMap.access_lookup_ne _ hk.symm _

omit [F64 ν] in
theorem EntriesAre.reset {s : MemoryStore ν} {ks : KeyState ν} (h : EntriesAre key idleTtl s ks) :
    EntriesAre key idleTtl (s.reset key) ⟨none, none, none⟩ := by
  refine ⟨h.idleTtl, ?_⟩
  ext1 <;> exact AList.lookup_erase _ _

omit [F64 ν] in
theorem EntriesAre.reset_ne {s : MemoryStore ν} {ks : KeyState ν} (h : EntriesAre key idleTtl s ks)
    {k : String} (hk : k ≠ key) : EntriesAre key idleTtl (s.reset k) ks := by
  obtain ⟨httl, rfl⟩ := h
  refine ⟨httl, ?_⟩
  ext1 <;> exact AList.lookup_erase_ne hk.symm

/-- Below the cap a pass treats the key as if it were alone. -/
theorem EntriesAre.cleanup {s : MemoryStore ν} {ks : KeyState ν} (h : EntriesAre key idleTtl s ks)
    (hcap : s.WithinCap) (env : MemoryEnv) :
    EntriesAre key idleTtl (s.cleanup env)
      (KeyState.step idleTtl ⟨env.now, .cleanup⟩ ks).2 := by
  obtain ⟨rfl, rfl⟩ := h
  rw [cleanup_eq_evictIdle env hcap]
  refine ⟨rfl, ?_⟩
  ext1 <;> exact KeyMap.lookup_retain _ _ _

theorem EntriesAre.remaining {s : MemoryStore ν} {ks : KeyState ν} (h : EntriesAre key idleTtl s ks)
    (env : MemoryEnv) :
    (MemoryStore.call ⟨env, .remaining key⟩ s).1 =
      (KeyState.step idleTtl ⟨env.now, .remaining⟩ ks).1 := by
  obtain ⟨-, rfl⟩ := h
  simp only [MemoryStore.call, MemoryStore.remaining, KeyState.step, MemoryStore.entriesOf]
  cases s.tokenBuckets.lookup key <;> cases s.fixedWindows.lookup key <;>
    cases s.slidingLogs.lookup key <;> rfl

/-- **The store as one key sees it.** -/
theorem keyProjection (key : String) (idleTtl : ℕ) :
    Projection (MemoryStore.call (ν := ν)) (KeyState.step idleTtl) (StoreCall.seenBy key)
      CleanupWithinCap (EntriesAre key idleTtl) where
  seen := by
    rintro ⟨env, op⟩ j s ks hj hok h
    cases op with
    | check k algorithm =>
      simp only [StoreCall.seenBy, Option.ite_none_right_eq_some, Option.some.injEq] at hj
      obtain ⟨rfl, rfl⟩ := hj
      exact h.check env algorithm
    | remaining k =>
      simp only [StoreCall.seenBy, Option.ite_none_right_eq_some, Option.some.injEq] at hj
      obtain ⟨rfl, rfl⟩ := hj
      exact ⟨h.remaining env, h⟩
    | reset k =>
      simp only [StoreCall.seenBy, Option.ite_none_right_eq_some, Option.some.injEq] at hj
      obtain ⟨rfl, rfl⟩ := hj
      exact ⟨rfl, h.reset⟩
    | cleanup =>
      obtain rfl := Option.some.inj hj
      exact ⟨rfl, h.cleanup hok env⟩
  unseen := by
    rintro ⟨env, op⟩ s ks hj - h
    cases op with
    | check k algorithm =>
      simp only [StoreCall.seenBy, ite_eq_right_iff, reduceCtorEq, imp_false] at hj
      exact h.check_ne hj env algorithm
    | remaining k => exact h
    | reset k =>
      simp only [StoreCall.seenBy, ite_eq_right_iff, reduceCtorEq, imp_false] at hj
      exact h.reset_ne hj
    | cleanup => cases hj

/-- **Key isolation.**  Take two runs of two stores that agree on a key and on
    the idle TTL.  If the runs contain the same operations on the key and the
    same cleanups, at the same times, and no cleanup finds a map above the cap,
    the operations on the key return the same results, whatever is done on other
    keys. -/
theorem memoryStore_keyIsolation (key : String) {s s' : MemoryStore ν}
    (httl : s.idleTtl = s'.idleTtl) (hentries : s.entriesOf key = s'.entriesOf key)
    {calls calls' : List (StoreCall ν)}
    (hseen : calls.filterMap (StoreCall.seenBy key) = calls'.filterMap (StoreCall.seenBy key))
    (hcap : Allowed MemoryStore.call CleanupWithinCap s calls)
    (hcap' : Allowed MemoryStore.call CleanupWithinCap s' calls') :
    trace MemoryStore.call (StoreCall.isOn key) s calls =
      trace MemoryStore.call (StoreCall.isOn key) s' calls' :=
  (keyProjection key s.idleTtl).isolation hseen hcap hcap' ⟨rfl, rfl⟩ ⟨httl.symm, hentries.symm⟩

/-- A call at `secs` seconds. -/
def callAt (secs : ℤ) (op : StoreOp ℚ) : StoreCall ℚ := ⟨⟨secs * 1000000000, .stored⟩, op⟩

/-- A bucket of one token, asked twice: another key's checks and reset, and the
    pass between them, change nothing. -/
theorem memoryStore_keyIsolation_visitor :
    trace MemoryStore.call (StoreCall.isOn "client") (.new : MemoryStore ℚ)
        [callAt 0 (.check "client" (.tokenBucket 1 1)),
          callAt 1 (.check "visitor" (.fixedWindow 1 1)), callAt 2 .cleanup,
          callAt 3 (.reset "visitor"), callAt 4 (.remaining "client")] =
      trace MemoryStore.call (StoreCall.isOn "client") (.new : MemoryStore ℚ)
        [callAt 0 (.check "client" (.tokenBucket 1 1)), callAt 2 .cleanup,
          callAt 4 (.remaining "client")] := by
  have hnew : ∀ m, (MemoryStore.new : MemoryStore ℚ).maxKeys = some m → 1 ≤ m := by
    rintro m ⟨⟩
    decide
  refine memoryStore_keyIsolation "client" rfl rfl rfl
    ⟨trivial, trivial, ?_, trivial, trivial, trivial⟩ ⟨trivial, ?_, trivial, trivial⟩
  · intro max hmax
    exact ⟨hnew max hmax, Nat.zero_le _, hnew max hmax⟩
  · intro max hmax
    exact ⟨hnew max hmax, Nat.zero_le _, Nat.zero_le _⟩

end ArmatureRatelimit
