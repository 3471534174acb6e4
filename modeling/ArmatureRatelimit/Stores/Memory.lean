/-
  The in-memory store (`stores/memory.rs`).

  A check reads the clock and then runs its body on the locked entry of its
  key, so a call of a check below is the locked body, and `now` the reading
  that was taken before it.  `DashMap` iterates in an order of its own: an
  `IterOrder` is one such order, for the lists that `cleanup` collects.
-/
import ArmatureRatelimit.Algorithms.SlidingWindow
import ArmatureRatelimit.Algorithms.FixedWindow
import ArmatureRatelimit.Stores.Basic

open Lib

namespace ArmatureRatelimit

/-! ## States -/

abbrev TokenBucketState := BucketState

/-- The limit and the window of the last check are retained for `remaining`. -/
structure FixedWindowState extends WindowState where
  limit : ℕ
  window : ℕ
  deriving DecidableEq

structure SlidingWindowState where
  log : List ℤ
  limit : ℕ
  window : ℕ
  deriving DecidableEq

def SlidingWindowState.empty : SlidingWindowState := ⟨[], 0, 0⟩

structure MemoryStore (ν : Type) where
  tokenBuckets : KeyMap String (TokenBucketState ν)
  slidingLogs : KeyMap String SlidingWindowState
  fixedWindows : KeyMap String FixedWindowState
  idleTtl : ℕ
  maxKeys : Option ℕ

/-- An order in which a map is iterated. -/
structure IterOrder where
  run : List (String × ℤ) → List (String × ℤ)
  perm : ∀ l, (run l).Perm l

/-- The order in which the entries are stored. -/
def IterOrder.stored : IterOrder := ⟨id, fun _ => .refl _⟩

/-- What a call reads: the clock, and the order in which its maps iterate. -/
structure MemoryEnv where
  now : ℤ
  order : IterOrder

namespace MemoryStore

variable {ν : Type}

def defaultIdleTtl : ℕ := Duration.fromSecs 300

def defaultMaxKeys : ℕ := 100000

def new : MemoryStore ν := ⟨∅, ∅, ∅, defaultIdleTtl, some defaultMaxKeys⟩

def withIdleTtl (self : MemoryStore ν) (idleTtl : ℕ) : MemoryStore ν :=
  { self with idleTtl := idleTtl }

def withMaxKeys (self : MemoryStore ν) (maxKeys : ℕ) : MemoryStore ν :=
  { self with maxKeys := some maxKeys }

def withoutMaxKeys (self : MemoryStore ν) : MemoryStore ν := { self with maxKeys := none }

def keyCount (self : MemoryStore ν) : ℕ :=
  self.tokenBuckets.size + self.slidingLogs.size + self.fixedWindows.size

/-! ## Checks -/

/-- The body of `token_bucket_check` on the locked entry. -/
def tokenBucketBody [F64 ν] (capacity : ℕ) (refillRate : ν) (now : ℤ) :
    Option (TokenBucketState ν) → (Bool × ℕ) × TokenBucketState ν :=
  BucketState.acquire capacity refillRate now now

def tokenBucketCheck [F64 ν] (key : String) (capacity : ℕ) (refillRate : ν) (now : ℤ)
    (self : MemoryStore ν) : Outcome (Bool × ℕ) × MemoryStore ν :=
  let r := self.tokenBuckets.access (tokenBucketBody capacity refillRate now) key
  (.ok r.1, { self with tokenBuckets := r.2 })

/-- The body of `sliding_window_check` on the locked entry. -/
def slidingWindowBody (maxRequests window : ℕ) (now cutoff : ℤ)
    (entry : Option SlidingWindowState) : (Bool × ℕ) × SlidingWindowState :=
  let r := recordRequest maxRequests now (pruneLog cutoff (entry.getD .empty).log)
  (r.1, ⟨r.2, maxRequests, window⟩)

/-- `now - window` panics on underflow, before the entry is touched. -/
def slidingWindowCheck (key : String) (maxRequests window : ℕ) (now : ℤ)
    (self : MemoryStore ν) : Outcome (Bool × ℕ) × MemoryStore ν :=
  match instantSub now window with
  | none => (.error .panic, self)
  | some cutoff =>
    let r := self.slidingLogs.access (slidingWindowBody maxRequests window now cutoff) key
    (.ok r.1, { self with slidingLogs := r.2 })

/-- The body of `fixed_window_check` on the locked entry. -/
def fixedWindowBody (maxRequests window : ℕ) (now : ℤ)
    (entry : Option FixedWindowState) : (Bool × ℕ) × FixedWindowState :=
  let r := WindowState.acquire maxRequests window now (entry.map (·.toWindowState))
  (r.1, ⟨r.2, maxRequests, window⟩)

/-- The window that a check counts in: the one of the entry while it is not
    over, else a new one. -/
theorem fixedWindowBody_cases (maxRequests window : ℕ) (now : ℤ)
    (entry : Option FixedWindowState) :
    ∃ state : WindowState,
      fixedWindowBody maxRequests window now entry =
        ((state.increment maxRequests).1, ⟨(state.increment maxRequests).2, maxRequests, window⟩) ∧
      (state = ⟨0, now⟩ ∧ (∀ x, entry = some x → window ≤ durationSince now x.windowStart) ∨
        ∃ x, entry = some x ∧ state = x.toWindowState ∧
          durationSince now x.windowStart < window) := by
  cases entry with
  | none =>
    have hroll : WindowState.roll window now ⟨0, now⟩ = ⟨0, now⟩ := ite_self _
    exact ⟨⟨0, now⟩, by simp [fixedWindowBody, WindowState.acquire, hroll], .inl ⟨rfl, by simp⟩⟩
  | some x =>
    by_cases hover : window ≤ durationSince now x.windowStart
    · have hroll : x.toWindowState.roll window now = ⟨0, now⟩ := if_pos hover
      refine ⟨⟨0, now⟩, by simp [fixedWindowBody, WindowState.acquire, hroll], .inl ⟨rfl, ?_⟩⟩
      rintro _ ⟨⟩
      exact hover
    · have hroll : x.toWindowState.roll window now = x.toWindowState := if_neg hover
      exact ⟨x.toWindowState, by simp [fixedWindowBody, WindowState.acquire, hroll],
        .inr ⟨x, rfl, rfl, not_le.mp hover⟩⟩

def fixedWindowCheck (key : String) (maxRequests window : ℕ) (now : ℤ)
    (self : MemoryStore ν) : Outcome (Bool × ℕ) × MemoryStore ν :=
  let r := self.fixedWindows.access (fixedWindowBody maxRequests window now) key
  (.ok r.1, { self with fixedWindows := r.2 })

theorem slidingWindowCheck_eq {now cutoff : ℤ} {window : ℕ}
    (h : instantSub now window = some cutoff) (key : String) (maxRequests : ℕ)
    (self : MemoryStore ν) :
    self.slidingWindowCheck key maxRequests window now =
      let r := self.slidingLogs.access (slidingWindowBody maxRequests window now cutoff) key
      (.ok r.1, { self with slidingLogs := r.2 }) := by
  simp only [slidingWindowCheck, h]

/-- A check of a log panics before it touches the map, or runs on the entry. -/
theorem slidingWindowCheck_cases (key : String) (maxRequests window : ℕ) (now : ℤ)
    (self : MemoryStore ν) :
    (instantSub now window = none ∧
        self.slidingWindowCheck key maxRequests window now = (.error .panic, self)) ∨
      ∃ cutoff, instantSub now window = some cutoff ∧
        self.slidingWindowCheck key maxRequests window now =
          let r := self.slidingLogs.access (slidingWindowBody maxRequests window now cutoff) key
          (.ok r.1, { self with slidingLogs := r.2 }) := by
  cases hcutoff : instantSub now window with
  | none => exact .inl ⟨rfl, by simp only [slidingWindowCheck, hcutoff]⟩
  | some cutoff => exact .inr ⟨cutoff, rfl, slidingWindowCheck_eq hcutoff key maxRequests self⟩

/-! ## Reset, remaining, cleanup -/

def reset (key : String) (self : MemoryStore ν) : MemoryStore ν :=
  { self with
    tokenBuckets := self.tokenBuckets.erase key
    slidingLogs := self.slidingLogs.erase key
    fixedWindows := self.fixedWindows.erase key }

/-- The allowance of whichever map holds the key. -/
def remaining [F64 ν] (key : String) (now : ℤ) (self : MemoryStore ν) : ℕ :=
  match self.tokenBuckets.lookup key with
  | some entry => F64.toU64 (F64.max entry.tokens (F64.ofInt 0))
  | none =>
    match self.fixedWindows.lookup key with
    | some entry =>
      if entry.window ≤ durationSince now entry.windowStart then entry.limit
      else entry.limit - entry.count
    | none =>
      match self.slidingLogs.lookup key with
      | some entry => entry.limit - entry.log.countP fun t => durationSince now t < entry.window
      | none => 0

/-- Evict the oldest entries until at most `max` remain: the entries that have
    a stamp are collected, sorted by it, and the first `len - max` removed. -/
def capOldest {β : Type} (order : IterOrder) (stamp : β → Option ℤ) (max : ℕ)
    (m : KeyMap String β) : KeyMap String β :=
  if m.size ≤ max then m
  else
    let entries := order.run (m.entries.filterMap fun e => (stamp e.2).map (e.1, ·))
    let entries := entries.mergeSort fun a b => a.2 ≤ b.2
    m.removeAll ((entries.take (m.size - max)).map Prod.fst)

def capTokenBuckets (order : IterOrder) (max : ℕ) (self : MemoryStore ν) : MemoryStore ν :=
  { self with tokenBuckets := capOldest order (fun s => some s.lastRefill) max self.tokenBuckets }

def capFixedWindows (order : IterOrder) (max : ℕ) (self : MemoryStore ν) : MemoryStore ν :=
  { self with fixedWindows := capOldest order (fun s => some s.windowStart) max self.fixedWindows }

def capSlidingLogs (order : IterOrder) (max : ℕ) (self : MemoryStore ν) : MemoryStore ν :=
  { self with slidingLogs := capOldest order (fun s => s.log.getLast?) max self.slidingLogs }

def isIdle (idleTtl : ℕ) (now last : ℤ) : Bool := decide (idleTtl ≤ durationSince now last)

/-- A log without entries is dropped whatever the TTL. -/
def keepLog (idleTtl : ℕ) (now : ℤ) (state : SlidingWindowState) : Bool :=
  match state.log.getLast? with
  | some last => !isIdle idleTtl now last
  | none => false

def evictIdle (now : ℤ) (self : MemoryStore ν) : MemoryStore ν :=
  { self with
    tokenBuckets := self.tokenBuckets.retain fun s => !isIdle self.idleTtl now s.lastRefill
    slidingLogs := self.slidingLogs.retain (keepLog self.idleTtl now)
    fixedWindows := self.fixedWindows.retain fun s => !isIdle self.idleTtl now s.windowStart }

def cleanup (env : MemoryEnv) (self : MemoryStore ν) : MemoryStore ν :=
  let self := self.evictIdle env.now
  match self.maxKeys with
  | some max =>
    ((self.capTokenBuckets env.order max).capSlidingLogs env.order max).capFixedWindows
      env.order max
  | none => self

/-- The store as a backend. -/
def backend [F64 ν] : RateLimitStore ν MemoryEnv (MemoryStore ν) where
  tokenBucketCheck env key capacity refillRate := tokenBucketCheck key capacity refillRate env.now
  slidingWindowCheck env key maxRequests window := slidingWindowCheck key maxRequests window env.now
  fixedWindowCheck env key maxRequests window := fixedWindowCheck key maxRequests window env.now

end MemoryStore

end ArmatureRatelimit
