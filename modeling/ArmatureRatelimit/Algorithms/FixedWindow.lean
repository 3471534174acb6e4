/-
  The fixed window counter (`algorithms/fixed_window.rs`).

  A key's window starts at its first request after the previous window ended.
  `WindowState` and its operations are shared with the memory store.
-/
import ArmatureRatelimit.Algorithms.TokenBucket

open Lib

namespace ArmatureRatelimit

/-! ## One window -/

structure WindowState where
  count : ℕ
  windowStart : ℤ
  deriving DecidableEq

namespace WindowState

/-- Start a new window if the current one is over. -/
def roll (window : ℕ) (now : ℤ) (state : WindowState) : WindowState :=
  if window ≤ durationSince now state.windowStart then ⟨0, now⟩ else state

/-- Count a request if the limit allows. -/
def increment (maxRequests : ℕ) (state : WindowState) : (Bool × ℕ) × WindowState :=
  if state.count < maxRequests then
    ((true, maxRequests - (state.count + 1)), { state with count := state.count + 1 })
  else ((false, 0), state)

theorem increment_windowStart (maxRequests : ℕ) (state : WindowState) :
    (state.increment maxRequests).2.windowStart = state.windowStart := by
  unfold increment
  split_ifs <;> rfl

/-- The body that runs on the locked entry of a key. -/
def acquire (maxRequests window : ℕ) (now : ℤ) (entry : Option WindowState) :
    (Bool × ℕ) × WindowState :=
  ((entry.getD ⟨0, now⟩).roll window now).increment maxRequests

end WindowState

/-! ## The limiter -/

structure FixedWindow where
  maxRequests : ℕ
  window : ℕ
  windows : KeyMap String WindowState
  maxKeys : ℕ

namespace FixedWindow

/-- `none` is a panic of one of the assertions. -/
def new (maxRequests window : ℕ) : Option FixedWindow :=
  if 0 < maxRequests ∧ ¬ Duration.isZero window then
    some ⟨maxRequests, window, ∅, defaultMaxKeys⟩
  else none

def withMaxKeys (self : FixedWindow) (maxKeys : ℕ) : FixedWindow :=
  { self with maxKeys := max maxKeys 1 }

def lastActive (state : WindowState) : WithBot ℤ := state.windowStart

/-- Reclaim a batch of the least recently started windows. -/
def evictOldest (self : FixedWindow) (sel : Selection) : FixedWindow :=
  { self with
    windows := evictOldestBatch sel lastActive (evictionBatchSize self.maxKeys) self.windows }

/-- Try to record a request. -/
def tryAcquire (self : FixedWindow) (sel : Selection) (key : String) (now : ℤ) :
    (Bool × ℕ) × FixedWindow :=
  let windows := makeRoom sel lastActive self.maxKeys key self.windows
  let r := windows.access (WindowState.acquire self.maxRequests self.window now) key
  (r.1, { self with windows := r.2 })

/-- Time until the current window resets for a key. -/
def timeUntilReset (self : FixedWindow) (key : String) (now : ℤ) : ℕ :=
  match self.windows.lookup key with
  | some state =>
    let elapsed := durationSince now state.windowStart
    if elapsed < self.window then self.window - elapsed else self.window
  | none => self.window

def reset (self : FixedWindow) (key : String) : FixedWindow :=
  { self with windows := self.windows.erase key }

def remaining (self : FixedWindow) (key : String) (now : ℤ) : ℕ :=
  match self.windows.lookup key with
  | some state =>
    if self.window ≤ durationSince now state.windowStart then self.maxRequests
    else self.maxRequests - state.count
  | none => self.maxRequests

end FixedWindow

end ArmatureRatelimit
