/-
  The sliding window log (`algorithms/sliding_window.rs`).

  A log is the list of the instants of admitted requests, the front first.
  `pruneLog` and `recordRequest` are shared with the memory store.
-/
import ArmatureRatelimit.Algorithms.TokenBucket

open Lib

namespace ArmatureRatelimit

/-! ## One log -/

/-- The loop that pops the front of the log while it is before the cutoff. -/
def pruneLog (cutoff : ℤ) (log : List ℤ) : List ℤ := log.dropWhile (· < cutoff)

/-- Count the current requests and record one more if the limit allows. -/
def recordRequest (maxRequests : ℕ) (now : ℤ) (log : List ℤ) : (Bool × ℕ) × List ℤ :=
  let currentCount := log.length
  if currentCount < maxRequests then
    ((true, maxRequests - currentCount - 1), log ++ [now])
  else ((false, 0), log)

theorem pruneLog_eq_nil {cutoff : ℤ} {log : List ℤ} (h : ∀ x ∈ log, x < cutoff) :
    pruneLog cutoff log = [] := by
  simp only [pruneLog, List.dropWhile_eq_nil_iff]
  exact fun x hx => decide_eq_true (h x hx)

/-- On a sorted log popping the front removes exactly what is before the cutoff. -/
theorem pruneLog_eq_filter {cutoff : ℤ} {log : List ℤ} (h : log.Pairwise (· ≤ ·)) :
    pruneLog cutoff log = log.filter (cutoff ≤ ·) := by
  induction log with
  | nil => rfl
  | cons x log ih =>
    obtain ⟨hx, hlog⟩ := List.pairwise_cons.mp h
    by_cases hc : x < cutoff
    · have hc' : ¬ cutoff ≤ x := not_le.mpr hc
      simp only [pruneLog, List.dropWhile_cons, List.filter_cons, hc, hc', decide_true, if_true,
        decide_false, Bool.false_eq_true, if_false]
      exact ih hlog
    · have hall : (x :: log).filter (cutoff ≤ ·) = x :: log := by
        rw [List.filter_eq_self]
        intro y hy
        rcases List.mem_cons.mp hy with rfl | hy
        · exact decide_eq_true (not_lt.mp hc)
        · exact decide_eq_true ((not_lt.mp hc).trans (hx y hy))
      rw [hall]
      simp only [pruneLog, List.dropWhile_cons, hc, decide_false, Bool.false_eq_true, if_false]

theorem pruneLog_length_le (cutoff : ℤ) (log : List ℤ) :
    (pruneLog cutoff log).length ≤ log.length := (List.dropWhile_sublist _).length_le

/-- What is left after pruning has the same back. -/
theorem getLast_of_pruneLog {cutoff t : ℤ} {log : List ℤ}
    (h : (pruneLog cutoff log).getLast? = some t) : log.getLast? = some t := by
  obtain ⟨front, hfront⟩ : pruneLog cutoff log <:+ log := List.dropWhile_suffix _
  rw [← hfront, List.getLast?_append, h, Option.some_or]

theorem recordRequest_ne_nil {maxRequests : ℕ} (h : 0 < maxRequests) (now : ℤ) (log : List ℤ) :
    (recordRequest maxRequests now log).2 ≠ [] := by
  unfold recordRequest
  simp only
  split_ifs with hroom
  · simp
  · rintro rfl
    exact hroom h

theorem recordRequest_length_le {maxRequests : ℕ} {now : ℤ} {log : List ℤ}
    (h : log.length ≤ maxRequests) :
    (recordRequest maxRequests now log).2.length ≤ maxRequests := by
  simp only [recordRequest]
  split_ifs with hlt
  · rw [List.length_append, List.length_singleton]; exact hlt
  · exact h

/-- A log that is sorted and not ahead of `now` stays so. -/
theorem recordRequest_sorted {maxRequests : ℕ} {now cutoff : ℤ} {log : List ℤ}
    (hs : log.Pairwise (· ≤ ·)) (hle : ∀ x ∈ log, x ≤ now) :
    (recordRequest maxRequests now (pruneLog cutoff log)).2.Pairwise (· ≤ ·) ∧
      ∀ x ∈ (recordRequest maxRequests now (pruneLog cutoff log)).2, x ≤ now := by
  have hsub : (pruneLog cutoff log).Sublist log := List.dropWhile_sublist _
  have hs' := hs.sublist hsub
  have hle' : ∀ x ∈ pruneLog cutoff log, x ≤ now := fun x hx => hle x (hsub.subset hx)
  simp only [recordRequest]
  split_ifs
  · refine ⟨List.pairwise_append.mpr ⟨hs', List.pairwise_singleton _ _, ?_⟩, ?_⟩
    · intro x hx y hy
      rw [List.mem_singleton.mp hy]; exact hle' x hx
    · intro x hx
      rcases List.mem_append.mp hx with hx | hx
      · exact hle' x hx
      · exact (List.mem_singleton.mp hx).le
  · exact ⟨hs', hle'⟩

/-! ## The limiter -/

structure SlidingWindowLog where
  maxRequests : ℕ
  window : ℕ
  logs : KeyMap String (List ℤ)
  maxKeys : ℕ

namespace SlidingWindowLog

/-- `none` is a panic of one of the assertions. -/
def new (maxRequests window : ℕ) : Option SlidingWindowLog :=
  if 0 < maxRequests ∧ ¬ Duration.isZero window then
    some ⟨maxRequests, window, ∅, defaultMaxKeys⟩
  else none

def withMaxKeys (self : SlidingWindowLog) (maxKeys : ℕ) : SlidingWindowLog :=
  { self with maxKeys := max maxKeys 1 }

/-- `log.back().copied()`. -/
def lastActive (log : List ℤ) : WithBot ℤ := log.getLast?

/-- Clean up old timestamps and count current requests. -/
def cleanAndCount (self : SlidingWindowLog) (key : String) (now : ℤ) :
    Outcome ℕ × SlidingWindowLog :=
  match instantSub now self.window with
  | none => (.error .panic, self)
  | some cutoff =>
    let r := self.logs.access
      (fun entry => let log := pruneLog cutoff (entry.getD []); (log.length, log)) key
    (.ok r.1, { self with logs := r.2 })

/-- The body that runs on the locked entry of a key. -/
def acquire (maxRequests : ℕ) (now cutoff : ℤ) (entry : Option (List ℤ)) :
    (Bool × ℕ) × List ℤ :=
  recordRequest maxRequests now (pruneLog cutoff (entry.getD []))

/-- Try to record a request; `now - self.window` panics on underflow. -/
def tryAcquire (self : SlidingWindowLog) (sel : Selection) (key : String) (now : ℤ) :
    Outcome (Bool × ℕ) × SlidingWindowLog :=
  match instantSub now self.window with
  | none => (.error .panic, self)
  | some cutoff =>
    let logs := makeRoom sel lastActive self.maxKeys key self.logs
    let r := logs.access (acquire self.maxRequests now cutoff) key
    (.ok r.1, { self with logs := r.2 })

/-- A call panics before it touches the map, or makes room and runs on the entry. -/
theorem tryAcquire_cases (self : SlidingWindowLog) (sel : Selection) (key : String) (now : ℤ) :
    (instantSub now self.window = none ∧
        self.tryAcquire sel key now = (.error .panic, self)) ∨
      ∃ cutoff, instantSub now self.window = some cutoff ∧
        self.tryAcquire sel key now =
          let logs := makeRoom sel lastActive self.maxKeys key self.logs
          let r := logs.access (acquire self.maxRequests now cutoff) key
          (.ok r.1, { self with logs := r.2 }) := by
  cases hcutoff : instantSub now self.window with
  | none => exact .inl ⟨rfl, by simp only [tryAcquire, hcutoff]⟩
  | some cutoff => exact .inr ⟨cutoff, rfl, by simp only [tryAcquire, hcutoff]⟩

/-- A call of `try_acquire`, with what it reads. -/
structure Call where
  key : String
  sel : Selection
  now : ℤ

def call (c : Call) (self : SlidingWindowLog) : Outcome (Bool × ℕ) × SlidingWindowLog :=
  self.tryAcquire c.sel c.key c.now

def reset (self : SlidingWindowLog) (key : String) : SlidingWindowLog :=
  { self with logs := self.logs.erase key }

def remaining (self : SlidingWindowLog) (key : String) (now : ℤ) :
    Outcome ℕ × SlidingWindowLog :=
  let r := self.cleanAndCount key now
  (r.1.map (self.maxRequests - ·), r.2)

end SlidingWindowLog

end ArmatureRatelimit
