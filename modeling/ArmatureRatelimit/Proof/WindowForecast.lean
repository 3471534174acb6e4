/-
  `remaining` of the window limiters (`algorithms/sliding_window.rs`,
  `algorithms/fixed_window.rs`) and of the windows of the memory store
  (`stores/memory.rs`).

  The queries of the standalone limiters, and those of the store's fixed
  windows, apply the rule by which the check expires what it counts, so they
  foretell it (`windowRemaining_foretells`).  The query of the store's sliding
  windows leaves out a request that is exactly one window old, which the check
  still counts; it foretells the check exactly where there is none
  (`slidingRemaining_foretells_iff`).
-/
import ArmatureRatelimit.Proof.Forecast

open Lib

namespace ArmatureRatelimit

/-! ## Standalone limiters -/

namespace SlidingWindowLog

/-- What the check of a key would find, before or after the query. -/
theorem remaining_foretells (self : SlidingWindowLog) {key : String} {t : ℤ} {n : ℕ}
    (h : (self.remaining key t).1 = .ok n) (sel : Selection) :
    Foretells n (self.tryAcquire sel key t).1 ∧
      Foretells n ((self.remaining key t).2.tryAcquire sel key t).1 := by
  unfold remaining cleanAndCount at h ⊢
  unfold tryAcquire
  cases hcutoff : instantSub t self.window with
  | none =>
    rw [hcutoff] at h
    cases h
  | some cutoff =>
    simp only [hcutoff] at h ⊢
    obtain rfl := Except.ok.inj h
    refine ⟨?_, ?_⟩
    · rw [(makeRoom_access_self sel lastActive self.maxKeys _ key self.logs).1, acquire,
        recordRequest_fst, foretells_answerOf]
      rfl
    · -- the query has pruned the log already
      rw [(makeRoom_access_self sel lastActive self.maxKeys _ key _).1, acquire,
        recordRequest_fst, foretells_answerOf, KeyMap.access_lookup_self, Option.getD_some]
      unfold pruneLog
      rw [List.dropWhile_idempotent]
      rfl

end SlidingWindowLog

namespace FixedWindow

theorem remaining_eq_left (self : FixedWindow) (key : String) (t : ℤ) :
    self.remaining key t =
      WindowState.left self.maxRequests self.window t (self.windows.lookup key) := by
  unfold remaining WindowState.left
  cases self.windows.lookup key <;> rfl

theorem remaining_foretells (self : FixedWindow) (key : String) (t : ℤ) (sel : Selection) :
    Foretells (self.remaining key t) (.ok (self.tryAcquire sel key t).1) := by
  rw [tryAcquire_fst, remaining_eq_left, foretells_answerOf]

end FixedWindow

/-! ## Fixed windows of the store -/

section
variable {ν : Type} [F64 ν] {key : String} {maxRequests window : ℕ} {s : MemoryStore ν}
  {calls : List (StoreCall ν)} {t : ℤ}

omit [F64 ν] in
/-- The key has a fixed window with the parameters of its checks, and nothing
    else. -/
structure FixedKey (maxRequests window : ℕ) (ks : KeyState ν) : Prop where
  bucket : ks.bucket = none
  limit : ∀ entry, ks.fixedWindow = some entry →
    entry.limit = maxRequests ∧ entry.window = window

theorem KeyRun.fixedKey (h : KeyRun key (.fixedWindow maxRequests window) s calls t) :
    FixedKey maxRequests window ((run MemoryStore.call s calls).entriesOf key) := by
  refine h.entries (P := fun _ ks => FixedKey maxRequests window ks) (fun _ _ _ _ hP => hP)
    ?_ ?_ ?_
  · intro _ ks ks' hsheds hP
    refine ⟨hsheds.bucket.elim (fun heq => heq.trans hP.bucket) id, fun entry hentry => ?_⟩
    exact hP.limit entry (of_kept_or_gone hsheds.fixedWindow hentry)
  · exact fun _ => ⟨rfl, fun entry hentry => by cases hentry⟩
  · intro now _ ks hP
    refine ⟨hP.bucket, fun entry hentry => ?_⟩
    obtain rfl := Option.some.inj hentry
    exact ⟨rfl, rfl⟩

theorem KeyRun.fixedRemaining_foretells
    (h : KeyRun key (.fixedWindow maxRequests window) s calls t) {entry : FixedWindowState}
    (hentry : (run MemoryStore.call s calls).fixedWindows.lookup key = some entry) :
    Foretells ((run MemoryStore.call s calls).remaining key t)
      ((run MemoryStore.call s calls).fixedWindowCheck key maxRequests window t).1 := by
  obtain ⟨hbucket, hlimit⟩ := h.fixedKey
  generalize run MemoryStore.call s calls = s' at hentry hbucket hlimit ⊢
  obtain ⟨hmax, hwindow⟩ := hlimit entry hentry
  have hnone : s'.tokenBuckets.lookup key = none := hbucket
  have hquery : s'.remaining key t =
      WindowState.left maxRequests window t (some entry.toWindowState) := by
    simp only [MemoryStore.remaining, hnone, hentry, hmax, hwindow, WindowState.left]
  have hcheck : (s'.fixedWindowCheck key maxRequests window t).1 =
      .ok (answerOf (s'.remaining key t)) := by
    rw [hquery, ← WindowState.acquire_fst]
    simp only [MemoryStore.fixedWindowCheck, KeyMap.access, MemoryStore.fixedWindowBody, hentry,
      Option.map_some]
  rw [hcheck, foretells_answerOf]

end

/-- **What a query tells about a window.**  Whatever the state of a standalone
    limiter, a query of any key foretells the check at the same time, also one
    that evicts other keys first.  In the store it does so for a key that is
    tracked by its fixed window checks. -/
theorem windowRemaining_foretells {ν : Type} [F64 ν] (key : String) (t : ℤ) :
    (∀ (limiter : SlidingWindowLog) (n : ℕ), (limiter.remaining key t).1 = .ok n → ∀ sel,
      Foretells n (limiter.tryAcquire sel key t).1 ∧
        Foretells n ((limiter.remaining key t).2.tryAcquire sel key t).1) ∧
    (∀ (limiter : FixedWindow) (sel : Selection),
      Foretells (limiter.remaining key t) (.ok (limiter.tryAcquire sel key t).1)) ∧
    ∀ (maxRequests window : ℕ) (s : MemoryStore ν) (calls : List (StoreCall ν)),
      KeyRun key (.fixedWindow maxRequests window) s calls t →
      (run MemoryStore.call s calls).fixedWindows.lookup key ≠ none →
      Foretells ((run MemoryStore.call s calls).remaining key t)
        ((run MemoryStore.call s calls).fixedWindowCheck key maxRequests window t).1 := by
  refine ⟨?_, ?_, ?_⟩
  · exact fun limiter n h sel => limiter.remaining_foretells h sel
  · exact fun limiter sel => limiter.remaining_foretells key t sel
  · intro maxRequests window s calls h htracked
    obtain ⟨entry, hentry⟩ := Option.ne_none_iff_exists'.mp htracked
    exact h.fixedRemaining_foretells hentry

/-- A store after the first check of the key `a` under a window of a second. -/
def windowStore (algorithm : Algorithm ℚ) : MemoryStore ℚ :=
  run MemoryStore.call .new [callAt 1 (.check "a" algorithm)]

/-- A log with one of two requests, and a window in the store as it rolls over. -/
theorem windowRemaining_foretells_second :
    Foretells 1 ((⟨2, 1000000000, (∅ : KeyMap String (List ℤ)).insert "a" [0], 1⟩ :
        SlidingWindowLog).tryAcquire .sorting "a" 1000000000).1 ∧
      Foretells ((windowStore (.fixedWindow 2 1000000000)).remaining "a" 2000000000)
        ((windowStore (.fixedWindow 2 1000000000)).fixedWindowCheck "a" 2 1000000000
          2000000000).1 :=
  ⟨((windowRemaining_foretells (ν := ℚ) "a" 1000000000).1 _ 1 (by decide) _).1,
    (windowRemaining_foretells "a" 2000000000).2.2 _ _ _ _ (keyRun_single _ _ (by decide))
      (by decide)⟩

/-! ## Sliding windows of the store -/

/-- The log of a key that is checked with constant parameters. -/
structure LogKept (maxRequests window : ℕ) (t : ℤ) (entry : SlidingWindowState) : Prop where
  hasLimit : entry.limit = maxRequests
  hasWindow : entry.window = window
  sorted : entry.log.Pairwise (· ≤ ·)
  past : ∀ x ∈ entry.log, x ≤ t
  length : entry.log.length ≤ maxRequests
  /-- the clock can be set back by a window -/
  cutoff : instantMin ≤ t - window

/-- What a check makes of a log that is kept. -/
theorem LogKept.body {maxRequests window : ℕ} {now : ℤ} (hcutoff : instantMin ≤ now - window)
    {entry : Option SlidingWindowState}
    (h : ∀ e, entry = some e → LogKept maxRequests window now e) :
    LogKept maxRequests window now
      (MemoryStore.slidingWindowBody maxRequests window now (now - window) entry).2 := by
  have hsorted : (entry.getD .empty).log.Pairwise (· ≤ ·) := by
    cases entry with
    | none => exact List.Pairwise.nil
    | some e => exact (h e rfl).sorted
  have hpast : ∀ x ∈ (entry.getD .empty).log, x ≤ now := by
    cases entry with
    | none => exact fun x hx => absurd hx List.not_mem_nil
    | some e => exact (h e rfl).past
  have hlength : (entry.getD .empty).log.length ≤ maxRequests := by
    cases entry with
    | none => exact Nat.zero_le _
    | some e => exact (h e rfl).length
  obtain ⟨hsorted', hpast'⟩ :=
    @recordRequest_sorted maxRequests now (now - window) _ hsorted hpast
  exact ⟨rfl, rfl, hsorted', hpast',
    recordRequest_length_le ((pruneLog_length_le _ _).trans hlength), hcutoff⟩

/-- What the check counts: what the query counts, and the requests that are
    exactly one window old. -/
theorem LogKept.counted {maxRequests window : ℕ} {t : ℤ} {entry : SlidingWindowState}
    (h : LogKept maxRequests window t entry) (hwindow : 0 < window) :
    (pruneLog (t - window) entry.log).length =
      entry.log.countP (fun x => durationSince t x < window) +
        entry.log.count (t - window) := by
  rw [pruneLog_eq_filter h.sorted, ← List.countP_eq_length_filter]
  have hpast := h.past
  generalize entry.log = log at hpast
  induction log with
  | nil => rfl
  | cons x log ih =>
    have hx := hpast x (by simp)
    have hage : durationSince t x < window ↔ t - window < x := by
      unfold durationSince
      omega
    rw [List.countP_cons, List.countP_cons, List.count_cons,
      ih fun y hy => hpast y (by simp [hy])]
    simp only [decide_eq_true_eq, beq_iff_eq, hage]
    split_ifs <;> omega

section
variable {ν : Type} [F64 ν] {key : String} {maxRequests window : ℕ} {s : MemoryStore ν}
  {calls : List (StoreCall ν)} {t : ℤ}

omit [F64 ν] in
/-- The key has a sliding log that is kept, and nothing else. -/
structure SlidingKey (maxRequests window : ℕ) (t : ℤ) (ks : KeyState ν) : Prop where
  bucket : ks.bucket = none
  fixedWindow : ks.fixedWindow = none
  log : ∀ entry, ks.log = some entry → LogKept maxRequests window t entry

theorem KeyRun.slidingKey (h : KeyRun key (.slidingWindowLog maxRequests window) s calls t) :
    SlidingKey maxRequests window t ((run MemoryStore.call s calls).entriesOf key) := by
  refine h.entries (P := SlidingKey maxRequests window) ?_ ?_ ?_ ?_
  · intro t t' ks hle hP
    refine ⟨hP.bucket, hP.fixedWindow, fun entry hentry => ?_⟩
    obtain ⟨hlimit, hwindow, hsorted, hpast, hlength, hcutoff⟩ := hP.log entry hentry
    exact ⟨hlimit, hwindow, hsorted, fun x hx => (hpast x hx).trans hle, hlength, by omega⟩
  · intro t ks ks' hsheds hP
    refine ⟨hsheds.bucket.elim (fun heq => heq.trans hP.bucket) id,
      hsheds.fixedWindow.elim (fun heq => heq.trans hP.fixedWindow) id, fun entry hentry => ?_⟩
    exact hP.log entry (of_kept_or_gone hsheds.log hentry)
  · exact fun _ => ⟨rfl, rfl, fun entry hentry => by cases hentry⟩
  · intro now _ ks hP
    simp only [KeyState.step]
    cases hcutoff : instantSub now window with
    | none => exact hP
    | some cutoff =>
      obtain ⟨hmin, rfl⟩ := instantSub_some.mp hcutoff
      refine ⟨hP.bucket, hP.fixedWindow, fun entry hentry => ?_⟩
      obtain rfl := Option.some.inj hentry
      exact LogKept.body hmin hP.log

/-- **What a query tells about a sliding window of the store.**  A query of a
    tracked key foretells the check at `t` exactly if no request in the log of
    the key is exactly one window old. -/
theorem slidingRemaining_foretells_iff (hwindow : 0 < window)
    (h : KeyRun key (.slidingWindowLog maxRequests window) s calls t)
    {entry : SlidingWindowState}
    (hentry : (run MemoryStore.call s calls).slidingLogs.lookup key = some entry) :
    Foretells ((run MemoryStore.call s calls).remaining key t)
        ((run MemoryStore.call s calls).slidingWindowCheck key maxRequests window t).1 ↔
      ∀ x ∈ entry.log, t - x ≠ window := by
  obtain ⟨hbucket, hfixed, hlog⟩ := h.slidingKey
  generalize run MemoryStore.call s calls = s' at hentry hbucket hfixed hlog ⊢
  have hkept := hlog entry hentry
  have hcounted := hkept.counted hwindow
  have hquery : s'.remaining key t =
      maxRequests - entry.log.countP fun x => durationSince t x < window := by
    have hnone : s'.tokenBuckets.lookup key = none := hbucket
    have hnone' : s'.fixedWindows.lookup key = none := hfixed
    simp only [MemoryStore.remaining, hnone, hnone', hentry, hkept.hasLimit, hkept.hasWindow]
  have hcheck : (s'.slidingWindowCheck key maxRequests window t).1 =
      .ok (answerOf (maxRequests - (pruneLog (t - window) entry.log).length)) := by
    rw [← recordRequest_fst maxRequests t]
    simp only [MemoryStore.slidingWindowCheck_eq (instantSub_some.mpr ⟨hkept.cutoff, rfl⟩),
      KeyMap.access, MemoryStore.slidingWindowBody, hentry, Option.getD_some]
  have hbound := (pruneLog_length_le (t - window) entry.log).trans hkept.length
  rw [hcheck, hquery, foretells_answerOf]
  constructor
  · intro heq x hx hage
    have hmem : t - window ∈ entry.log := by
      rwa [show t - window = x by omega]
    have hcount := List.count_pos_iff.mpr hmem
    omega
  · intro hnone
    have hcount : entry.log.count (t - window) = 0 := by
      refine List.count_eq_zero.mpr fun hmem => hnone _ hmem ?_
      omega
    rw [hcounted, hcount, Nat.add_zero]

end

/-- Half a second after the first of two requests. -/
theorem slidingRemaining_foretells_half :
    Foretells ((windowStore (.slidingWindowLog 2 1000000000)).remaining "a" 1500000000)
      ((windowStore (.slidingWindowLog 2 1000000000)).slidingWindowCheck "a" 2 1000000000
        1500000000).1 :=
  (slidingRemaining_foretells_iff (by decide) (keyRun_single _ _ (by decide))
    (show _ = some ⟨[1000000000], 2, 1000000000⟩ by decide)).mpr (by decide)

/-- Exactly one window after the only request: the query finds one left, and the
    check is denied. -/
theorem slidingRemaining_boundary :
    ¬ Foretells ((windowStore (.slidingWindowLog 1 1000000000)).remaining "a" 2000000000)
      ((windowStore (.slidingWindowLog 1 1000000000)).slidingWindowCheck "a" 1 1000000000
        2000000000).1 :=
  not_foretells_denied 0 (by decide) (by decide)

end ArmatureRatelimit
