/-
  What the sliding window log admits (`algorithms/sliding_window.rs`).

  The log of a key is the list of its admitted stamps that were in the window
  at its last call (`LogRun.log_eq`); so a call counts exactly the admitted
  calls of its window, and the limit is exact.
-/
import ArmatureRatelimit.Algorithms.SlidingWindow
import ArmatureRatelimit.Lib.Counting
import ArmatureRatelimit.Lib.Runs

open Lib

namespace ArmatureRatelimit

/-! ## Calls of one key -/

section
variable (s₀ : SlidingWindowLog) (calls : ℕ → SlidingWindowLog.Call) (key : String)

/-- The log of the key before call `n`. -/
def logAt (n : ℕ) : Option (List ℤ) := (stateAt SlidingWindowLog.call s₀ calls n).logs.lookup key

/-- Call `n` is a call of the key, and it is admitted. -/
def logAdmits (n : ℕ) : Bool :=
  decide ((calls n).key = key) && isAdmitted (outputAt SlidingWindowLog.call s₀ calls n)

/-- The stamps of the admitted calls of the key before call `n`. -/
def admittedLog (n : ℕ) : List ℤ :=
  ((List.range n).filter fun j => logAdmits s₀ calls key j).map fun j => (calls j).now

/-- The calls of the key come in the order of time, at instants from which the
    window can be subtracted; the key starts without a log, and its log is never
    evicted. -/
structure LogRun : Prop where
  fresh : s₀.logs.lookup key = none
  inOrder : ∀ i j, i ≤ j → (calls i).key = key → (calls j).key = key →
    (calls i).now ≤ (calls j).now
  representable : ∀ i, (calls i).key = key → instantMin ≤ (calls i).now - s₀.window
  kept : ∀ n, logAt s₀ calls key n ≠ none → logAt s₀ calls key (n + 1) ≠ none

end

variable {s₀ : SlidingWindowLog} {calls : ℕ → SlidingWindowLog.Call} {key : String}

theorem settings_stateAt (n : ℕ) :
    (stateAt SlidingWindowLog.call s₀ calls n).maxRequests = s₀.maxRequests ∧
      (stateAt SlidingWindowLog.call s₀ calls n).window = s₀.window := by
  refine stateAt_inv (P := fun _ (s : SlidingWindowLog) =>
    s.maxRequests = s₀.maxRequests ∧ s.window = s₀.window) ⟨rfl, rfl⟩ ?_ n
  intro n s h
  rw [SlidingWindowLog.call, SlidingWindowLog.tryAcquire]
  split <;> exact h

/-- What a call of the key finds in its log after pruning. -/
def liveAt (s₀ : SlidingWindowLog) (calls : ℕ → SlidingWindowLog.Call) (key : String) (n : ℕ) :
    List ℤ :=
  pruneLog ((calls n).now - s₀.window) ((logAt s₀ calls key n).getD [])

/-- What a call of the key answers and leaves. -/
theorem log_call {n : ℕ} (hrep : instantMin ≤ (calls n).now - s₀.window)
    (hn : (calls n).key = key) :
    outputAt SlidingWindowLog.call s₀ calls n =
        .ok (recordRequest s₀.maxRequests (calls n).now (liveAt s₀ calls key n)).1 ∧
      logAt s₀ calls key (n + 1) =
        some (recordRequest s₀.maxRequests (calls n).now (liveAt s₀ calls key n)).2 := by
  obtain ⟨hmax, hwin⟩ := @settings_stateAt s₀ calls n
  have hsub : instantSub (calls n).now (stateAt SlidingWindowLog.call s₀ calls n).window =
      some ((calls n).now - s₀.window) := by
    rw [hwin]; exact instantSub_some.mpr ⟨hrep, rfl⟩
  subst hn
  obtain ⟨hout, hlook⟩ := makeRoom_access_self (calls n).sel SlidingWindowLog.lastActive
    (stateAt SlidingWindowLog.call s₀ calls n).maxKeys
    (SlidingWindowLog.acquire s₀.maxRequests (calls n).now ((calls n).now - s₀.window))
    (calls n).key (stateAt SlidingWindowLog.call s₀ calls n).logs
  constructor
  · simp only [outputAt, SlidingWindowLog.call, SlidingWindowLog.tryAcquire, hsub, hmax]
    exact congrArg Except.ok hout
  · simp only [logAt, stateAt_succ, SlidingWindowLog.call, SlidingWindowLog.tryAcquire, hsub, hmax]
    exact hlook

/-- A call of another key leaves the log, as it is never evicted. -/
theorem LogRun.call_other (h : LogRun s₀ calls key) {n : ℕ} (hn : (calls n).key ≠ key) :
    logAt s₀ calls key (n + 1) = logAt s₀ calls key n := by
  by_contra hne
  have hcases : logAt s₀ calls key (n + 1) = logAt s₀ calls key n ∨
      logAt s₀ calls key (n + 1) = none := by
    simp only [logAt, stateAt_succ, SlidingWindowLog.call, SlidingWindowLog.tryAcquire]
    split
    · exact .inl rfl
    · exact makeRoom_access_ne _ _ _ _ (Ne.symm hn) _
  rcases hcases with heq | hnone
  · exact hne heq
  · refine h.kept n (fun hnil => hne ?_) hnone
    rw [hnil]; exact hnone

/-! ## The log is exact -/

theorem admittedLog_succ (n : ℕ) :
    admittedLog s₀ calls key (n + 1) = admittedLog s₀ calls key n ++
      if logAdmits s₀ calls key n = true then [(calls n).now] else [] := by
  simp only [admittedLog, List.range_succ, List.filter_append, List.map_append]
  cases hb : logAdmits s₀ calls key n <;> simp [hb]

theorem mem_admittedLog {n : ℕ} {x : ℤ} :
    x ∈ admittedLog s₀ calls key n ↔ ∃ j < n, logAdmits s₀ calls key j = true ∧
      (calls j).now = x := by
  simp [admittedLog, and_assoc]

theorem onKey_of_logAdmits {n : ℕ} (h : logAdmits s₀ calls key n = true) :
    (calls n).key = key := by
  simp only [logAdmits, Bool.and_eq_true, decide_eq_true_eq] at h
  exact h.1

theorem LogRun.admittedLog_sorted (h : LogRun s₀ calls key) (n : ℕ) :
    (admittedLog s₀ calls key n).Pairwise (· ≤ ·) := by
  induction n with
  | zero => exact .nil
  | succ n ih =>
    rw [admittedLog_succ]
    split_ifs with hn
    · refine List.pairwise_append.mpr ⟨ih, List.pairwise_singleton _ _, ?_⟩
      intro x hx y hy
      obtain ⟨j, hj, hadm, rfl⟩ := mem_admittedLog.mp hx
      rw [List.mem_singleton.mp hy]
      exact h.inOrder j n hj.le (onKey_of_logAdmits hadm) (onKey_of_logAdmits hn)
    · rw [List.append_nil]; exact ih

theorem LogRun.logAdmits_iff (h : LogRun s₀ calls key) {n : ℕ} (hn : (calls n).key = key) :
    logAdmits s₀ calls key n = true ↔ (liveAt s₀ calls key n).length < s₀.maxRequests := by
  rw [logAdmits, (log_call (h.representable n hn) hn).1, recordRequest]
  split_ifs with hlt <;> simp [hn, isAdmitted, hlt]

/-- The pruning loop finds exactly the admitted stamps that are not before its
    cutoff, when the log of the key holds those of an earlier cutoff. -/
theorem LogRun.liveAt_of_log (h : LogRun s₀ calls key) {n : ℕ} (hn : (calls n).key = key)
    (hlog : (logAt s₀ calls key n = none ∧ ∀ j < n, (calls j).key ≠ key) ∨
      ∃ i < n, (calls i).key = key ∧ logAt s₀ calls key n =
        some ((admittedLog s₀ calls key n).filter ((calls i).now - s₀.window ≤ ·))) :
    liveAt s₀ calls key n =
      (admittedLog s₀ calls key n).filter ((calls n).now - s₀.window ≤ ·) := by
  rw [liveAt]
  rcases hlog with ⟨hnone, hfirst⟩ | ⟨i, hi, hkey, hlog⟩
  · have hnil : admittedLog s₀ calls key n = [] := by
      rw [List.eq_nil_iff_forall_not_mem]
      intro x hx
      obtain ⟨j, hj, hadm, -⟩ := mem_admittedLog.mp hx
      exact hfirst j hj (onKey_of_logAdmits hadm)
    rw [hnone, hnil]; rfl
  · have hle := h.inOrder i n hi.le hkey hn
    rw [hlog, Option.getD_some, pruneLog_eq_filter ((h.admittedLog_sorted n).filter _),
      List.filter_filter]
    refine List.filter_congr ?_
    intro x _
    simp only [Bool.and_eq_decide, decide_eq_true_eq, decide_eq_decide]
    constructor
    · rintro ⟨hx, -⟩
      exact hx
    · intro hx
      exact ⟨hx, by omega⟩

/-- **The log of a key.**  It is missing before the first call of the key, and
    after that it is what was admitted, less what was too old at the last call. -/
theorem LogRun.log_eq (h : LogRun s₀ calls key) (n : ℕ) :
    (logAt s₀ calls key n = none ∧ ∀ j < n, (calls j).key ≠ key) ∨
      ∃ i < n, (calls i).key = key ∧ logAt s₀ calls key n =
        some ((admittedLog s₀ calls key n).filter ((calls i).now - s₀.window ≤ ·)) := by
  induction n with
  | zero => exact .inl ⟨h.fresh, fun j hj => absurd hj (Nat.not_lt_zero j)⟩
  | succ n ih =>
    by_cases hn : (calls n).key = key
    · refine .inr ⟨n, Nat.lt_succ_self n, hn, ?_⟩
      rw [(log_call (h.representable n hn) hn).2, admittedLog_succ, List.filter_append,
        ← h.liveAt_of_log hn ih, recordRequest]
      by_cases hlt : (liveAt s₀ calls key n).length < s₀.maxRequests
      · simp [hlt, (h.logAdmits_iff hn).mpr hlt]
      · simp [hlt, (h.logAdmits_iff hn).not.mpr hlt]
    · rw [h.call_other hn]
      have hsame : admittedLog s₀ calls key (n + 1) = admittedLog s₀ calls key n := by
        rw [admittedLog_succ, if_neg (fun hadm => hn (onKey_of_logAdmits hadm)), List.append_nil]
      rw [hsame]
      rcases ih with ⟨hnone, hfirst⟩ | ⟨i, hi, hkey, hlog⟩
      · refine .inl ⟨hnone, ?_⟩
        intro j hj
        rcases Nat.lt_or_eq_of_le (Nat.lt_succ_iff.mp hj) with hj | rfl
        · exact hfirst j hj
        · exact hn
      · exact .inr ⟨i, by omega, hkey, hlog⟩

/-! ## What a call counts -/

/-- The admitted calls of the key before call `i` that lie in its window. -/
def inWindow (s₀ : SlidingWindowLog) (calls : ℕ → SlidingWindowLog.Call) (key : String) (i : ℕ) :
    Finset ℕ :=
  (Finset.range i).filter fun j => logAdmits s₀ calls key j = true ∧
    (calls i).now - s₀.window ≤ (calls j).now ∧ (calls j).now ≤ (calls i).now

/-- A call counts exactly the admitted calls of its window. -/
theorem LogRun.length_liveAt (h : LogRun s₀ calls key) {i : ℕ} (hi : (calls i).key = key) :
    (liveAt s₀ calls key i).length = (inWindow s₀ calls key i).card := by
  rw [h.liveAt_of_log hi (h.log_eq i), admittedLog, List.filter_map, List.length_map,
    List.filter_filter]
  have hset : inWindow s₀ calls key i = ((List.range i).filter fun j =>
      decide ((calls i).now - s₀.window ≤ (calls j).now) && logAdmits s₀ calls key j).toFinset := by
    ext j
    simp only [inWindow, Finset.mem_filter, Finset.mem_range, List.mem_toFinset, List.mem_filter,
      List.mem_range, Bool.and_eq_true, decide_eq_true_eq]
    constructor
    · rintro ⟨hj, hadm, hlo, -⟩
      exact ⟨hj, hlo, hadm⟩
    · rintro ⟨hj, hlo, hadm⟩
      exact ⟨hj, hadm, hlo, h.inOrder j i hj.le (onKey_of_logAdmits hadm) hi⟩
  rw [hset, List.toFinset_card_of_nodup (List.nodup_range.filter _)]
  rfl

/-- Any closed interval as long as the window admits at most the limit. -/
theorem LogRun.card_le (h : LogRun s₀ calls key) (start : ℤ) (S : Finset ℕ)
    (hS : ∀ n ∈ S, logAdmits s₀ calls key n = true ∧
      start ≤ (calls n).now ∧ (calls n).now ≤ start + s₀.window) :
    S.card ≤ s₀.maxRequests := by
  rcases S.eq_empty_or_nonempty with rfl | hne
  · exact Nat.zero_le _
  · have hlast := hS _ (S.max'_mem hne)
    -- the last call of `S` counted all the others
    have hcard := card_le_succ (T := inWindow s₀ calls key (S.max' hne)) hne (by
      intro m hm hlt
      have hmS := hS m hm
      have hle := h.inOrder m _ hlt.le (onKey_of_logAdmits hmS.1) (onKey_of_logAdmits hlast.1)
      simp only [inWindow, Finset.mem_filter, Finset.mem_range]
      exact ⟨hlt, hmS.1, by omega, hle⟩)
    have hcount := (h.logAdmits_iff (onKey_of_logAdmits hlast.1)).mp hlast.1
    rw [h.length_liveAt (onKey_of_logAdmits hlast.1)] at hcount
    omega

/-- The stored log never exceeds the limit. -/
theorem LogRun.length_le (h : LogRun s₀ calls key) {n : ℕ} {log : List ℤ}
    (hlog : logAt s₀ calls key n = some log) : log.length ≤ s₀.maxRequests := by
  induction n generalizing log with
  | zero => rw [logAt, stateAt, h.fresh] at hlog; cases hlog
  | succ n ih =>
    by_cases hn : (calls n).key = key
    · rw [(log_call (h.representable n hn) hn).2] at hlog
      obtain rfl := Option.some.inj hlog
      have hlive : (liveAt s₀ calls key n).length ≤ s₀.maxRequests := by
        have hprune := (List.dropWhile_sublist (p := (· < (calls n).now - s₀.window))
          (l := (logAt s₀ calls key n).getD [])).length_le
        cases hprev : logAt s₀ calls key n with
        | none => rw [liveAt, hprev]; exact Nat.zero_le _
        | some prev =>
          rw [liveAt, pruneLog]
          rw [hprev, Option.getD_some] at hprune ⊢
          exact hprune.trans (ih hprev)
      rw [recordRequest]
      split_ifs with hlt
      · rw [List.length_append, List.length_singleton]; exact hlt
      · exact hlive
    · rw [h.call_other hn] at hlog
      exact ih hlog

/-- **The sliding window log is exact.**  A call is admitted if and only if its
    window holds fewer admitted calls than the limit, and then returns what is
    left; so any closed interval as long as the window admits at most the
    limit, and so many stamps are stored at most. -/
theorem slidingWindowLog_law (h : LogRun s₀ calls key) :
    (∀ i, (calls i).key = key → outputAt SlidingWindowLog.call s₀ calls i =
      .ok (if (inWindow s₀ calls key i).card < s₀.maxRequests then
        (true, s₀.maxRequests - 1 - (inWindow s₀ calls key i).card) else (false, 0))) ∧
    (∀ (start : ℤ) (S : Finset ℕ), (∀ n ∈ S, logAdmits s₀ calls key n = true ∧
        start ≤ (calls n).now ∧ (calls n).now ≤ start + s₀.window) → S.card ≤ s₀.maxRequests) ∧
    (∀ n log, logAt s₀ calls key n = some log → log.length ≤ s₀.maxRequests) := by
  refine ⟨?_, h.card_le, fun n log => h.length_le⟩
  intro i hi
  rw [(log_call (h.representable i hi) hi).1, recordRequest, ← h.length_liveAt hi]
  split_ifs
  · rw [Nat.sub_right_comm]
  · rfl

/-- A limiter of two requests in ten seconds. -/
def twoInTen : SlidingWindowLog := ⟨2, 10000000000, ∅, 100⟩

/-- One client that calls every three seconds. -/
def everyThree (n : ℕ) : SlidingWindowLog.Call := ⟨"client", .sorting, n * 3000000000⟩

theorem everyThree_run : LogRun twoInTen everyThree "client" where
  fresh := rfl
  inOrder i j hij _ _ := by simp only [everyThree]; omega
  representable i _ := by
    simp only [everyThree, twoInTen, instantMin]
    omega
  kept n _ := by
    have hrep : instantMin ≤ (everyThree n).now - twoInTen.window := by
      simp only [everyThree, twoInTen, instantMin]
      omega
    have hkey : (everyThree n).key = "client" := rfl
    rw [(log_call hrep hkey).2]
    exact Option.some_ne_none _

theorem slidingWindowLog_law_everyThree :
    outputAt SlidingWindowLog.call twoInTen everyThree 3 = .ok (false, 0) := by
  rw [(slidingWindowLog_law everyThree_run).1 3 rfl]
  decide

end ArmatureRatelimit
