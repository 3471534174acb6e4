/-
  What the fixed windows of the memory store admit (`stores/memory.rs`).

  Two values of a key's `window_start` are equal or at least the window apart,
  whatever the order of the readings (`WindowRun.start_spaced`), and the count
  of the entry is the number of calls admitted since it took its value
  (`WindowRun.count_eq`).  When the readings come in order, the window of an
  admitted call contains it, so an interval as long as the window meets the
  windows of at most two values.
-/
import ArmatureRatelimit.Stores.Memory
import ArmatureRatelimit.Lib.Runs
import ArmatureRatelimit.Lib.Counting

open Lib

namespace ArmatureRatelimit

/-! ## Calls of one key -/

/-- A locked body of `fixed_window_check`, with the reading taken before it. -/
structure WindowCall where
  key : String
  now : ℤ

/-- A sequence of fixed window checks with one limit and one window, and a key
    that starts without an entry. -/
structure WindowRun (ν : Type) where
  maxRequests : ℕ
  window : ℕ
  window_pos : 0 < window
  start : MemoryStore ν
  calls : ℕ → WindowCall
  key : String
  fresh : start.fixedWindows.lookup key = none

namespace WindowRun

section
variable {ν : Type} (R : WindowRun ν)

def step (c : WindowCall) : MemoryStore ν → Outcome (Bool × ℕ) × MemoryStore ν :=
  MemoryStore.fixedWindowCheck c.key R.maxRequests R.window c.now

/-- The entry of the key before call `n`. -/
def entryAt (n : ℕ) : Option FixedWindowState :=
  (stateAt R.step R.start R.calls n).fixedWindows.lookup R.key

/-- The `window_start` of the key before call `n`. -/
def startAt (n : ℕ) : Option ℤ := (R.entryAt n).map fun e => e.windowStart

/-- Call `n` is a call of the key, and it is admitted. -/
def admits (n : ℕ) : Bool :=
  decide ((R.calls n).key = R.key) && isAdmitted (outputAt R.step R.start R.calls n)

/-- The calls of the key come in the order of time. -/
def InOrder : Prop :=
  ∀ i j, i ≤ j → (R.calls i).key = R.key → (R.calls j).key = R.key →
    (R.calls i).now ≤ (R.calls j).now

/-- The window that call `n` counts in: the current one if it is not over. -/
def currentAt (n : ℕ) : WindowState :=
  (((R.entryAt n).map FixedWindowState.toWindowState).getD ⟨0, (R.calls n).now⟩).roll R.window
    (R.calls n).now

end

variable {ν : Type} {R : WindowRun ν}

/-- A call of the key runs its body on the entry of the key. -/
theorem step_self (s : MemoryStore ν) {c : WindowCall} (hc : c.key = R.key) :
    (R.step c s).1 = .ok (MemoryStore.fixedWindowBody R.maxRequests R.window c.now
        (s.fixedWindows.lookup R.key)).1 ∧
      (R.step c s).2.fixedWindows.lookup R.key = some (MemoryStore.fixedWindowBody R.maxRequests
        R.window c.now (s.fixedWindows.lookup R.key)).2 := by
  rw [← hc]
  exact ⟨rfl, KeyMap.access_lookup_self _ _ _⟩

/-- What a call of the key answers and leaves. -/
theorem call_self {n : ℕ} (hn : (R.calls n).key = R.key) :
    R.admits n = decide ((R.currentAt n).count < R.maxRequests) ∧
      R.entryAt (n + 1) = some ⟨⟨if (R.currentAt n).count < R.maxRequests then
        (R.currentAt n).count + 1 else (R.currentAt n).count, (R.currentAt n).windowStart⟩,
        R.maxRequests, R.window⟩ := by
  obtain ⟨hout, hentry⟩ := step_self (stateAt R.step R.start R.calls n) hn
  have hbody : MemoryStore.fixedWindowBody R.maxRequests R.window (R.calls n).now (R.entryAt n) =
      (((R.currentAt n).increment R.maxRequests).1,
        ⟨((R.currentAt n).increment R.maxRequests).2, R.maxRequests, R.window⟩) := rfl
  change _ = Except.ok (MemoryStore.fixedWindowBody R.maxRequests R.window (R.calls n).now
    (R.entryAt n)).1 at hout
  change R.entryAt (n + 1) = some (MemoryStore.fixedWindowBody R.maxRequests R.window
    (R.calls n).now (R.entryAt n)).2 at hentry
  rw [admits, outputAt, hout, hentry, hbody, WindowState.increment]
  split_ifs with hlt <;> simp [hn, hlt, isAdmitted]

theorem call_other {n : ℕ} (hn : (R.calls n).key ≠ R.key) :
    R.entryAt (n + 1) = R.entryAt n := by
  simp only [entryAt, stateAt_succ, step, MemoryStore.fixedWindowCheck]
  rw [KeyMap.access_lookup_ne _ (Ne.symm hn)]

theorem onKey_of_admits {n : ℕ} (h : R.admits n = true) : (R.calls n).key = R.key := by
  simp only [admits, Bool.and_eq_true, decide_eq_true_eq] at h
  exact h.1

/-- A call counts in the window of the entry, which is not over, or starts one
    with its reading. -/
theorem currentAt_cases (n : ℕ) :
    (∃ e, R.entryAt n = some e ∧ (R.calls n).now < e.windowStart + R.window ∧
      R.currentAt n = e.toWindowState) ∨
    (R.currentAt n = ⟨0, (R.calls n).now⟩ ∧
      ∀ e, R.entryAt n = some e → e.windowStart + R.window ≤ (R.calls n).now) := by
  have hpos := R.window_pos
  rw [currentAt]
  cases he : R.entryAt n with
  | none =>
    refine .inr ⟨?_, fun e h => by cases h⟩
    simp only [Option.map_none, Option.getD_none, WindowState.roll, ite_self]
  | some e =>
    simp only [Option.map_some, Option.getD_some, WindowState.roll, Option.some.injEq]
    split_ifs with hover
    · refine .inr ⟨rfl, ?_⟩
      intro e' h
      subst h
      simp only [durationSince] at hover
      omega
    · refine .inl ⟨e, rfl, ?_, rfl⟩
      simp only [durationSince] at hover
      omega

/-! ## The values of window_start -/

theorem startAt_succ {n : ℕ} (hn : (R.calls n).key = R.key) :
    R.startAt (n + 1) = some (R.currentAt n).windowStart := by
  rw [startAt, (call_self hn).2]; rfl

theorem startAt_other {n : ℕ} (hn : (R.calls n).key ≠ R.key) :
    R.startAt (n + 1) = R.startAt n := by rw [startAt, call_other hn, startAt]

/-- One call keeps the value or moves it forward by the window at least. -/
theorem startAt_step {n : ℕ} {v : ℤ} (hv : R.startAt n = some v) :
    ∃ w, R.startAt (n + 1) = some w ∧ (w = v ∨ v + R.window ≤ w) := by
  by_cases hn : (R.calls n).key = R.key
  · obtain ⟨e, he, rfl⟩ := Option.map_eq_some_iff.mp hv
    refine ⟨_, startAt_succ hn, ?_⟩
    rcases R.currentAt_cases n with ⟨e', he', -, hcur⟩ | ⟨hcur, hover⟩
    · rw [he] at he'
      obtain rfl := Option.some.inj he'
      exact .inl (by rw [hcur])
    · exact .inr (by rw [hcur]; exact hover e he)
  · exact ⟨v, by rw [startAt_other hn, hv], .inl rfl⟩

/-- **Any two values of `window_start`** are equal or the window apart. -/
theorem startAt_le {i j : ℕ} (hij : i ≤ j) {v : ℤ} (hv : R.startAt i = some v) :
    ∃ w, R.startAt j = some w ∧ (w = v ∨ v + R.window ≤ w) := by
  induction j, hij using Nat.le_induction with
  | base => exact ⟨v, hv, .inl rfl⟩
  | succ j hij ih =>
    obtain ⟨w, hw, hvw⟩ := ih
    obtain ⟨x, hx, hwx⟩ := startAt_step hw
    refine ⟨x, hx, ?_⟩
    have := R.window_pos
    omega

/-- The value that call `n` leaves in `window_start`. -/
def labelAt (R : WindowRun ν) (n : ℕ) : ℤ := (R.startAt (n + 1)).getD 0

theorem startAt_labelAt {n : ℕ} (hn : (R.calls n).key = R.key) :
    R.startAt (n + 1) = some (R.labelAt n) := by rw [labelAt, startAt_succ hn]; rfl

theorem start_spaced {S : Finset ℕ} (hS : ∀ n ∈ S, R.admits n = true) :
    Spaced R.window R.labelAt S := by
  intro x hx y hy
  have hkx := startAt_labelAt (onKey_of_admits (hS x hx))
  have hky := startAt_labelAt (onKey_of_admits (hS y hy))
  rcases le_total x y with hle | hle
  · obtain ⟨w, hw, hxw⟩ := startAt_le (by omega : x + 1 ≤ y + 1) hkx
    rw [hky] at hw
    obtain rfl := Option.some.inj hw
    omega
  · obtain ⟨w, hw, hyw⟩ := startAt_le (by omega : y + 1 ≤ x + 1) hky
    rw [hkx] at hw
    obtain rfl := Option.some.inj hw
    omega

/-! ## The count of a window -/

/-- The calls before `n` that are admitted and leave the value `v`. -/
def admittedIn (R : WindowRun ν) (v : ℤ) (n : ℕ) : Finset ℕ :=
  (Finset.range n).filter fun j => R.admits j = true ∧ R.startAt (j + 1) = some v

theorem card_admittedIn_succ (v : ℤ) (n : ℕ) :
    (R.admittedIn v (n + 1)).card = (R.admittedIn v n).card +
      if R.admits n = true ∧ R.startAt (n + 1) = some v then 1 else 0 := by
  rw [admittedIn, Finset.range_add_one, Finset.filter_insert]
  split_ifs with h
  · rw [Finset.card_insert_of_notMem (by simp), admittedIn]
  · rfl

/-- A value that a call is about to start has not been taken before. -/
theorem admittedIn_fresh {v : ℤ} {n : ℕ}
    (hover : ∀ e, R.entryAt n = some e → e.windowStart + R.window ≤ v) :
    R.admittedIn v n = ∅ := by
  rw [admittedIn, Finset.filter_eq_empty_iff]
  rintro j hj ⟨-, hv⟩
  obtain ⟨w, hw, hvw⟩ := startAt_le (Nat.succ_le_of_lt (Finset.mem_range.mp hj)) hv
  obtain ⟨e, he, rfl⟩ := Option.map_eq_some_iff.mp hw
  have := hover e he
  have := R.window_pos
  omega

/-- **The count of the entry** is the number of calls admitted in its window. -/
theorem count_eq {n : ℕ} {e : FixedWindowState} (he : R.entryAt n = some e) :
    e.count = (R.admittedIn e.windowStart n).card := by
  induction n generalizing e with
  | zero => rw [entryAt, stateAt, R.fresh] at he; cases he
  | succ n ih =>
    rw [card_admittedIn_succ]
    by_cases hn : (R.calls n).key = R.key
    · have hcount : (R.currentAt n).count =
          (R.admittedIn (R.currentAt n).windowStart n).card := by
        rcases R.currentAt_cases n with ⟨e', he', -, hcur⟩ | ⟨hcur, hover⟩
        · rw [hcur]; exact ih he'
        · rw [hcur, admittedIn_fresh hover]; rfl
      rw [(call_self hn).2] at he
      obtain rfl := Option.some.inj he
      simp only [startAt_succ hn, (call_self hn).1, decide_eq_true_eq, and_true, ← hcount]
      split_ifs <;> rfl
    · have hadm : ¬ R.admits n = true := fun h => hn (onKey_of_admits h)
      rw [call_other hn] at he
      rw [if_neg fun h => hadm h.1, add_zero]
      exact ih he

/-- At most the limit is admitted while `window_start` keeps one value. -/
theorem card_admittedIn_le (v : ℤ) (n : ℕ) : (R.admittedIn v n).card ≤ R.maxRequests := by
  induction n with
  | zero => simp [admittedIn]
  | succ n ih =>
    rw [card_admittedIn_succ]
    split_ifs with h
    · obtain ⟨hadm, hv⟩ := h
      have hn := onKey_of_admits hadm
      rw [(call_self hn).1, decide_eq_true_eq] at hadm
      rw [startAt_succ hn, Option.some.injEq] at hv
      -- the count that the call found is that of its window
      rcases R.currentAt_cases n with ⟨e, he, -, hcur⟩ | ⟨hcur, hover⟩
      · rw [hcur] at hadm hv
        rw [← hv, ← count_eq he]; exact hadm
      · rw [hcur] at hadm hv
        rw [← hv, admittedIn_fresh hover]
        exact hadm
    · exact ih

theorem card_label_le {S : Finset ℕ} (hS : ∀ n ∈ S, R.admits n = true) (v : ℤ) :
    (S.filter fun n => R.labelAt n = v).card ≤ R.maxRequests := by
  have hsub : (S.filter fun n => R.labelAt n = v) ⊆ R.admittedIn v (S.sup id + 1) := by
    intro n hn
    obtain ⟨hnS, rfl⟩ := Finset.mem_filter.mp hn
    have hle : n ≤ S.sup id := Finset.le_sup (f := id) hnS
    exact Finset.mem_filter.mpr ⟨Finset.mem_range.mpr (by omega), hS n hnS,
      startAt_labelAt (onKey_of_admits (hS n hnS))⟩
  exact (Finset.card_le_card hsub).trans (R.card_admittedIn_le v _)

/-! ## Readings in order -/

/-- No window starts in the future. -/
theorem InOrder.startAt_le_now (h : R.InOrder) {n : ℕ} {v : ℤ} (hv : R.startAt n = some v)
    {j : ℕ} (hj : n ≤ j) (hkey : (R.calls j).key = R.key) : v ≤ (R.calls j).now := by
  induction n generalizing v with
  | zero => rw [startAt, entryAt, stateAt, R.fresh] at hv; cases hv
  | succ n ih =>
    by_cases hn : (R.calls n).key = R.key
    · rw [startAt_succ hn] at hv
      obtain rfl := Option.some.inj hv
      rcases R.currentAt_cases n with ⟨e, he, -, hcur⟩ | ⟨hcur, -⟩
      · rw [hcur]
        exact ih (by rw [startAt, he]; rfl) (by omega)
      · rw [hcur]
        exact h n j (by omega) hn hkey
    · rw [startAt_other hn] at hv
      exact ih hv (by omega)

/-- The window of a call of the key contains its reading. -/
theorem InOrder.now_mem (h : R.InOrder) {n : ℕ} (hn : (R.calls n).key = R.key) :
    R.labelAt n ≤ (R.calls n).now ∧ (R.calls n).now < R.labelAt n + R.window := by
  have hpos := R.window_pos
  rw [labelAt, startAt_succ hn, Option.getD_some]
  rcases R.currentAt_cases n with ⟨e, he, hlt, hcur⟩ | ⟨hcur, -⟩
  · rw [hcur]
    exact ⟨h.startAt_le_now (by rw [startAt, he]; rfl) le_rfl hn, hlt⟩
  · rw [hcur]
    simp only
    omega

/-- **The law of the fixed window**: whatever the order of the readings, the
    values of `window_start` are the window apart and at most the limit is
    admitted under each; when they come in order, at most twice the limit is
    admitted in any half-open interval as long as the window. -/
theorem fixedWindow_law (R : WindowRun ν) :
    (∀ n v w, R.startAt n = some v → R.startAt (n + 1) = some w → w ≠ v → v + R.window ≤ w) ∧
    (∀ v n, (R.admittedIn v n).card ≤ R.maxRequests) ∧
    (R.InOrder → ∀ (start : ℤ) (S : Finset ℕ), (∀ n ∈ S, R.admits n = true ∧
        start ≤ (R.calls n).now ∧ (R.calls n).now < start + R.window) →
      S.card ≤ 2 * R.maxRequests) := by
  have hpos := R.window_pos
  refine ⟨?_, R.card_admittedIn_le, ?_⟩
  · intro n v w hv hw hne
    obtain ⟨w', hw', hcase⟩ := startAt_step hv
    rw [hw] at hw'
    obtain rfl := Option.some.inj hw'
    exact hcase.resolve_left hne
  · intro hord start S hS
    have hadm : ∀ n ∈ S, R.admits n = true := fun n hn => (hS n hn).1
    refine (start_spaced hadm).card_le (by omega) (start - R.window + 1) 2 _ ?_
      (card_label_le hadm)
    intro n hn
    have hmem := hord.now_mem (onKey_of_admits (hadm n hn))
    have hrange := (hS n hn).2
    push_cast
    constructor <;> linarith

/-- Two requests in ten seconds, called every second. -/
def everySecond : WindowRun ℚ where
  maxRequests := 2
  window := 10000000000
  window_pos := by decide
  start := .new
  calls n := ⟨"client", n * 1000000000⟩
  key := "client"
  fresh := rfl

theorem everySecond_inOrder : everySecond.InOrder := fun i j hij _ _ => by
  simp only [everySecond]
  omega

theorem fixedWindow_law_everySecond :
    (everySecond.admittedIn 0 8).card ≤ 2 ∧ ({1, 10} : Finset ℕ).card ≤ 2 * 2 := by
  refine ⟨(fixedWindow_law everySecond).2.1 0 8,
    (fixedWindow_law everySecond).2.2 everySecond_inOrder 1000000000 {1, 10} fun n hn => ?_⟩
  rcases Finset.mem_insert.mp hn with rfl | hn
  · decide
  · rw [Finset.mem_singleton.mp hn]
    decide +kernel

end WindowRun

end ArmatureRatelimit
