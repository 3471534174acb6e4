/-
  `time_until_reset` of a fixed window (`algorithms/fixed_window.rs`).

  The answer is the time to the end of the window that the key is in, or a whole
  window where there is none.  Windows start in the past, so the window is over
  when that time has passed and not before (`timeUntilReset_tight`).
-/
import ArmatureRatelimit.Proof.EvictionPasses
import ArmatureRatelimit.Proof.Forecast

open Lib

namespace ArmatureRatelimit.FixedWindow

/-- The time of a call. -/
def Call.now : Call → ℤ
  | .operation e => e.now
  | .timeUntilReset _ now => now

/-- The limiter has its parameters, and no window starts after `t`. -/
structure Started (maxRequests window : ℕ) (t : ℤ) (s : FixedWindow) : Prop where
  hasLimit : s.maxRequests = maxRequests
  hasWindow : s.window = window
  past : ∀ key state, s.windows.lookup key = some state → state.windowStart ≤ t

theorem Started.mono {maxRequests window : ℕ} {t t' : ℤ} {s : FixedWindow}
    (h : Started maxRequests window t s) (ht : t ≤ t') : Started maxRequests window t' s :=
  ⟨h.hasLimit, h.hasWindow, fun key state hstate => (h.past key state hstate).trans ht⟩

/-- A check leaves a window that started when it was, or now. -/
theorem acquire_windowStart {maxRequests window : ℕ} {now : ℤ} {entry : Option WindowState}
    (h : ∀ state, entry = some state → state.windowStart ≤ now) :
    (WindowState.acquire maxRequests window now entry).2.windowStart ≤ now := by
  have hstart : (entry.getD ⟨0, now⟩).windowStart ≤ now := by
    cases entry with
    | none => exact le_rfl
    | some state => exact h state rfl
  unfold WindowState.acquire WindowState.increment WindowState.roll
  generalize entry.getD ⟨0, now⟩ = state at hstart
  split_ifs
  · exact le_rfl
  · exact le_rfl
  · exact hstart
  · exact hstart

/-- A call at `now`. -/
theorem Started.step {maxRequests window : ℕ} {s : FixedWindow} {c : Call}
    (h : Started maxRequests window c.now s) :
    Started maxRequests window c.now (step c s).2 := by
  obtain ⟨hlimit, hwindow, hpast⟩ := h
  cases c with
  | timeUntilReset key now => exact ⟨hlimit, hwindow, hpast⟩
  | operation e =>
    obtain ⟨op, now, inserted, sel⟩ := e
    cases op with
    | check key =>
      refine ⟨hlimit, hwindow, fun k state hstate => ?_⟩
      exact makeRoom_access_forall sel lastActive (P := fun x => x.windowStart ≤ now)
        (fun _ he => acquire_windowStart he) s.maxKeys key hpast hstate
    | reset key =>
      refine ⟨hlimit, hwindow, fun k state hstate => ?_⟩
      have herase : (s.windows.erase key).lookup k = some state := hstate
      rw [KeyMap.lookup_erase_eq_ite] at herase
      split_ifs at herase
      exact hpast k state herase
    | remaining key => exact ⟨hlimit, hwindow, hpast⟩

/-- Under a clock that does not run backwards no window starts in the future. -/
theorem started_run {maxRequests window : ℕ} {limiter : FixedWindow}
    (hnew : new maxRequests window = some limiter) (maxKeys : ℕ) {calls : List Call}
    (hturn : calls.Pairwise fun c c' => c.now ≤ c'.now) {t : ℤ} (ht : ∀ c ∈ calls, c.now ≤ t) :
    Started maxRequests window t (run FixedWindow.step (limiter.withMaxKeys maxKeys) calls) := by
  induction calls using List.reverseRecOn generalizing t with
  | nil =>
    unfold new at hnew
    split_ifs at hnew
    obtain rfl := Option.some.inj hnew
    exact ⟨rfl, rfl, fun key state hstate => by cases hstate⟩
  | append_singleton calls c ih =>
    obtain ⟨hbefore, -, hlast⟩ := List.pairwise_append.mp hturn
    rw [run_append, run_cons, run_nil]
    exact (ih hbefore fun c' hc' => hlast c' hc' c (by simp)).step.mono (ht c (by simp))

/-! ## The answer -/

section
variable {maxRequests window : ℕ} {t : ℤ} {s : FixedWindow}

theorem Started.timeUntilReset_bounds (h : Started maxRequests window t s) (hwindow : 0 < window)
    (key : String) : 0 < s.timeUntilReset key t ∧ s.timeUntilReset key t ≤ window := by
  unfold timeUntilReset
  rw [h.hasWindow]
  cases s.windows.lookup key with
  | none => exact ⟨hwindow, le_rfl⟩
  | some state =>
    simp only
    split_ifs <;> omega

/-- From the end of the answer on the whole allowance is free. -/
theorem Started.left_after (h : Started maxRequests window t s) (key : String) {t' : ℤ}
    (ht' : t + s.timeUntilReset key t ≤ t') :
    WindowState.left s.maxRequests s.window t' (s.windows.lookup key) = maxRequests := by
  unfold timeUntilReset at ht'
  rw [h.hasLimit, h.hasWindow] at *
  cases hkey : s.windows.lookup key with
  | none => rfl
  | some state =>
    have hpast := h.past key state hkey
    rw [hkey] at ht'
    have hover : window ≤ durationSince t' state.windowStart := by
      unfold durationSince at ht' ⊢
      simp only at ht'
      split_ifs at ht' <;> omega
    exact if_pos hover

/-- Before, the window is still the one it was. -/
theorem Started.left_before (h : Started maxRequests window t s) {key : String}
    {state : WindowState} (hkey : s.windows.lookup key = some state)
    (hopen : durationSince t state.windowStart < window) {t' : ℤ}
    (ht' : t' < t + s.timeUntilReset key t) :
    WindowState.left s.maxRequests s.window t' (s.windows.lookup key) =
      maxRequests - state.count := by
  have hpast := h.past key state hkey
  unfold timeUntilReset at ht'
  rw [h.hasLimit, h.hasWindow] at *
  rw [hkey] at ht' ⊢
  simp only [if_pos hopen] at ht'
  refine if_neg ?_
  unfold durationSince at *
  omega

end

/-- **`time_until_reset` is tight.**  In every state that a new limiter reaches
    the answer `d` at `t` is positive and at most a window; a check at `t + d` or
    later finds the whole allowance; and a key whose allowance is used up in a
    window that is not over is denied until `t + d`. -/
theorem timeUntilReset_tight {maxRequests window : ℕ} {limiter : FixedWindow}
    (hnew : new maxRequests window = some limiter) (maxKeys : ℕ) {calls : List Call}
    (hturn : calls.Pairwise fun c c' => c.now ≤ c'.now) {t : ℤ} (ht : ∀ c ∈ calls, c.now ≤ t)
    (key : String) :
    0 < (run step (limiter.withMaxKeys maxKeys) calls).timeUntilReset key t ∧
      (run step (limiter.withMaxKeys maxKeys) calls).timeUntilReset key t ≤ window ∧
      (∀ t' sel, t + (run step (limiter.withMaxKeys maxKeys) calls).timeUntilReset key t ≤ t' →
        ((run step (limiter.withMaxKeys maxKeys) calls).tryAcquire sel key t').1 =
          (true, maxRequests - 1)) ∧
      ∀ state, (run step (limiter.withMaxKeys maxKeys) calls).windows.lookup key = some state →
        durationSince t state.windowStart < window → maxRequests ≤ state.count →
        ∀ t' sel, t ≤ t' →
          t' < t + (run step (limiter.withMaxKeys maxKeys) calls).timeUntilReset key t →
          ((run step (limiter.withMaxKeys maxKeys) calls).tryAcquire sel key t').1.1 = false := by
  have hstarted := started_run hnew maxKeys hturn ht
  have hpositive : 0 < maxRequests ∧ 0 < window := by
    unfold new at hnew
    split_ifs at hnew with hasserts
    exact ⟨hasserts.1, Nat.pos_of_ne_zero fun hzero => hasserts.2 (by rw [hzero]; rfl)⟩
  generalize run step (limiter.withMaxKeys maxKeys) calls = s at hstarted ⊢
  obtain ⟨hlow, hhigh⟩ := hstarted.timeUntilReset_bounds hpositive.2 key
  refine ⟨hlow, hhigh, ?_, ?_⟩
  · intro t' sel ht'
    rw [tryAcquire_fst, hstarted.left_after key ht', answerOf, if_pos hpositive.1]
  · intro state hkey hopen hused t' sel _ ht'
    rw [tryAcquire_fst, hstarted.left_before hkey hopen ht', answerOf, if_neg (by omega)]

/-- One request a second, asked half a second after it was used. -/
theorem timeUntilReset_tight_half :
    ((run step (withMaxKeys ⟨1, 1000000000, ∅, defaultMaxKeys⟩ 1)
          [.operation ⟨.check "a", 0, 0, .sorting⟩]).tryAcquire .sorting "a" 1000000000).1 =
        (true, 0) ∧
      ((run step (withMaxKeys ⟨1, 1000000000, ∅, defaultMaxKeys⟩ 1)
          [.operation ⟨.check "a", 0, 0, .sorting⟩]).tryAcquire .sorting "a" 999999999).1.1 =
        false := by
  have htight := @timeUntilReset_tight 1 1000000000 ⟨1, 1000000000, ∅, defaultMaxKeys⟩ rfl 1
    [.operation ⟨.check "a", 0, 0, .sorting⟩] (List.pairwise_singleton _ _) 500000000
    (fun c hc => by rw [List.mem_singleton.mp hc]; decide) "a"
  exact ⟨htight.2.2.1 _ _ (by decide),
    htight.2.2.2 ⟨1, 0⟩ (by decide) (by decide) le_rfl _ _ (by decide)
      (by decide)⟩

end ArmatureRatelimit.FixedWindow
