/-
  The standalone algorithms admit as much as their limits let anyone admit
  (`algorithms/sliding_window.rs`, `algorithms/token_bucket.rs`).

  A choice of calls of a key keeps to a window or to a rate if the limiter could
  promise it to the service behind it.  What the limiter admits is such a choice,
  and in every prefix of the calls it has at least as many calls as any other
  (`slidingWindowLog_maximal`, `tokenBucket_maximal`), also one that knows the
  calls that are still to come.
-/
import ArmatureRatelimit.Proof.SlidingWindowLaw
import ArmatureRatelimit.Proof.TokenBucketLaw
import ArmatureRatelimit.Lib.Greedy

open Lib

namespace ArmatureRatelimit

/-! ## The sliding window log -/

section
variable (s₀ : SlidingWindowLog) (calls : ℕ → SlidingWindowLog.Call) (key : String)

/-- The chosen calls are calls of the key, and no closed interval as long as the
    window holds more of them than the limit. -/
structure KeepsWindow (chosen : ℕ → Bool) : Prop where
  onKey : ∀ n, chosen n = true → (calls n).key = key
  card_le : ∀ (start : ℤ) (S : Finset ℕ), (∀ n ∈ S, chosen n = true ∧
    start ≤ (calls n).now ∧ (calls n).now ≤ start + s₀.window) → S.card ≤ s₀.maxRequests

end

section
variable {s₀ : SlidingWindowLog} {calls : ℕ → SlidingWindowLog.Call} {key : String}

theorem LogRun.keepsWindow (h : LogRun s₀ calls key) :
    KeepsWindow s₀ calls key (logAdmits s₀ calls key) where
  onKey _ := onKey_of_logAdmits
  card_le := h.card_le

/-- A refused call ends a window that is full: no choice has more calls there. -/
theorem LogRun.full_of_refused (h : LogRun s₀ calls key) {other : ℕ → Bool}
    (ho : KeepsWindow s₀ calls key other) {n : ℕ} (hn : other n = true)
    (hrefused : logAdmits s₀ calls key n = false) :
    ∃ j ≤ n, chosenIn other j (n + 1) ≤ chosenIn (logAdmits s₀ calls key) j n := by
  have hkey := ho.onKey n hn
  -- the first call of the key that lies in the window of call `n`
  have hex : ∃ m, (calls m).key = key ∧ (calls n).now - s₀.window ≤ (calls m).now :=
    ⟨n, hkey, by omega⟩
  classical
  obtain ⟨hjkey, hjnow⟩ := Nat.find_spec hex
  have hfirst : ∀ m, (calls m).key = key → (calls n).now - s₀.window ≤ (calls m).now →
      Nat.find hex ≤ m := fun m hm hnow => Nat.find_min' hex ⟨hm, hnow⟩
  have hjn : Nat.find hex ≤ n := hfirst n hkey (by omega)
  refine ⟨Nat.find hex, hjn, ?_⟩
  have hfull : s₀.maxRequests ≤ (inWindow s₀ calls key n).card := by
    have hnot := (h.logAdmits_iff hkey).not.mp (by rw [hrefused]; exact Bool.false_ne_true)
    rw [h.length_liveAt hkey] at hnot
    omega
  have hother : chosenIn other (Nat.find hex) (n + 1) ≤ s₀.maxRequests := by
    refine ho.card_le ((calls n).now - s₀.window) _ ?_
    intro m hm
    obtain ⟨hmem, hmo⟩ := Finset.mem_filter.mp hm
    obtain ⟨hlo, hhi⟩ := Finset.mem_Ico.mp hmem
    have hmkey := ho.onKey m hmo
    have hafter := h.inOrder _ m hlo hjkey hmkey
    have hbefore := h.inOrder m n (by omega) hmkey hkey
    exact ⟨hmo, by omega, by omega⟩
  have hadmitted : (inWindow s₀ calls key n).card ≤
      chosenIn (logAdmits s₀ calls key) (Nat.find hex) n := by
    refine Finset.card_le_card ?_
    intro m hm
    simp only [inWindow, Finset.mem_filter, Finset.mem_range] at hm
    obtain ⟨hmn, hadm, hlo, -⟩ := hm
    have hjm := hfirst m (onKey_of_logAdmits hadm) hlo
    exact Finset.mem_filter.mpr ⟨Finset.mem_Ico.mpr ⟨hjm, hmn⟩, hadm⟩
  omega

/-- **The sliding window log is maximal.**  What it admits keeps to the limit in
    every closed window, and no other choice that does has more calls in any
    prefix. -/
theorem slidingWindowLog_maximal (h : LogRun s₀ calls key) :
    KeepsWindow s₀ calls key (logAdmits s₀ calls key) ∧
      ∀ other, KeepsWindow s₀ calls key other → Dominates (logAdmits s₀ calls key) other :=
  ⟨h.keepsWindow, fun _ ho => dominates_of_refusals fun _ => h.full_of_refused ho⟩

/-- Two requests in ten seconds, of a client that calls every three: a limiter
    that serves the third call instead of the second is not ahead at any time. -/
theorem slidingWindowLog_maximal_everyThree :
    Dominates (logAdmits twoInTen everyThree "client") (fun n => n == 0 || n == 2) := by
  refine (slidingWindowLog_maximal everyThree_run).2 _ ⟨fun _ _ => rfl, fun start S hS => ?_⟩
  have hsub : S ⊆ {0, 2} := by
    intro n hn
    have hchosen := (hS n hn).1
    simpa using hchosen
  exact Finset.card_le_card hsub

end

/-! ## The token bucket -/

section
variable (s₀ : TokenBucket ℚ) (calls : ℕ → TokenBucket.Call) (key : String)

/-- The chosen calls are calls of the key, and any span of time holds at most the
    capacity plus what is refilled in it. -/
structure KeepsRate (chosen : ℕ → Bool) : Prop where
  onKey : ∀ n, chosen n = true → (calls n).key = key
  card_le : ∀ (start : ℤ) (duration : ℕ) (S : Finset ℕ), (∀ n ∈ S, chosen n = true ∧
    start ≤ (calls n).now ∧ (calls n).now ≤ start + duration) →
    (S.card : ℚ) ≤ s₀.capacity + s₀.refillRate * Duration.secs duration

end

section
variable {s₀ : TokenBucket ℚ} {calls : ℕ → TokenBucket.Call} {key : String}

theorem BucketRun.keepsRate (h : BucketRun s₀ calls key) (hr : 0 ≤ s₀.refillRate) :
    KeepsRate s₀ calls key (bucketAdmits s₀ calls key) where
  onKey _ := onKey_of_admits
  card_le := h.card_le hr

/-- A refused call ends a span whose tokens are spent. -/
theorem BucketRun.spent_of_refused (h : BucketRun s₀ calls key) (hr : 0 ≤ s₀.refillRate)
    {other : ℕ → Bool} (ho : KeepsRate s₀ calls key other) {n : ℕ} (hn : other n = true)
    (hrefused : bucketAdmits s₀ calls key n = false) :
    ∃ j ≤ n, chosenIn other j (n + 1) ≤ chosenIn (bucketAdmits s₀ calls key) j n := by
  have hkey := ho.onKey n hn
  have hnot := (h.admits_iff hr hkey).not.mp (by rw [hrefused]; exact Bool.false_ne_true)
  push Not at hnot
  obtain ⟨j, hjn, hjkey, hspent⟩ := hnot
  have horder := h.inOrder j n hjn hjkey hkey
  refine ⟨j, hjn, ?_⟩
  have hother : (chosenIn other j (n + 1) : ℚ) ≤
      s₀.capacity + s₀.refillRate * Duration.secs (durationSince (calls n).now (calls j).now) := by
    refine ho.card_le (calls j).now _ _ ?_
    intro m hm
    obtain ⟨hmem, hmo⟩ := Finset.mem_filter.mp hm
    obtain ⟨hlo, hhi⟩ := Finset.mem_Ico.mp hmem
    have hmkey := ho.onKey m hmo
    have hafter := h.inOrder j m hlo hjkey hmkey
    have hbefore := h.inOrder m n (by omega) hmkey hkey
    have hspan : ((durationSince (calls n).now (calls j).now : ℕ) : ℤ) =
        (calls n).now - (calls j).now := Int.toNat_of_nonneg (by omega)
    exact ⟨hmo, hafter, by omega⟩
  rw [secs_durationSince horder] at hother
  have hlt : (chosenIn other j (n + 1) : ℚ) < chosenIn (bucketAdmits s₀ calls key) j n + 1 :=
    hother.trans_lt hspent
  have hlt' : chosenIn other j (n + 1) < chosenIn (bucketAdmits s₀ calls key) j n + 1 := by
    exact_mod_cast hlt
  omega

/-- **The token bucket is maximal.**  What it admits keeps to the capacity and
    the rate in every span of time, and no other choice that does has more calls
    in any prefix. -/
theorem tokenBucket_maximal (hr : 0 < s₀.refillRate) (h : BucketRun s₀ calls key) :
    KeepsRate s₀ calls key (bucketAdmits s₀ calls key) ∧
      ∀ other, KeepsRate s₀ calls key other → Dominates (bucketAdmits s₀ calls key) other :=
  ⟨h.keepsRate hr.le, fun _ ho => dominates_of_refusals fun _ => h.spent_of_refused hr.le ho⟩

/-- Five tokens, one a second, of a client that calls once a second: a limiter
    that serves every call up to the fifth only is not ahead at any time. -/
theorem tokenBucket_maximal_oncePerSecond :
    Dominates (bucketAdmits fiveTokens oncePerSecond "client") (fun n => decide (n < 5)) := by
  refine (tokenBucket_maximal one_pos oncePerSecond_run).2 _
    ⟨fun _ _ => rfl, fun start duration S hS => ?_⟩
  have hsub : S ⊆ Finset.range 5 := by
    intro n hn
    have hchosen := (hS n hn).1
    simpa using hchosen
  have hcard : (S.card : ℚ) ≤ 5 := by exact_mod_cast Finset.card_le_card hsub
  have hrefill := Duration.secs_nonneg duration
  simp only [fiveTokens, Nat.cast_ofNat, one_mul]
  linarith

end

end ArmatureRatelimit
