/-
  Sliding windows under concurrent callers (`stores/memory.rs`,
  `algorithms/sliding_window.rs`).

  A caller that gets the lock late leaves a log out of order, from whose front
  another one prunes.  Still no stamp is dropped before its time: what a call
  drops is older than its own window, and its reading is no later than the
  moment at which it gets the lock.  So the limit holds for every stretch of
  time that is shorter than the window by the longest such delay
  (`slidingWindow_delayed`).
-/
import ArmatureRatelimit.Proof.LogOrder
import ArmatureRatelimit.Lib.StampedLog

open Lib

namespace ArmatureRatelimit

/-! ## One log -/

/-- Pruning keeps every stamp that is not before the cutoff. -/
theorem le_pruneLog {cutoff : ℤ} {log : List ℤ} {kept : Multiset ℤ} (hle : kept ≤ log)
    (hkept : ∀ x ∈ kept, ¬ x < cutoff) : kept ≤ (pruneLog cutoff log : Multiset ℤ) := by
  have hself : kept.filter (fun x => ¬ x < cutoff) = kept := Multiset.filter_eq_self.mpr hkept
  have hdropped : ((log.takeWhile (· < cutoff) : List ℤ) : Multiset ℤ).filter
      (fun x => ¬ x < cutoff) = 0 := by
    refine Multiset.filter_eq_nil.mpr fun x hx => ?_
    have hlt := List.mem_takeWhile_imp (Multiset.mem_coe.mp hx)
    simpa using hlt
  have hlog : ((log : Multiset ℤ)).filter (fun x => ¬ x < cutoff) ≤
      (pruneLog cutoff log : Multiset ℤ) := by
    conv_lhs => rw [← List.takeWhile_append_dropWhile (p := (· < cutoff)) (l := log)]
    rw [← Multiset.coe_add, Multiset.filter_add, hdropped, zero_add]
    exact Multiset.filter_le _ _
  rw [← hself]
  exact (Multiset.filter_le_filter _ hle).trans hlog

/-- **The step of a log.**  It drops what is older than the window, and adds the
    reading if fewer than the limit are left. -/
theorem recordRequest_logStep {maxRequests limit window : ℕ} {now cutoff : ℤ}
    (hlimit : limit ≤ maxRequests) (hcutoff : cutoff + window ≤ now) (log : List ℤ) :
    LogStep maxRequests (fun x => x + window < now)
      ((recordRequest limit now (pruneLog cutoff log)).1.1 = true) now log
      (recordRequest limit now (pruneLog cutoff log)).2 := by
  refine ⟨(pruneLog cutoff log : Multiset ℤ), ?_, ?_, ?_⟩
  · intro kept hle hkept
    refine le_pruneLog hle fun x hx hlt => hkept x hx ?_
    omega
  · unfold recordRequest
    simp only
    split_ifs
    · exact Multiset.coe_le.mpr (List.sublist_append_left _ _).subperm
    · exact le_rfl
  · intro hadds
    unfold recordRequest at hadds ⊢
    simp only at hadds ⊢
    split_ifs at hadds ⊢ with hroom
    refine ⟨?_, le_rfl⟩
    rw [Multiset.coe_card]
    omega

/-! ## Interleavings -/

section
variable {κ σ : Type} (body : κ × ℤ → σ → Outcome (Bool × ℕ) × σ) (clock : ℤ) (s : σ)
  (acts : List (SampledAct κ)) (on : κ → Prop)

/-- A call of `on` gets the lock at step `n` and is admitted. -/
def AdmittedAt (n : ℕ) : Prop :=
  ∃ call, lockedAt body clock s acts n = some call ∧ on call.1 ∧
    isAdmitted (body call (interleaveAt body clock s acts n).shared).1 = true

/-- The steps of `S` are admitted calls that get the lock between `start` and
    `finish`. -/
def AdmittedBetween (start finish : ℤ) (S : Finset ℕ) : Prop :=
  ∀ n ∈ S, AdmittedAt body clock s acts on n ∧
    start ≤ (interleaveAt body clock s acts n).clock ∧
    (interleaveAt body clock s acts n).clock ≤ finish

variable {body clock s acts on} {maxRequests window delay : ℕ} (log : σ → Multiset ℤ)

/-- **The limit under delays.**  Calls of `on` take steps of a log, and the other
    calls leave it as it is. -/
theorem card_le_of_delayed
    (hon : ∀ n call, lockedAt body clock s acts n = some call → on call.1 →
      LogStep maxRequests (fun x => x + window < call.2)
        (isAdmitted (body call (interleaveAt body clock s acts n).shared).1 = true) call.2
        (log (interleaveAt body clock s acts n).shared)
        (log (body call (interleaveAt body clock s acts n).shared).2))
    (hoff : ∀ n call, lockedAt body clock s acts n = some call → ¬ on call.1 →
      log (body call (interleaveAt body clock s acts n).shared).2 =
        log (interleaveAt body clock s acts n).shared)
    (hdelay : LocksWithin body clock s acts delay on) {start finish : ℤ} {S : Finset ℕ}
    (hS : AdmittedBetween body clock s acts on start finish S)
    (hspan : finish + delay ≤ start + window) : S.card ≤ maxRequests := by
  refine card_le_of_logSteps
    (fun n x => ∃ call, lockedAt body clock s acts n = some call ∧ on call.1 ∧
      x + window < call.2)
    (AdmittedAt body clock s acts on)
    (fun n => ((lockedAt body clock s acts n).map Prod.snd).getD 0)
    (fun n => log (interleaveAt body clock s acts n).shared) ?_ (fun n hn => (hS n hn).1) ?_
  · intro n
    rw [shared_succ]
    cases hcall : lockedAt body clock s acts n with
    | none =>
      refine .idle ?_
      rintro ⟨call, hsome, -⟩
      rw [hcall] at hsome
      cases hsome
    | some call =>
      by_cases hkey : on call.1
      · obtain ⟨live, hkeeps, hle, hadds⟩ := hon n call hcall hkey
        refine ⟨live, ?_, hle, ?_⟩
        · intro kept hkept hstay
          exact hkeeps kept hkept fun x hx hlt => hstay x hx ⟨call, rfl, hkey, hlt⟩
        · rintro ⟨call', hsome, -, hadm⟩
          rw [hcall] at hsome
          obtain rfl := Option.some.inj hsome
          exact hadds hadm
      · simp only [hoff n call hcall hkey]
        refine .idle ?_
        rintro ⟨call', hsome, hkey', -⟩
        rw [hcall] at hsome
        obtain rfl := Option.some.inj hsome
        exact hkey hkey'
  · rintro m hm n hmn ⟨k, hk, hnk⟩ ⟨call, hcall, -, hdropped⟩
    -- the stamp is at most `delay` older than the lock, and no reading is newer than its lock
    obtain ⟨⟨first, hfirst, hkey, -⟩, hstart, -⟩ := hS m hm
    have hlate := hdelay m first hfirst hkey
    have hreading := reading_le_clock hcall
    have hlast := (clock_mono hnk).trans (hS k hk).2.2
    rw [hfirst, Option.map_some, Option.getD_some] at hdropped
    omega

end

/-! ## The store -/

/-- The log of a key, in any order. -/
def storedLog {ν : Type} (key : String) (s : MemoryStore ν) : Multiset ℤ :=
  ((s.slidingLogs.lookup key).getD .empty).log

section
variable {ν : Type} {key : String} {maxRequests window : ℕ}

theorem windowCheckCall_logStep {c : WindowCheck × ℤ} (hkey : c.1.key = key)
    (hlimit : c.1.maxRequests ≤ maxRequests) (hwindow : window ≤ c.1.window) (s : MemoryStore ν) :
    LogStep maxRequests (fun x => x + window < c.2) (isAdmitted (windowCheckCall c s).1 = true) c.2
      (storedLog key s) (storedLog key (windowCheckCall c s).2) := by
  subst hkey
  unfold windowCheckCall
  rcases s.slidingWindowCheck_cases c.1.key c.1.maxRequests c.1.window c.2 with
    ⟨-, heq⟩ | ⟨cutoff, hcutoff, heq⟩
  · rw [heq]
    exact .idle Bool.false_ne_true
  · obtain ⟨-, rfl⟩ := instantSub_some.mp hcutoff
    rw [heq]
    have hlog : storedLog c.1.key { s with
        slidingLogs := (s.slidingLogs.access (MemoryStore.slidingWindowBody c.1.maxRequests
          c.1.window c.2 (c.2 - c.1.window)) c.1.key).2 } =
        (recordRequest c.1.maxRequests c.2 (pruneLog (c.2 - c.1.window)
          ((s.slidingLogs.lookup c.1.key).getD .empty).log)).2 := by
      rw [storedLog, KeyMap.access_lookup_self]
      rfl
    simp only [hlog]
    exact recordRequest_logStep hlimit (by omega) _

theorem windowCheckCall_other {c : WindowCheck × ℤ} (hkey : c.1.key ≠ key) (s : MemoryStore ν) :
    storedLog key (windowCheckCall c s).2 = storedLog key s := by
  unfold windowCheckCall
  rcases s.slidingWindowCheck_cases c.1.key c.1.maxRequests c.1.window c.2 with
    ⟨-, heq⟩ | ⟨cutoff, -, heq⟩
  · rw [heq]
  · rw [heq, storedLog, KeyMap.access_lookup_ne _ (Ne.symm hkey)]
    rfl

end

/-! ## The limiter -/

section
variable {key : String}

theorem windowAcquireCall_settings (c : WindowAcquire × ℤ) (self : SlidingWindowLog) :
    (windowAcquireCall c self).2.maxRequests = self.maxRequests ∧
      (windowAcquireCall c self).2.window = self.window := by
  unfold windowAcquireCall
  rcases self.tryAcquire_cases c.1.sel c.1.key c.2 with ⟨-, heq⟩ | ⟨cutoff, -, heq⟩ <;>
    rw [heq] <;> exact ⟨rfl, rfl⟩

theorem settings_interleaveAt (clock : ℤ) (limiter : SlidingWindowLog)
    (acts : List (SampledAct WindowAcquire)) (n : ℕ) :
    (interleaveAt windowAcquireCall clock limiter acts n).shared.maxRequests =
        limiter.maxRequests ∧
      (interleaveAt windowAcquireCall clock limiter acts n).shared.window = limiter.window := by
  induction n with
  | zero => exact ⟨rfl, rfl⟩
  | succ n ih =>
    rw [shared_succ]
    cases lockedAt windowAcquireCall clock limiter acts n with
    | none => exact ih
    | some call =>
      obtain ⟨hmax, hwindow⟩ := windowAcquireCall_settings call
        (interleaveAt windowAcquireCall clock limiter acts n).shared
      exact ⟨hmax.trans ih.1, hwindow.trans ih.2⟩

/-- The log of a key in the limiter. -/
def keptLog (key : String) (self : SlidingWindowLog) : Multiset ℤ :=
  ((self.logs.lookup key).getD [] : List ℤ)

theorem windowAcquireCall_logStep {c : WindowAcquire × ℤ} (hkey : c.1.key = key)
    (self : SlidingWindowLog) :
    LogStep self.maxRequests (fun x => x + self.window < c.2)
      (isAdmitted (windowAcquireCall c self).1 = true) c.2 (keptLog key self)
      (keptLog key (windowAcquireCall c self).2) := by
  subst hkey
  unfold windowAcquireCall
  rcases self.tryAcquire_cases c.1.sel c.1.key c.2 with ⟨-, heq⟩ | ⟨cutoff, hcutoff, heq⟩
  · rw [heq]
    exact .idle Bool.false_ne_true
  · obtain ⟨-, rfl⟩ := instantSub_some.mp hcutoff
    obtain ⟨hout, hlook⟩ := makeRoom_access_self c.1.sel SlidingWindowLog.lastActive self.maxKeys
      (SlidingWindowLog.acquire self.maxRequests c.2 (c.2 - self.window)) c.1.key self.logs
    rw [heq]
    simp only [hout, keptLog, hlook, Option.getD_some]
    exact recordRequest_logStep le_rfl (by omega) _

/-- A call of another key leaves the log, unless it evicts it. -/
theorem windowAcquireCall_other {c : WindowAcquire × ℤ} (hkey : c.1.key ≠ key)
    {self : SlidingWindowLog} (hkept : self.logs.lookup key ≠ none →
      (windowAcquireCall c self).2.logs.lookup key ≠ none) :
    keptLog key (windowAcquireCall c self).2 = keptLog key self := by
  unfold windowAcquireCall at hkept ⊢
  rcases self.tryAcquire_cases c.1.sel c.1.key c.2 with ⟨-, heq⟩ | ⟨cutoff, -, heq⟩
  · rw [heq]
  · rw [heq] at hkept ⊢
    rcases makeRoom_access_ne c.1.sel SlidingWindowLog.lastActive self.maxKeys
      (SlidingWindowLog.acquire self.maxRequests c.2 cutoff) (Ne.symm hkey) self.logs with
      hsame | hnone
    · simp only [keptLog, hsame]
    · have hbefore : self.logs.lookup key = none := by
        by_contra hne
        exact hkept hne hnone
      simp only [keptLog, hnone, hbefore]

end

/-! ## The limit -/

/-- **The sliding window under concurrent callers.**  If the calls of a key get
    the lock at most `delay` after they have read the clock, then the admitted
    calls that get it within any stretch of time shorter than the window by
    `delay` keep to the limit, whatever the order of the calls: in the store,
    from any content and with any calls of other keys, and in the limiter as
    long as it does not evict the log of the key. -/
theorem slidingWindow_delayed {ν : Type} (key : String) (delay : ℕ) (clock start finish : ℤ)
    (S : Finset ℕ) :
    (∀ (s : MemoryStore ν) (acts : List (SampledAct WindowCheck)) (maxRequests window : ℕ),
      (∀ n call, lockedAt windowCheckCall clock s acts n = some call → call.1.key = key →
        call.1.maxRequests ≤ maxRequests ∧ window ≤ call.1.window) →
      LocksWithin windowCheckCall clock s acts delay (fun c => c.key = key) →
      AdmittedBetween windowCheckCall clock s acts (fun c => c.key = key) start finish S →
      finish + delay ≤ start + window → S.card ≤ maxRequests) ∧
    ∀ (limiter : SlidingWindowLog) (acts : List (SampledAct WindowAcquire)),
      (∀ n, (interleaveAt windowAcquireCall clock limiter acts n).shared.logs.lookup key ≠ none →
        (interleaveAt windowAcquireCall clock limiter acts (n + 1)).shared.logs.lookup key ≠
          none) →
      LocksWithin windowAcquireCall clock limiter acts delay (fun c => c.key = key) →
      AdmittedBetween windowAcquireCall clock limiter acts (fun c => c.key = key) start finish S →
      finish + delay ≤ start + limiter.window → S.card ≤ limiter.maxRequests := by
  constructor
  · intro s acts maxRequests window hsettings hdelay hS hspan
    refine card_le_of_delayed (storedLog key) ?_ ?_ hdelay hS hspan
    · intro n call hcall hkey
      obtain ⟨hlimit, hwindow⟩ := hsettings n call hcall hkey
      exact windowCheckCall_logStep hkey hlimit hwindow _
    · intro n call _ hkey
      exact windowCheckCall_other hkey _
  · intro limiter acts hkept hdelay hS hspan
    refine card_le_of_delayed (keptLog key) ?_ ?_ hdelay hS hspan
    · intro n call _ hkey
      obtain ⟨hmax, hwindow⟩ := settings_interleaveAt clock limiter acts n
      rw [← hmax, ← hwindow]
      exact windowAcquireCall_logStep hkey _
    · intro n call hcall hkey
      refine windowAcquireCall_other hkey fun hbefore => ?_
      have hafter := hkept n hbefore
      rw [shared_succ, hcall] at hafter
      exact hafter

/-- Two requests of one client in ten seconds; the first to read the clock gets
    the lock a second late, and after the other one. -/
theorem slidingWindow_delayed_overtaken : ({3, 4} : Finset ℕ).card ≤ 2 := by
  have hcalls : ∀ n < 5, ∀ call ∈ lockedAt windowCheckCall 0 (.new : MemoryStore ℚ)
      (overtaken ⟨"client", 2, 10000000000⟩) n,
        (call.1.maxRequests ≤ 2 ∧ 10000000000 ≤ call.1.window) ∧
        (interleaveAt windowCheckCall 0 (.new : MemoryStore ℚ)
          (overtaken ⟨"client", 2, 10000000000⟩) n).clock ≤ call.2 + 1000000000 := by
    decide
  refine (slidingWindow_delayed "client" 1000000000 0 1000000000 1000000000 {3, 4}).1
    (.new : MemoryStore ℚ) (overtaken ⟨"client", 2, 10000000000⟩) 2 10000000000 ?_ ?_ ?_ ?_
  · intro n call hcall _
    exact (hcalls n (lt_of_lockedAt hcall) call hcall).1
  · intro n call hcall _
    exact (hcalls n (lt_of_lockedAt hcall) call hcall).2
  · intro n hn
    rcases Finset.mem_insert.mp hn with rfl | hn
    · exact ⟨⟨(⟨"client", 2, 10000000000⟩, 1000000000), rfl, rfl, rfl⟩, by decide, by decide⟩
    · obtain rfl := Finset.mem_singleton.mp hn
      exact ⟨⟨(⟨"client", 2, 10000000000⟩, 0), rfl, rfl, rfl⟩, by decide, by decide⟩
  · norm_num

end ArmatureRatelimit
