/-
  How long a denied request has to wait under the fixed window.

  The limiter computes `retry_after` from windows aligned to the Unix epoch,
  while the memory store starts the window of a key at its first request.  The
  delay is long enough exactly when the window of the key started no later than
  the aligned window of the denial (`fixedWindow_retryAfter_iff`).
-/
import ArmatureRatelimit.MemoryRuns

open Lib

namespace ArmatureRatelimit

/-! ## The check -/

/-- The start of the epoch-aligned window that contains `nowMs`. -/
def windowStartMs (windowMs nowMs : ℕ) : ℕ := nowMs / windowMs * windowMs

theorem windowEndMs_eq (windowMs nowMs : ℕ) :
    RateLimiter.windowEndMs windowMs nowMs = windowStartMs windowMs nowMs + windowMs := by
  simp only [RateLimiter.windowEndMs, windowStartMs]; ring

theorem windowStartMs_le (windowMs nowMs : ℕ) : windowStartMs windowMs nowMs ≤ nowMs :=
  Nat.div_mul_le_self nowMs windowMs

theorem lt_windowEndMs {windowMs : ℕ} (h : 0 < windowMs) (nowMs : ℕ) :
    nowMs < windowStartMs windowMs nowMs + windowMs := by
  have hdiv := Nat.div_add_mod' nowMs windowMs
  have hmod := Nat.mod_lt nowMs h
  simp only [windowStartMs]; omega

/-- What a fixed window check returns, read off its result. -/
theorem fixedWindowResult_ok {maxRequests window : ℕ} {unix : ℤ} {res : Bool × ℕ}
    {r : RateLimitCheckResult}
    (h : RateLimiter.fixedWindowResult maxRequests window unix res = .ok r) :
    0 ≤ unix ∧ r.allowed = res.1 ∧ (res.1 = false →
      r.retryAfter = some (Duration.fromMillis (asU64
        (RateLimiter.windowEndMs (max (Duration.asMillis window) 1)
          (Duration.asMillis unix.toNat) - Duration.asMillis unix.toNat : ℕ)))) := by
  simp only [RateLimiter.fixedWindowResult, sinceEpoch] at h
  by_cases hu : 0 ≤ unix
  · simp only [hu, if_true] at h
    split_ifs at h with ha
    · obtain rfl := Except.ok.inj h
      exact ⟨hu, ha.symm, fun hf => absurd ha (by simp [hf])⟩
    · obtain rfl := Except.ok.inj h
      exact ⟨hu, (Bool.eq_false_iff.mpr ha).symm, fun _ => rfl⟩
  · simp [hu] at h

theorem fixedWindowResult_total {maxRequests window : ℕ} {unix : ℤ} (hu : 0 ≤ unix)
    (res : Bool × ℕ) : ∃ r, RateLimiter.fixedWindowResult maxRequests window unix res = .ok r ∧
      r.allowed = res.1 := by
  obtain ⟨allowed, remaining⟩ := res
  simp only [RateLimiter.fixedWindowResult, sinceEpoch, hu, if_true]
  cases allowed with
  | true => exact ⟨_, rfl, rfl⟩
  | false => exact ⟨_, rfl, rfl⟩

/-- A denied check leaves its entry: the allowance of a window that is not over
    is used up. -/
theorem fixedWindowBody_denied {maxRequests window : ℕ} (hmax : 0 < maxRequests) {now : ℤ}
    {e : Option FixedWindowState}
    (h : (MemoryStore.fixedWindowBody maxRequests window now e).1.1 = false) :
    ∃ x, e = some x ∧ durationSince now x.windowStart < window ∧ maxRequests ≤ x.count ∧
      (MemoryStore.fixedWindowBody maxRequests window now e).2.toWindowState = x.toWindowState := by
  obtain ⟨state, hbody, hcases⟩ := MemoryStore.fixedWindowBody_cases maxRequests window now e
  rw [hbody] at h ⊢
  rcases hcases with ⟨rfl, -⟩ | ⟨x, rfl, rfl, hopen⟩
  · -- a new window admits its first request
    simp [WindowState.increment, hmax] at h
  · by_cases hcount : x.count < maxRequests
    · simp [WindowState.increment, hcount] at h
    · exact ⟨x, rfl, hopen, not_lt.mp hcount, by simp [WindowState.increment, hcount]⟩

/-- With the allowance used up a check is admitted once the window is over. -/
theorem fixedWindowBody_admits_iff {maxRequests window : ℕ} (hmax : 0 < maxRequests) {now : ℤ}
    {x : FixedWindowState} (hx : maxRequests ≤ x.count) :
    (MemoryStore.fixedWindowBody maxRequests window now (some x)).1.1 = true ↔
      window ≤ durationSince now x.windowStart := by
  have hcount : ¬ x.count < maxRequests := not_lt.mpr hx
  by_cases hroll : window ≤ durationSince now x.windowStart <;>
    simp [MemoryStore.fixedWindowBody, WindowState.acquire, WindowState.roll, hroll,
      WindowState.increment, hcount, hmax]

/-! ## Waiting -/

section
variable {ν : Type} [F64 ν] (maxRequests window : ℕ) (offset : ℤ) (key : String)

/-- A check at instant `t` of a machine whose system clock is `offset` ahead. -/
def checkResult (t : ℤ) (s : MemoryStore ν) : Outcome RateLimitCheckResult × MemoryStore ν :=
  RateLimiter.check MemoryStore.backend ⟨t, .stored⟩ (t + offset) key
    (.fixedWindow maxRequests window : Algorithm ν) s

def Admitted (t : ℤ) (s : MemoryStore ν) : Prop :=
  ∃ r, (checkResult maxRequests window offset key t s).1 = .ok r ∧ r.allowed = true

/-- After the denial at `t` that returned `d`, and after anything that happens
    to other keys, every check from `t + d` on is admitted. -/
def HonestDelay (t : ℤ) (d : ℕ) (s : MemoryStore ν) : Prop :=
  ∀ others : List Event, (∀ e ∈ others, e.Spares key) → ∀ t', t + d ≤ t' →
    Admitted maxRequests window offset key t'
      (run (MemoryStore.step (.fixedWindow maxRequests window))
        (checkResult maxRequests window offset key t s).2 others)

variable {maxRequests window offset key}

theorem checkResult_eq (t : ℤ) (s : MemoryStore ν) :
    checkResult maxRequests window offset key t s =
      (RateLimiter.fixedWindowResult maxRequests window (t + offset)
        (MemoryStore.fixedWindowBody maxRequests window t (s.fixedWindows.lookup key)).1,
       { s with fixedWindows := (s.fixedWindows.access
          (MemoryStore.fixedWindowBody maxRequests window t) key).2 }) :=
  (fixedWindowView (ν := ν) maxRequests window).check_eq ⟨t, .stored⟩ (t + offset) key s

theorem admitted_iff (hmax : 0 < maxRequests) {t : ℤ} (hu : 0 ≤ t + offset) {s : MemoryStore ν}
    {x : FixedWindowState} (hx : s.fixedWindows.lookup key = some x)
    (hcount : maxRequests ≤ x.count) :
    Admitted maxRequests window offset key t s ↔ window ≤ durationSince t x.windowStart := by
  rw [← fixedWindowBody_admits_iff hmax hcount, Admitted, checkResult_eq, hx]
  obtain ⟨r, hr, hallowed⟩ := @fixedWindowResult_total maxRequests window _ hu
    (MemoryStore.fixedWindowBody maxRequests window t (some x)).1
  rw [hr, ← hallowed]
  constructor
  · rintro ⟨r', hr', ha⟩
    obtain rfl := Except.ok.inj hr'
    exact ha
  · intro ha
    exact ⟨r, rfl, ha⟩

/-- The delay is long enough for an entry exactly when it reaches the end of the
    entry's window. -/
theorem honestDelay_iff (hmax : 0 < maxRequests) (hw : 0 < window) {t : ℤ}
    (hu : 0 ≤ t + offset) {d : ℕ} {s : MemoryStore ν} {x : FixedWindowState}
    (hx : s.fixedWindows.lookup key = some x) (hcount : maxRequests ≤ x.count)
    (hkeep : (MemoryStore.fixedWindowBody maxRequests window t (some x)).2.toWindowState =
      x.toWindowState) :
    HonestDelay maxRequests window offset key t d s ↔ x.windowStart + window ≤ t + d := by
  have hafter : ∀ others : List Event, (∀ e ∈ others, e.Spares key) →
      (run (MemoryStore.step (.fixedWindow maxRequests window))
        (checkResult maxRequests window offset key t s).2 others).fixedWindows.lookup key =
      some (MemoryStore.fixedWindowBody maxRequests window t (some x)).2 := by
    intro others h
    have hframe := lookup_run_of_spares (fixedWindowView maxRequests window) h
      (checkResult maxRequests window offset key t s).2
    refine hframe.trans ?_
    rw [checkResult_eq, ← hx]
    exact KeyMap.access_lookup_self _ _ _
  have hstart : (MemoryStore.fixedWindowBody maxRequests window t (some x)).2.windowStart =
      x.windowStart := congrArg WindowState.windowStart hkeep
  have hcount' : maxRequests ≤
      (MemoryStore.fixedWindowBody maxRequests window t (some x)).2.count := by
    rw [show (MemoryStore.fixedWindowBody maxRequests window t (some x)).2.count = x.count from
      congrArg WindowState.count hkeep]
    exact hcount
  constructor
  · intro h
    have hadm := h [] (by simp) (t + d) le_rfl
    rw [admitted_iff hmax (by omega) (hafter [] (by simp)) hcount', hstart,
      le_durationSince hw] at hadm
    exact hadm
  · intro h others hothers t' ht'
    rw [admitted_iff hmax (by omega) (hafter others hothers) hcount', hstart, le_durationSince hw]
    exact h.trans ht'

end

/-! ## The exact condition -/

section
variable {ν : Type} [F64 ν] {maxRequests windowMs : ℕ} {offset t : ℤ} {key : String} {d : ℕ}

/-- **The delay of a denied fixed window check.**  After any history, the delay
    that a denial at `t` returns is long enough if and only if the key's window
    started, on the system clock, no later than the start of the epoch-aligned
    window that contains the denial, up to the part of the reading below a
    millisecond. -/
theorem fixedWindow_retryAfter_iff (hmax : 1 ≤ maxRequests) (hw : 1 ≤ windowMs)
    (hrange : windowMs < 2 ^ 63) (history : List Event) {r : RateLimitCheckResult}
    (hcheck : (checkResult maxRequests (Duration.fromMillis windowMs) offset key t
      (run (MemoryStore.step (.fixedWindow maxRequests (Duration.fromMillis windowMs)))
        (.new : MemoryStore ν) history)).1 = .ok r)
    (hdenied : r.allowed = false) (hd : r.retryAfter = some d) :
    HonestDelay maxRequests (Duration.fromMillis windowMs) offset key t d
      (run (MemoryStore.step (.fixedWindow maxRequests (Duration.fromMillis windowMs)))
        (.new : MemoryStore ν) history) ↔
    ∃ x, (run (MemoryStore.step (.fixedWindow maxRequests (Duration.fromMillis windowMs)))
        (.new : MemoryStore ν) history).fixedWindows.lookup key = some x ∧
      x.windowStart + offset ≤
        Duration.fromMillis (windowStartMs windowMs (Duration.asMillis (t + offset).toNat)) +
          (t + offset) % 1000000 := by
  obtain ⟨s, hs⟩ : ∃ s, s = run (MemoryStore.step
    (.fixedWindow maxRequests (Duration.fromMillis windowMs))) (.new : MemoryStore ν) history :=
    ⟨_, rfl⟩
  rw [← hs] at hcheck ⊢
  rw [checkResult_eq] at hcheck
  obtain ⟨hu, hallowed, hretry⟩ := fixedWindowResult_ok hcheck
  rw [hdenied] at hallowed
  obtain ⟨x, hx, -, hcount, hkeep⟩ := fixedWindowBody_denied hmax hallowed.symm
  rw [hx] at hkeep
  have hwpos : 0 < Duration.fromMillis windowMs := by simp only [Duration.fromMillis]; omega
  rw [honestDelay_iff hmax hwpos hu hx hcount hkeep]
  -- the delay, in nanoseconds
  have hms : max (Duration.asMillis (Duration.fromMillis windowMs)) 1 = windowMs := by
    rw [Duration.asMillis_fromMillis]; omega
  have hd' : (d : ℤ) = ((windowStartMs windowMs (Duration.asMillis (t + offset).toNat) + windowMs -
      Duration.asMillis (t + offset).toNat : ℕ) : ℤ) * 1000000 := by
    have hsome := hd.symm.trans (hretry hallowed.symm)
    rw [hms, windowEndMs_eq] at hsome
    have hle := windowStartMs_le windowMs (Duration.asMillis (t + offset).toNat)
    rw [asU64_of_lt (by omega)] at hsome
    rw [Option.some.inj hsome]
    simp only [Duration.fromMillis]
    push_cast; ring
  have hlt := lt_windowEndMs hw (Duration.asMillis (t + offset).toNat)
  simp only [Duration.fromMillis] at *
  simp only [Duration.asMillis] at *
  constructor
  · intro h
    refine ⟨x, hx, ?_⟩
    push_cast at *
    omega
  · rintro ⟨y, hy, h⟩
    obtain rfl := Option.some.inj (hx.symm.trans hy)
    push_cast at *
    omega

end

/-- A key whose window starts with the aligned one: a minute's limit of one,
    requests at 0 s and 1 s. -/
theorem fixedWindow_retryAfter_aligned :
    HonestDelay 1 (Duration.fromMillis 60000) 0 "client" 1000000000 59000000000
      (run (MemoryStore.step (.fixedWindow 1 (Duration.fromMillis 60000))) (.new : MemoryStore ℚ)
        [⟨⟨0, .stored⟩, 0, .check "client"⟩]) :=
  (fixedWindow_retryAfter_iff (by decide) (by decide) (by decide) _
    (show _ = Except.ok ⟨false, 0, 1, 60, some 59000000000⟩ from by decide) rfl rfl).mpr
    ⟨⟨⟨1, 0⟩, 1, Duration.fromMillis 60000⟩, by rfl, by decide⟩

/-- A key whose window starts at 30 s: the denial at 31 s asks to wait 29 s, and
    the check at 60 s is denied again. -/
theorem fixedWindow_retryAfter_short :
    ∃ s, s = run (MemoryStore.step (.fixedWindow 1 (Duration.fromMillis 60000)))
        (.new : MemoryStore ℚ) [⟨⟨30000000000, .stored⟩, 30000000000, .check "client"⟩] ∧
      (checkResult 1 (Duration.fromMillis 60000) 0 "client" 31000000000 s).1 =
        .ok ⟨false, 0, 1, 60, some 29000000000⟩ ∧
      ¬ HonestDelay 1 (Duration.fromMillis 60000) 0 "client" 31000000000 29000000000 s := by
  refine ⟨_, rfl, by decide, ?_⟩
  intro h
  obtain ⟨r, hr, hallowed⟩ := h [] (by simp) 60000000000 (by decide)
  have hagain : (Except.ok r : Outcome RateLimitCheckResult) =
      .ok ⟨false, 0, 1, 120, some 60000000000⟩ := hr.symm.trans (by decide)
  obtain rfl := Except.ok.inj hagain
  cases hallowed

end ArmatureRatelimit
