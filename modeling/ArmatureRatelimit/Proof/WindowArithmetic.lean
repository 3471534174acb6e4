/-
  The arithmetic on windows of `check_sliding_window` and `check_fixed_window`
  over the memory store, for windows of any length.

  The sliding window subtracts its length from an `Instant` and adds its seconds
  to a `u64`; the fixed window computes in whole milliseconds, of `u128`, and
  casts to `u64`.  `windowArithmetic_exact_iff`: which windows stay in range.
-/
import ArmatureRatelimit.Config
import ArmatureRatelimit.MemoryRuns

open Lib

namespace ArmatureRatelimit

/-! ## Exact results -/

/-- The milliseconds of a window, of which there is at least one. -/
def lengthMs (window : ℕ) : ℕ := max (Duration.asMillis window) 1

/-- The end of an epoch-aligned window: the first multiple of its length after
    `now`. -/
structure IsWindowEnd (length now endAt : ℕ) : Prop where
  aligned : length ∣ endAt
  after : now < endAt
  within : endAt ≤ now + length

/-- The reset time of a sliding window, without overflow. -/
structure SlidingExact (window : ℕ) (unix : ℤ) (result : RateLimitCheckResult) : Prop where
  resetAt : result.resetAt = Duration.asSecs unix.toNat + Duration.asSecs window
  fits : result.resetAt ≤ u64Max

/-- The reset time and the delay of a fixed window, without truncation: the second
    in which the epoch-aligned window ends, and the time until then. -/
def FixedExact (window : ℕ) (unix : ℤ) (result : RateLimitCheckResult) : Prop :=
  ∃ endMs, IsWindowEnd (lengthMs window) (Duration.asMillis unix.toNat) endMs ∧
    result.resetAt = endMs / 1000 ∧
    (result.allowed = false → result.retryAfter =
      some (Duration.fromMillis (endMs - Duration.asMillis unix.toNat)))

/-! ## Window ends -/

theorem windowEndMs_add_mod (length now : ℕ) :
    RateLimiter.windowEndMs length now + now % length = now + length := by
  have hsplit := Nat.div_add_mod' now length
  have hend : RateLimiter.windowEndMs length now = now / length * length + length :=
    Nat.succ_mul _ _
  omega

theorem windowEndMs_isWindowEnd {length : ℕ} (hlength : 0 < length) (now : ℕ) :
    IsWindowEnd length now (RateLimiter.windowEndMs length now) := by
  have hend := windowEndMs_add_mod length now
  have hmod := Nat.mod_lt now hlength
  exact ⟨Dvd.intro_left _ rfl, by omega, by omega⟩

/-- What is left of the window. -/
theorem windowEndMs_sub {length : ℕ} (hlength : 0 < length) (now : ℕ) :
    RateLimiter.windowEndMs length now - now = length - now % length := by
  have hend := windowEndMs_add_mod length now
  have hmod := Nat.mod_lt now hlength
  omega

theorem IsWindowEnd.unique {length now endAt endAt' : ℕ} (h : IsWindowEnd length now endAt)
    (h' : IsWindowEnd length now endAt') : endAt = endAt' := by
  obtain ⟨⟨k, rfl⟩, hafter, hwithin⟩ := h
  obtain ⟨⟨k', rfl⟩, hafter', hwithin'⟩ := h'
  rcases lt_trichotomy k k' with hlt | rfl | hlt
  · have hstep := Nat.mul_le_mul_left length hlt
    rw [Nat.mul_succ] at hstep
    omega
  · rfl
  · have hstep := Nat.mul_le_mul_left length hlt
    rw [Nat.mul_succ] at hstep
    omega

/-- A cast to `u64` that loses nothing. -/
theorem asU64_eq_iff {n : ℕ} : asU64 n = n ↔ n < 2 ^ 64 := by
  simp only [asU64]
  omega

/-- The end of a window is a `u64` of seconds, for windows and clock readings that
    their types can hold. -/
theorem windowEndMs_lt {window now : ℕ} (hwindow : window ≤ Duration.max)
    (hnow : now < 2 ^ 63 * 1000) :
    RateLimiter.windowEndMs (lengthMs window) now < 2 ^ 64 * 1000 := by
  have hlength : lengthMs window < 2 ^ 64 * 1000 := by
    simp only [lengthMs, Duration.asMillis]
    simp only [Duration.max] at hwindow
    omega
  have hend := windowEndMs_add_mod (lengthMs window) now
  rcases lt_or_ge now (lengthMs window) with hlt | hge
  · rw [Nat.mod_eq_of_lt hlt] at hend
    omega
  · omega

/-! ## The checks -/

theorem slidingWindowResult_exact_iff (maxRequests window : ℕ) (unix : ℤ) (answer : Bool × ℕ) :
    (∃ result, RateLimiter.slidingWindowResult maxRequests window unix answer = .ok result ∧
      SlidingExact window unix result) ↔
    0 ≤ unix ∧ Duration.asSecs unix.toNat + Duration.asSecs window ≤ u64Max := by
  by_cases hunix : 0 ≤ unix
  · have hclock : sinceEpoch unix = some unix.toNat := if_pos hunix
    simp only [RateLimiter.slidingWindowResult, hclock, hunix, true_and]
    by_cases hover : u64Max < Duration.asSecs unix.toNat + Duration.asSecs window
    · rw [if_pos hover]
      refine iff_of_false ?_ hover.not_ge
      rintro ⟨result, hresult, -⟩
      cases hresult
    · rw [if_neg hover]
      refine iff_of_true ?_ (not_lt.mp hover)
      cases answer.1 <;> exact ⟨_, rfl, rfl, not_lt.mp hover⟩
  · have hclock : sinceEpoch unix = none := if_neg hunix
    simp [RateLimiter.slidingWindowResult, hclock, hunix]

/-- The reset time and the delay lose nothing to their casts. -/
theorem casts_exact_iff {length now endMs : ℕ} (hend : IsWindowEnd length now endMs)
    (allowed : Bool) :
    (∃ end', IsWindowEnd length now end' ∧ asU64 (endMs / 1000 : ℕ) = end' / 1000 ∧
      (allowed = false →
        Duration.fromMillis (asU64 (endMs - now : ℕ)) = Duration.fromMillis (end' - now))) ↔
    (allowed = false → endMs - now < 2 ^ 64) ∧ endMs < 2 ^ 64 * 1000 := by
  constructor
  · rintro ⟨end', hend', hreset, hretry⟩
    obtain rfl := hend'.unique hend
    refine ⟨fun hdenied => ?_, by have := asU64_eq_iff.mp hreset; omega⟩
    have hdelay := hretry hdenied
    simp only [Duration.fromMillis] at hdelay
    exact asU64_eq_iff.mp (by omega)
  · rintro ⟨hdelay, hreset⟩
    refine ⟨endMs, hend, asU64_eq_iff.mpr (by omega), fun hdenied => ?_⟩
    rw [asU64_eq_iff.mpr (hdelay hdenied)]

/-- The result of a fixed window check, in terms of the reading. -/
theorem fixedWindowResult_exact_iff (maxRequests window : ℕ) (unix : ℤ) (answer : Bool × ℕ) :
    (∃ result, RateLimiter.fixedWindowResult maxRequests window unix answer = .ok result ∧
      FixedExact window unix result) ↔
    0 ≤ unix ∧
      (answer.1 = false →
        lengthMs window - Duration.asMillis unix.toNat % lengthMs window < 2 ^ 64) ∧
      (Duration.asMillis unix.toNat / lengthMs window + 1) * lengthMs window < 2 ^ 64 * 1000 := by
  have hlength : 0 < lengthMs window := by unfold lengthMs; omega
  by_cases hunix : 0 ≤ unix
  · have hclock : sinceEpoch unix = some unix.toNat := if_pos hunix
    have hend := windowEndMs_isWindowEnd hlength (Duration.asMillis unix.toNat)
    have hcasts := casts_exact_iff hend answer.1
    rw [windowEndMs_sub hlength] at hcasts
    refine Iff.trans ?_ (hcasts.trans (and_iff_right hunix).symm)
    obtain ⟨allowed, remaining⟩ := answer
    simp only [RateLimiter.fixedWindowResult, hclock]
    cases allowed with
    | true =>
      constructor
      · rintro ⟨result, hresult, end', hend', hreset, -⟩
        obtain rfl := Except.ok.inj hresult
        exact ⟨end', hend', hreset, fun h => by cases h⟩
      · rintro ⟨end', hend', hreset, -⟩
        exact ⟨_, rfl, end', hend', hreset, fun h => by cases h⟩
    | false =>
      constructor
      · rintro ⟨result, hresult, end', hend', hreset, hretry⟩
        obtain rfl := Except.ok.inj hresult
        refine ⟨end', hend', hreset, fun _ => ?_⟩
        rw [← windowEndMs_sub hlength]
        exact Option.some.inj (hretry rfl)
      · rintro ⟨end', hend', hreset, hretry⟩
        refine ⟨_, rfl, end', hend', hreset, fun _ => ?_⟩
        rw [← windowEndMs_sub hlength] at hretry
        exact congrArg some (hretry rfl)
  · have hclock : sinceEpoch unix = none := if_neg hunix
    simp [RateLimiter.fixedWindowResult, hclock, hunix]

/-! ## The checks over the memory store -/

section
variable {ν : Type} [F64 ν] {maxRequests window : ℕ}

theorem slidingWindow_exact_iff (env : MemoryEnv) (unix : ℤ) (key : String) (s : MemoryStore ν) :
    (∃ result, (RateLimiter.check MemoryStore.backend env unix key
        (.slidingWindowLog maxRequests window) s).1 = .ok result ∧
      SlidingExact window unix result) ↔
    0 ≤ unix ∧ (window : ℤ) ≤ env.now - instantMin ∧
      Duration.asSecs unix.toNat + Duration.asSecs window ≤ u64Max := by
  rw [(slidingWindowView maxRequests window).check_eq]
  simp only [slidingWindowView]
  by_cases hcutoff : instantMin ≤ env.now - window
  · have hsub : instantSub env.now window = some (env.now - window) := if_pos hcutoff
    have hinput : (window : ℤ) ≤ env.now - instantMin := by omega
    simp only [hsub, Option.map_some, hinput, true_and]
    exact slidingWindowResult_exact_iff maxRequests window unix _
  · have hsub : instantSub env.now window = none := if_neg hcutoff
    simp only [hsub, Option.map_none]
    refine iff_of_false ?_ (by rintro ⟨-, hinput, -⟩; omega)
    rintro ⟨result, hresult, -⟩
    cases hresult

/-- A store in which the window of a key has started and is used up. -/
def usedUp (maxRequests window : ℕ) (now : ℤ) (key : String) : MemoryStore ν :=
  { (.new : MemoryStore ν) with
    fixedWindows := (∅ : KeyMap String FixedWindowState).insert key
      ⟨⟨maxRequests, now⟩, maxRequests, window⟩ }

omit [F64 ν] in
theorem usedUp_denied (hwindow : 0 < window) (now : ℤ) (key : String) :
    (MemoryStore.fixedWindowBody maxRequests window now
      ((usedUp maxRequests window now key : MemoryStore ν).fixedWindows.lookup key)).1.1 =
        false := by
  simp only [usedUp, AList.lookup_insert]
  simp [MemoryStore.fixedWindowBody, WindowState.acquire, WindowState.roll, WindowState.increment,
    hwindow.ne']

/-- **The arithmetic on windows.**  Sliding windows are exact up to the time since
    the earliest instant, and while the reset time is a `u64`; fixed windows
    while what is left of them is a `u64` of milliseconds, and their end one of
    seconds. -/
theorem windowArithmetic_exact_iff (maxRequests : ℕ) {window : ℕ} (hwindow : 0 < window)
    (env : MemoryEnv) (unix : ℤ) (key : String) :
    ((∀ s : MemoryStore ν, ∃ result, (RateLimiter.check MemoryStore.backend env unix key
          (.slidingWindowLog maxRequests window) s).1 = .ok result ∧
        SlidingExact window unix result) ↔
      0 ≤ unix ∧ (window : ℤ) ≤ env.now - instantMin ∧
        Duration.asSecs unix.toNat + Duration.asSecs window ≤ u64Max) ∧
    ((∀ s : MemoryStore ν, ∃ result, (RateLimiter.check MemoryStore.backend env unix key
          (.fixedWindow maxRequests window) s).1 = .ok result ∧
        FixedExact window unix result) ↔
      0 ≤ unix ∧ lengthMs window - Duration.asMillis unix.toNat % lengthMs window < 2 ^ 64 ∧
        (Duration.asMillis unix.toNat / lengthMs window + 1) * lengthMs window <
          2 ^ 64 * 1000) := by
  refine ⟨⟨fun h => ?_, fun h s => ?_⟩, ⟨fun h => ?_, fun h s => ?_⟩⟩
  · exact (slidingWindow_exact_iff env unix key .new).mp (h .new)
  · exact (slidingWindow_exact_iff env unix key s).mpr h
  · have hdenied : (MemoryStore.fixedWindowBody maxRequests window env.now
        ((usedUp maxRequests window env.now key : MemoryStore ν).fixedWindows.lookup key)).1.1 =
          false := usedUp_denied hwindow env.now key
    obtain ⟨hunix, hdelay, hreset⟩ := (fixedWindowResult_exact_iff maxRequests window unix _).mp
      (h (usedUp maxRequests window env.now key))
    exact ⟨hunix, hdelay hdenied, hreset⟩
  · exact (fixedWindowResult_exact_iff maxRequests window unix _).mpr ⟨h.1, fun _ => h.2.1, h.2.2⟩

end

/-- Windows of a minute. -/
theorem windowArithmetic_exact_minute :
    (∀ s : MemoryStore ℚ, ∃ result, (RateLimiter.check MemoryStore.backend ⟨0, .stored⟩
        1700000000500000000 "client" (.slidingWindowLog 1 (Duration.fromSecs 60)) s).1 =
          .ok result ∧ SlidingExact (Duration.fromSecs 60) 1700000000500000000 result) ∧
    (∀ s : MemoryStore ℚ, ∃ result, (RateLimiter.check MemoryStore.backend ⟨0, .stored⟩
        1700000000500000000 "client" (.fixedWindow 1 (Duration.fromSecs 60)) s).1 =
          .ok result ∧ FixedExact (Duration.fromSecs 60) 1700000000500000000 result) := by
  have hminute : 0 < Duration.fromSecs 60 := by decide
  have hexact := windowArithmetic_exact_iff (ν := ℚ) 1 hminute ⟨0, .stored⟩ 1700000000500000000
    "client"
  exact ⟨hexact.1.mpr (by decide), hexact.2.mpr (by decide)⟩

/-- Two checks under a fixed window that never ends. -/
def secondDenied : Outcome RateLimitCheckResult :=
  (RateLimiter.check MemoryStore.backend ⟨0, .stored⟩ 1700000000000000000 "client"
    (.fixedWindow 1 Duration.max) (RateLimiter.check MemoryStore.backend ⟨0, .stored⟩
      1700000000000000000 "client" (.fixedWindow 1 Duration.max)
      (.new : MemoryStore ℚ)).2).1

/-- The delay is what is left of the window modulo `2 ^ 64`. -/
theorem secondDenied_eq : secondDenied = .ok (.deny 1 u64Max (Duration.fromMillis
    ((18446744073709551615999 - 1700000000000) % 18446744073709551616))) := by
  decide

/-- Under a window that never ends, a sliding window check panics, and the delay
    of a denied fixed window check is truncated. -/
theorem windowArithmetic_overflows :
    (RateLimiter.check MemoryStore.backend ⟨0, .stored⟩ 1700000000000000000 "client"
      (.slidingWindowLog 1 Duration.max) (.new : MemoryStore ℚ)).1 = .error .panic ∧
    ∃ result, secondDenied = .ok result ∧
      ¬ FixedExact Duration.max 1700000000000000000 result := by
  refine ⟨by decide, _, secondDenied_eq, ?_⟩
  rintro ⟨endMs, hend, -, hretry⟩
  have hlength : lengthMs Duration.max = 18446744073709551615999 := by decide
  have hnow : Duration.asMillis (1700000000000000000 : ℤ).toNat = 1700000000000 := by decide
  have hdelay := Option.some.inj (hretry rfl)
  rw [hlength, hnow] at hend
  rw [hnow] at hdelay
  have hthis : IsWindowEnd 18446744073709551615999 1700000000000 18446744073709551615999 :=
    ⟨dvd_rfl, by decide, by decide⟩
  rw [hend.unique hthis] at hdelay
  revert hdelay
  decide

end ArmatureRatelimit
