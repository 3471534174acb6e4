/-
  Meters of the entries of the memory store.

  A meter reads the entry of a key.  It goes on by one at an admission and never
  back as time passes; when the entry is taken away it falls by at most `burst`,
  and not at all if a check would have found the entry as good as none (`isUsed`
  says that it would not).  What a meter reads at the end of a time is at most
  what the algorithm allows in it (`Algorithm.allowance`).

  There is a meter for each algorithm (`Algorithm.metered`).
-/
import ArmatureRatelimit.MemoryRuns

open Lib

namespace ArmatureRatelimit

/-! ## Allowances -/

/-- A part of the allowance of a key is used up: a check would not find its entry
    as good as none. -/
def MemoryStore.isUsed (algorithm : Algorithm ℚ) (key : String) (now : ℤ) (s : MemoryStore ℚ) :
    Bool :=
  match algorithm with
  | .tokenBucket capacity refillRate => (s.tokenBuckets.lookup key).any fun x =>
    decide (BucketState.level capacity refillRate now (some x) < capacity)
  | .slidingWindowLog _ window => (s.slidingLogs.lookup key).any fun x =>
    !(pruneLog (now - window) x.log).isEmpty
  | .fixedWindow _ window => (s.fixedWindows.lookup key).any fun x =>
    decide (durationSince now x.windowStart < window)

/-- What an algorithm allows a key in `time`, in the course of which the key is
    restarted `restarts` times. -/
def Algorithm.allowance (time restarts : ℕ) : Algorithm ℚ → ℚ
  | .tokenBucket capacity refillRate =>
    capacity * (1 + restarts) + Duration.secs time * refillRate
  | .slidingWindowLog maxRequests window => maxRequests * (time / (window + 1) + 1 + restarts : ℕ)
  | .fixedWindow maxRequests window => maxRequests * (time / window + 2 + restarts : ℕ)

/-! ## Meters -/

/-- A meter of the entries of a view, from the time `start` on.  `good` is what
    the entries of a run satisfy, and `used` those that a check does not find as
    good as none. -/
structure Meter {algorithm : Algorithm ℚ} {β : Type} (view : MapView algorithm β) (start : ℤ)
    (used : ℤ → β → Bool) (burst : ℚ) (good : ℤ → β → Prop) (reading : ℤ → Option β → ℚ) :
    Prop where
  good_mono : ∀ {t u x}, t ≤ u → good t x → good u x
  good_body : ∀ {now b e}, view.body now = some b → (∀ x, e = some x → good now x) →
    good now (b e).2
  reading_mono : ∀ {t u e}, start ≤ t → t ≤ u → (∀ x, e = some x → good t x) →
    reading t e ≤ reading u e
  reading_body : ∀ {now b e}, start ≤ now → view.body now = some b →
    (∀ x, e = some x → good now x) →
    reading now e + (b e).1.1.toNat ≤ reading now (some (b e).2)
  reading_used : ∀ {now x}, start ≤ now → good now x →
    reading now (some x) ≤ reading now none + burst
  reading_unused : ∀ {now x}, start ≤ now → good now x → used now x = false →
    reading now (some x) ≤ reading now none

/-- What makes a view of the store a metered one between two times. -/
structure Metered (algorithm : Algorithm ℚ) (lo hi : ℤ) where
  {β : Type}
  view : MapView algorithm β
  used : ℤ → β → Bool
  burst : ℚ
  bound : ℚ
  good : ℤ → β → Prop
  reading : ℤ → Option β → ℚ
  meter : Meter view lo used burst good reading
  burst_nonneg : 0 ≤ burst
  bound_nonneg : 0 ≤ bound
  reading_nonneg : ∀ {t e}, lo ≤ t → (∀ x, e = some x → good t x) → 0 ≤ reading t e
  reading_le : ∀ {e}, lo ≤ hi → (∀ x, e = some x → good hi x) → reading hi e ≤ bound
  actsOnStore : view.ActsOnStore
  keepsEntries : view.KeepsEntries
  isUsed_eq : ∀ key now s, MemoryStore.isUsed algorithm key now s =
    ((view.get s).lookup key).any (used now)
  allowance_eq : ∀ restarts,
    bound + burst * restarts = algorithm.allowance (durationSince hi lo) restarts
  get_empty : ∀ {s : MemoryStore ℚ}, s.keyCount = 0 → view.get s = ∅

/-! ## The meter of a sliding window -/

/-- The time is cut into tiles, each a nanosecond longer than the window. -/
def tileAt (start : ℤ) (window : ℕ) (t : ℤ) : ℤ := (t - start) / (window + 1)

theorem tileAt_mono {start : ℤ} {window : ℕ} {t u : ℤ} (h : t ≤ u) :
    tileAt start window t ≤ tileAt start window u :=
  Int.ediv_le_ediv (by omega) (by omega)

theorem tileAt_nonneg {start t : ℤ} (window : ℕ) (h : start ≤ t) : 0 ≤ tileAt start window t :=
  Int.ediv_nonneg (by omega) (by omega)

theorem tileAt_bounds (start : ℤ) (window : ℕ) (t : ℤ) :
    start + (window + 1) * tileAt start window t ≤ t ∧
      t < start + (window + 1) * tileAt start window t + (window + 1) := by
  have hdiv := Int.mul_ediv_add_emod (t - start) (window + 1)
  have hnonneg := Int.emod_nonneg (t - start) (show (window + 1 : ℤ) ≠ 0 by omega)
  have hlt := Int.emod_lt_of_pos (t - start) (show (0 : ℤ) < window + 1 by omega)
  simp only [tileAt]
  constructor <;> omega

/-- The admissions in a log since the beginning of the current tile. -/
def inTile (start : ℤ) (window : ℕ) (t : ℤ) (log : List ℤ) : ℕ :=
  log.countP fun y => decide (start + (window + 1) * tileAt start window t ≤ y)

/-- What is pruned is older than the tile. -/
theorem inTile_pruneLog (start : ℤ) (window : ℕ) (t : ℤ) (log : List ℤ) :
    inTile start window t (pruneLog (t - window) log) = inTile start window t log := by
  have hlt := (tileAt_bounds start window t).2
  induction log with
  | nil => rfl
  | cons x log ih =>
    by_cases hx : x < t - window
    · have hdrop : pruneLog (t - window) (x :: log) = pruneLog (t - window) log := by
        simp [pruneLog, hx]
      have hold : ¬ start + (window + 1) * tileAt start window t ≤ x := by omega
      rw [hdrop, ih, inTile, inTile, List.countP_cons]
      simp [hold]
    · have hkeep : pruneLog (t - window) (x :: log) = x :: log := by simp [pruneLog, hx]
      rw [hkeep]

theorem inTile_append_now (start : ℤ) (window : ℕ) (t : ℤ) (log : List ℤ) :
    inTile start window t (log ++ [t]) = inTile start window t log + 1 := by
  have hle := (tileAt_bounds start window t).1
  simp [inTile, hle]

/-- The admissions of the tiles before are counted as if each were full. -/
def slidingReading (start : ℤ) (maxRequests window : ℕ) (t : ℤ) (e : Option SlidingWindowState) :
    ℚ :=
  maxRequests * tileAt start window t + inTile start window t (e.getD .empty).log

theorem slidingReading_nonneg {start t : ℤ} (maxRequests window : ℕ) (h : start ≤ t)
    (e : Option SlidingWindowState) : 0 ≤ slidingReading start maxRequests window t e := by
  have htile : (0 : ℚ) ≤ tileAt start window t := by exact_mod_cast tileAt_nonneg window h
  exact add_nonneg (mul_nonneg (Nat.cast_nonneg _) htile) (Nat.cast_nonneg _)

theorem slidingWindow_meter (start : ℤ) (maxRequests window : ℕ) :
    Meter (slidingWindowView maxRequests window) start
      (fun now x => !(pruneLog (now - window) x.log).isEmpty) maxRequests
      (fun _ x => x.log.length ≤ maxRequests) (slidingReading start maxRequests window) where
  good_mono _ hx := hx
  good_body {now b e} hb he := by
    obtain ⟨cutoff, -, rfl⟩ := Option.map_eq_some_iff.mp hb
    refine recordRequest_length_le ((pruneLog_length_le _ _).trans ?_)
    cases e with
    | none => exact Nat.zero_le _
    | some x => exact he x rfl
  reading_mono {t u e} _ htu he := by
    have hle : inTile start window t (e.getD .empty).log ≤ maxRequests := by
      refine List.countP_le_length.trans ?_
      cases e with
      | none => exact Nat.zero_le _
      | some x => exact he x rfl
    have hmono : tileAt start window t ≤ tileAt start window u := tileAt_mono htu
    rcases hmono.eq_or_lt with hsame | hnext
    · simp only [slidingReading, inTile, hsame, le_refl]
    · have hone : (tileAt start window t : ℚ) + 1 ≤ tileAt start window u := by exact_mod_cast hnext
      have hle' : (inTile start window t (e.getD .empty).log : ℚ) ≤ maxRequests := by
        exact_mod_cast hle
      have hmax : (0 : ℚ) ≤ maxRequests := Nat.cast_nonneg _
      have hmul := mul_le_mul_of_nonneg_left hone hmax
      have hnonneg : (0 : ℚ) ≤ inTile start window u (e.getD .empty).log := Nat.cast_nonneg _
      simp only [slidingReading]
      linarith
  reading_body {now b e} _ hb _ := by
    obtain ⟨cutoff, hcutoff, rfl⟩ := Option.map_eq_some_iff.mp hb
    obtain ⟨-, rfl⟩ := instantSub_some.mp hcutoff
    simp only [slidingReading, MemoryStore.slidingWindowBody, recordRequest, Option.getD_some]
    split_ifs
    · rw [inTile_append_now, inTile_pruneLog]
      push_cast
      simp
      linarith
    · rw [inTile_pruneLog]
      simp
  reading_used {now x} _ hx := by
    have hle : (inTile start window now x.log : ℚ) ≤ maxRequests := by
      exact_mod_cast List.countP_le_length.trans hx
    have hnonneg : (0 : ℚ) ≤ inTile start window now SlidingWindowState.empty.log :=
      Nat.cast_nonneg _
    simp only [slidingReading, Option.getD_some, Option.getD_none]
    linarith
  reading_unused {now x} _ _ hused := by
    have hnil : pruneLog (now - window) x.log = [] := by simpa using hused
    have hzero : inTile start window now x.log = 0 := by
      rw [← inTile_pruneLog, hnil]
      rfl
    simp only [slidingReading, Option.getD_some, Option.getD_none, hzero]
    exact le_of_eq rfl

def slidingWindow_metered (lo hi : ℤ) (maxRequests window : ℕ) :
    Metered (.slidingWindowLog maxRequests window) lo hi where
  view := slidingWindowView maxRequests window
  used now x := !(pruneLog (now - window) x.log).isEmpty
  burst := maxRequests
  bound := maxRequests * (durationSince hi lo / (window + 1) + 1 : ℕ)
  good _ x := x.log.length ≤ maxRequests
  reading := slidingReading lo maxRequests window
  meter := slidingWindow_meter lo maxRequests window
  burst_nonneg := Rat.natCast_nonneg
  bound_nonneg := mul_nonneg (Nat.cast_nonneg _) (Nat.cast_nonneg _)
  reading_nonneg ht _ := slidingReading_nonneg maxRequests window ht _
  reading_le {e} hlohi he := by
    have htile : (tileAt lo window hi : ℚ) = (durationSince hi lo / (window + 1) : ℕ) := by
      have hd : ((durationSince hi lo : ℕ) : ℤ) = hi - lo :=
        Int.toNat_of_nonneg (sub_nonneg.mpr hlohi)
      rw [tileAt, ← hd]
      norm_cast
    have hle : (inTile lo window hi (e.getD .empty).log : ℚ) ≤ maxRequests := by
      refine Nat.cast_le.mpr (List.countP_le_length.trans ?_)
      cases e with
      | none => exact Nat.zero_le _
      | some x => exact he x rfl
    simp only [slidingReading, htile]
    rw [Nat.cast_add _ 1, Nat.cast_one]
    linarith
  actsOnStore := slidingWindowView_actsOnStore maxRequests window
  keepsEntries := slidingWindowView_keepsEntries maxRequests window
  isUsed_eq _ _ _ := rfl
  allowance_eq restarts := by
    simp only [Algorithm.allowance]
    push_cast
    ring
  get_empty h := (MemoryStore.maps_empty h).2.1

/-! ## The meter of a fixed window -/

/-- The windows that fit between two times. -/
def windowsBetween (start : ℤ) (window : ℕ) (t : ℤ) : ℤ := (t - start) / window

theorem windowsBetween_mono {start : ℤ} {window : ℕ} (hwindow : 0 < window) {t u : ℤ}
    (h : t ≤ u) : windowsBetween start window t ≤ windowsBetween start window u :=
  Int.ediv_le_ediv (by omega) (by omega)

theorem windowsBetween_nonneg {start : ℤ} {window : ℕ} {t : ℤ} (h : start ≤ t) :
    0 ≤ windowsBetween start window t :=
  Int.ediv_nonneg (by omega) (by omega)

theorem windowsBetween_succ {start : ℤ} {window : ℕ} (hwindow : 0 < window) {t u : ℤ}
    (h : t + window ≤ u) : windowsBetween start window t + 1 ≤ windowsBetween start window u := by
  have hne : (window : ℤ) ≠ 0 := by omega
  calc windowsBetween start window t + 1 = (t - start + 1 * window) / window :=
        (Int.add_mul_ediv_right _ _ hne).symm
    _ ≤ windowsBetween start window u := Int.ediv_le_ediv (by omega) (by omega)

/-- The window that was open at `start` is counted as it is; one that opened
    later as if the windows that fit before it had all been filled. -/
def windowReading (start : ℤ) (maxRequests window : ℕ) (y : WindowState) : ℚ :=
  if y.windowStart < start then y.count
  else maxRequests * (1 + windowsBetween start window y.windowStart : ℤ) + y.count

/-- Without a window the next one opens now. -/
def fixedReading (start : ℤ) (maxRequests window : ℕ) (t : ℤ) (e : Option FixedWindowState) : ℚ :=
  match e with
  | none => windowReading start maxRequests window ⟨0, t⟩
  | some x => windowReading start maxRequests window x.toWindowState

section
variable {start : ℤ} {maxRequests window : ℕ}

theorem windowReading_now {t : ℤ} (h : start ≤ t) :
    windowReading start maxRequests window ⟨0, t⟩ =
      maxRequests * (1 + windowsBetween start window t : ℤ) := by
  simp [windowReading, not_lt.mpr h]

theorem windowReading_nonneg (y : WindowState) : 0 ≤ windowReading start maxRequests window y := by
  unfold windowReading
  split_ifs with hold
  · exact Nat.cast_nonneg _
  · have hfit : (0 : ℚ) ≤ (1 + windowsBetween start window y.windowStart : ℤ) := by
      have hnonneg : 0 ≤ windowsBetween start window y.windowStart :=
        windowsBetween_nonneg (not_lt.mp hold)
      exact_mod_cast add_nonneg zero_le_one hnonneg
    exact add_nonneg (mul_nonneg (Nat.cast_nonneg _) hfit) (Nat.cast_nonneg _)

theorem windowReading_increment (y : WindowState) :
    windowReading start maxRequests window y + (y.increment maxRequests).1.1.toNat =
      windowReading start maxRequests window (y.increment maxRequests).2 := by
  simp only [WindowState.increment]
  by_cases hroom : y.count < maxRequests
  · by_cases hold : y.windowStart < start <;>
      simp [hroom, windowReading, hold, add_assoc]
  · simp [hroom]

/-- A window reads at most as a new one and what it has counted. -/
theorem windowReading_le (hwindow : 0 < window) {t : ℤ} {y : WindowState} (h : start ≤ t)
    (hy : y.windowStart ≤ t) :
    windowReading start maxRequests window y ≤
      windowReading start maxRequests window ⟨0, t⟩ + y.count := by
  have hmax : (0 : ℚ) ≤ maxRequests := Nat.cast_nonneg _
  rw [windowReading_now h]
  unfold windowReading
  push_cast
  split_ifs with hold
  · have hnonneg : (0 : ℚ) ≤ windowsBetween start window t := by
      exact_mod_cast windowsBetween_nonneg h
    have hmul := mul_nonneg hmax hnonneg
    linarith
  · have hmono : (windowsBetween start window y.windowStart : ℚ) ≤
        windowsBetween start window t := by
      exact_mod_cast windowsBetween_mono hwindow hy
    have hmul := mul_le_mul_of_nonneg_left hmono hmax
    linarith

/-- A window that is over reads at most as a new one. -/
theorem windowReading_over (hwindow : 0 < window) {t : ℤ} {y : WindowState} (h : start ≤ t)
    (hcount : y.count ≤ maxRequests) (hover : y.windowStart + window ≤ t) :
    windowReading start maxRequests window y ≤ windowReading start maxRequests window ⟨0, t⟩ := by
  have hcount' : (y.count : ℚ) ≤ maxRequests := Nat.cast_le.mpr hcount
  have hmax : (0 : ℚ) ≤ maxRequests := Nat.cast_nonneg _
  rw [windowReading_now h]
  unfold windowReading
  push_cast
  split_ifs with hold
  · have hnonneg : (0 : ℚ) ≤ windowsBetween start window t := by
      exact_mod_cast windowsBetween_nonneg h
    have hmul := mul_nonneg hmax hnonneg
    linarith
  · have hsucc : (windowsBetween start window y.windowStart : ℚ) + 1 ≤
        windowsBetween start window t := by
      exact_mod_cast windowsBetween_succ hwindow hover
    have hmul := mul_le_mul_of_nonneg_left hsucc hmax
    linarith

end

theorem fixedWindow_meter (start : ℤ) (maxRequests : ℕ) {window : ℕ} (hwindow : 0 < window) :
    Meter (fixedWindowView maxRequests window) start
      (fun now x => decide (durationSince now x.windowStart < window)) maxRequests
      (fun t x => x.windowStart ≤ t ∧ x.count ≤ maxRequests)
      (fixedReading start maxRequests window) where
  good_mono htu hx := ⟨hx.1.trans htu, hx.2⟩
  good_body {now b e} hb he := by
    obtain rfl := Option.some.inj hb
    obtain ⟨y, hbody, hy⟩ := MemoryStore.fixedWindowBody_cases maxRequests window now e
    have hgood : y.windowStart ≤ now ∧ y.count ≤ maxRequests := by
      rcases hy with ⟨rfl, -⟩ | ⟨x, hx, rfl, -⟩
      · exact ⟨le_rfl, Nat.zero_le _⟩
      · exact he x hx
    rw [hbody]
    simp only [WindowState.increment]
    split_ifs with hroom
    · exact ⟨hgood.1, hroom⟩
    · exact hgood
  reading_mono {t u e} ht htu _ := by
    cases e with
    | none =>
      have hle : windowReading start maxRequests window ⟨0, t⟩ ≤ _ :=
        windowReading_le hwindow (ht.trans htu) htu
      simpa [fixedReading] using hle
    | some x => exact le_rfl
  reading_body {now b e} hstart hb he := by
    obtain rfl := Option.some.inj hb
    obtain ⟨y, hbody, hy⟩ := MemoryStore.fixedWindowBody_cases maxRequests window now e
    have hle : fixedReading start maxRequests window now e ≤
        windowReading start maxRequests window y := by
      rcases hy with ⟨rfl, hover⟩ | ⟨x, rfl, rfl, -⟩
      · cases e with
        | none => exact le_rfl
        | some x =>
          have hover := (le_durationSince hwindow).mp (hover x rfl)
          exact windowReading_over hwindow hstart (he x rfl).2 hover
      · exact le_rfl
    rw [hbody]
    calc fixedReading start maxRequests window now e + (y.increment maxRequests).1.1.toNat
        ≤ windowReading start maxRequests window y + (y.increment maxRequests).1.1.toNat := by
          linarith
      _ = windowReading start maxRequests window (y.increment maxRequests).2 :=
          windowReading_increment y
  reading_used {now x} hstart hx := by
    have hle : windowReading start maxRequests window x.toWindowState ≤ _ :=
      windowReading_le hwindow hstart hx.1
    have hcount : (x.count : ℚ) ≤ maxRequests := Nat.cast_le.mpr hx.2
    simp only [fixedReading]
    linarith
  reading_unused {now x} hstart hx hused := by
    have hover : x.windowStart + window ≤ now :=
      (le_durationSince hwindow).mp (by simpa using hused)
    exact windowReading_over hwindow hstart hx.2 hover

def fixedWindow_metered (lo hi : ℤ) (maxRequests : ℕ) {window : ℕ} (hwindow : 0 < window) :
    Metered (.fixedWindow maxRequests window) lo hi where
  view := fixedWindowView maxRequests window
  used now x := decide (durationSince now x.windowStart < window)
  burst := maxRequests
  bound := maxRequests * (durationSince hi lo / window + 2 : ℕ)
  good t x := x.windowStart ≤ t ∧ x.count ≤ maxRequests
  reading := fixedReading lo maxRequests window
  meter := fixedWindow_meter lo maxRequests hwindow
  burst_nonneg := Rat.natCast_nonneg
  bound_nonneg := mul_nonneg (Nat.cast_nonneg _) (Nat.cast_nonneg _)
  reading_nonneg {t e} _ _ := by
    cases e with
    | none => exact windowReading_nonneg _
    | some x => exact windowReading_nonneg _
  reading_le {e} hlohi he := by
    have hfit : (windowsBetween lo window hi : ℚ) = (durationSince hi lo / window : ℕ) := by
      have hd : ((durationSince hi lo : ℕ) : ℤ) = hi - lo :=
        Int.toNat_of_nonneg (sub_nonneg.mpr hlohi)
      rw [windowsBetween, ← hd]
      norm_cast
    have hnow : fixedReading lo maxRequests window hi none =
        maxRequests * (1 + (durationSince hi lo / window : ℕ)) := by
      rw [← hfit]
      exact_mod_cast windowReading_now hlohi
    have hle : fixedReading lo maxRequests window hi e ≤
        fixedReading lo maxRequests window hi none + maxRequests := by
      cases e with
      | none => exact le_add_of_nonneg_right (Nat.cast_nonneg _)
      | some x => exact (fixedWindow_meter lo maxRequests hwindow).reading_used hlohi (he x rfl)
    rw [hnow] at hle
    rw [Nat.cast_add _ 2]
    push_cast at hle ⊢
    linarith
  actsOnStore := fixedWindowView_actsOnStore maxRequests window
  keepsEntries env s key := (lookup_cleanup env s key).2.2
  isUsed_eq _ _ _ := rfl
  allowance_eq restarts := by
    simp only [Algorithm.allowance]
    push_cast
    ring
  get_empty h := (MemoryStore.maps_empty h).2.2

/-! ## The meter of a token bucket -/

/-- What a bucket lacks, and what would have flowed in since `start`. -/
def bucketReading (start : ℤ) (capacity : ℕ) (refillRate : ℚ) (t : ℤ)
    (e : Option (TokenBucketState ℚ)) : ℚ :=
  span start t * refillRate + (capacity - BucketState.level capacity refillRate t e)

/-- What flows into a bucket keeps within the rate. -/
theorem level_le_add {capacity : ℕ} {refillRate : ℚ} (hrate : 0 ≤ refillRate) {t u : ℤ}
    (htu : t ≤ u) (e : Option (TokenBucketState ℚ)) :
    BucketState.level capacity refillRate u e ≤
      BucketState.level capacity refillRate t e + span t u * refillRate := by
  have hflow : 0 ≤ span t u * refillRate := mul_nonneg (span_nonneg htu) hrate
  cases e with
  | none =>
    simp only [BucketState.level]
    linarith
  | some b =>
    have hsecs : Duration.secs (durationSince u b.lastRefill) ≤
        Duration.secs (durationSince t b.lastRefill) + span t u := by
      have hle : durationSince u b.lastRefill ≤
          durationSince t b.lastRefill + durationSince u t := by
        simp only [durationSince]
        omega
      rw [← secs_durationSince htu]
      have hmono := Duration.secs_mono hle
      simp only [Duration.secs, Nat.cast_add, add_div] at hmono ⊢
      exact hmono
    have hmul := mul_le_mul_of_nonneg_right hsecs hrate
    simp only [BucketState.level]
    rw [← min_add_add_right]
    exact le_min ((min_le_left _ _).trans (by linarith)) ((min_le_right _ _).trans (by linarith))

/-- A bucket that was refilled a moment ago. -/
theorem level_now {capacity : ℕ} {refillRate : ℚ} {now : ℤ} {tokens : ℚ} (h : tokens ≤ capacity) :
    BucketState.level capacity refillRate now (some ⟨tokens, now⟩) = tokens := by
  simp [BucketState.level, Duration.secs, h]

theorem tokenBucket_meter (start : ℤ) (capacity : ℕ) {refillRate : ℚ} (hrate : 0 ≤ refillRate) :
    Meter (tokenBucketView capacity refillRate) start
      (fun now x => decide (BucketState.level capacity refillRate now (some x) < capacity))
      capacity (fun _ x => 0 ≤ x.tokens) (bucketReading start capacity refillRate) where
  good_mono _ hx := hx
  good_body {now b e} hb he := by
    obtain rfl := Option.some.inj hb
    have hlevel : 0 ≤ BucketState.level capacity refillRate now e :=
      BucketState.level_nonneg hrate he
    simp only [MemoryStore.tokenBucketBody, BucketState.acquire_rat_snd hrate]
    split_ifs with hone
    · linarith
    · exact hlevel
  reading_mono {t u e} _ htu _ := by
    have hspan : span start u = span start t + span t u := (span_add start t u).symm
    have hlevel : BucketState.level capacity refillRate u e ≤ _ := level_le_add hrate htu e
    simp only [bucketReading, hspan]
    linarith
  reading_body {now b e} _ hb _ := by
    obtain rfl := Option.some.inj hb
    have hcap := BucketState.level_le capacity refillRate now e
    simp only [bucketReading, MemoryStore.tokenBucketBody, BucketState.acquire_rat hrate]
    split_ifs with hone
    · rw [level_now (by linarith)]
      simp only [Bool.toNat_true, Nat.cast_one]
      linarith
    · rw [level_now hcap]
      simp
  reading_used {now x} _ hx := by
    have hlevel : 0 ≤ BucketState.level capacity refillRate now (some x) :=
      BucketState.level_nonneg hrate fun b hb => Option.some.inj hb ▸ hx
    simp only [bucketReading, BucketState.level] at hlevel ⊢
    linarith
  reading_unused {now x} _ _ hused := by
    have hfull : (capacity : ℚ) ≤ BucketState.level capacity refillRate now (some x) := by
      simpa using hused
    simp only [bucketReading, BucketState.level] at hfull ⊢
    linarith

def tokenBucket_metered (lo hi : ℤ) (capacity : ℕ) {refillRate : ℚ} (hrate : 0 ≤ refillRate) :
    Metered (.tokenBucket capacity refillRate) lo hi where
  view := tokenBucketView capacity refillRate
  used now x := decide (BucketState.level capacity refillRate now (some x) < capacity)
  burst := capacity
  bound := capacity + Duration.secs (durationSince hi lo) * refillRate
  good _ x := 0 ≤ x.tokens
  reading := bucketReading lo capacity refillRate
  meter := tokenBucket_meter lo capacity hrate
  burst_nonneg := Rat.natCast_nonneg
  bound_nonneg := add_nonneg (Nat.cast_nonneg _) (mul_nonneg (Duration.secs_nonneg _) hrate)
  reading_nonneg {t e} ht _ := by
    have hflow := mul_nonneg (span_nonneg ht) hrate
    have hlevel := BucketState.level_le capacity refillRate t e
    simp only [bucketReading]
    linarith
  reading_le {e} hlohi he := by
    have hlevel : 0 ≤ BucketState.level capacity refillRate hi e :=
      BucketState.level_nonneg hrate he
    simp only [bucketReading, secs_durationSince hlohi]
    linarith
  actsOnStore := tokenBucketView_actsOnStore capacity refillRate
  keepsEntries := tokenBucketView_keepsEntries capacity refillRate
  isUsed_eq _ _ _ := rfl
  allowance_eq restarts := by
    simp only [Algorithm.allowance]
    ring
  get_empty h := (MemoryStore.maps_empty h).1

/-! ## Every algorithm -/

def Algorithm.metered (lo hi : ℤ) : (algorithm : Algorithm ℚ) → algorithm.Valid →
    Metered algorithm lo hi
  | .tokenBucket capacity _, hvalid =>
    tokenBucket_metered lo hi capacity (not_le.mp (of_decide_eq_false hvalid.2.2)).le
  | .slidingWindowLog maxRequests window, _ => slidingWindow_metered lo hi maxRequests window
  | .fixedWindow maxRequests _, hvalid => fixedWindow_metered lo hi maxRequests hvalid.2

end ArmatureRatelimit
