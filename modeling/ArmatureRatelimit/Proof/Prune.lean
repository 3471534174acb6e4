/-
  When the prune task goes unnoticed.

  For each algorithm the entries that `cleanup` drops are stale (`Fading`) when
  the idle TTL is long enough; where it is too short, a run on a single key
  shows the difference.
-/
import ArmatureRatelimit.Proof.Fading

open Lib

namespace ArmatureRatelimit

variable {ν : Type} [F64 ν] {algorithm : Algorithm ν} {β : Type}

/-! ## When the idle TTL is long enough -/

theorem not_keep_iff {idleTtl : ℕ} {now last : ℤ} :
    (!MemoryStore.isIdle idleTtl now last) = false ↔ idleTtl ≤ durationSince now last := by
  simp [MemoryStore.isIdle]

theorem slidingWindow_fading (maxRequests : ℕ) {window idleTtl : ℕ} (h : window < idleTtl) :
    Fading (slidingWindowView (ν := ν) maxRequests window) idleTtl
      (fun t x => x.log.Pairwise (· ≤ ·) ∧ ∀ y ∈ x.log, y ≤ t)
      (fun t x => ∀ y ∈ x.log, y + window < t) where
  good_mono htu hx := ⟨hx.1, fun y hy => (hx.2 y hy).trans htu⟩
  stale_mono htu hx := fun y hy => (hx y hy).trans_le htu
  good_body {now b e} hb he := by
    obtain ⟨cutoff, -, rfl⟩ := Option.map_eq_some_iff.mp hb
    have hlog : (e.getD .empty).log.Pairwise (· ≤ ·) ∧ ∀ y ∈ (e.getD .empty).log, y ≤ now := by
      cases e with
      | none => exact ⟨.nil, fun y hy => absurd hy List.not_mem_nil⟩
      | some x => exact he x rfl
    exact recordRequest_sorted hlog.1 hlog.2
  stale_body {now b x} hb _ hx := by
    obtain ⟨cutoff, hc, rfl⟩ := Option.map_eq_some_iff.mp hb
    obtain ⟨-, rfl⟩ := instantSub_some.mp hc
    have hnil : pruneLog (now - window) x.log = [] :=
      pruneLog_eq_nil fun y hy => by have := hx y hy; omega
    simp only [MemoryStore.slidingWindowBody, Option.getD_some, Option.getD_none, hnil]
    rfl
  stale_of_dropped {now x} hg hk := by
    simp only [slidingWindowView, MemoryStore.keepLog] at hk
    split at hk
    · rename_i last hlast
      have hidle := (le_durationSince (by omega)).mp (not_keep_iff.mp hk)
      intro y hy
      -- the back of a sorted log is its newest entry
      have hy' : y ≤ last := by
        obtain ⟨front, hf⟩ := List.getLast?_eq_some_iff.mp hlast
        rw [hf] at hg hy
        rcases List.mem_append.mp hy with hy | hy
        · exact (List.pairwise_append.mp hg.1).2.2 y hy last (by simp)
        · exact (List.mem_singleton.mp hy).le
      omega
    · rename_i hnone
      intro y hy
      rw [List.getLast?_eq_none_iff.mp hnone] at hy
      exact absurd hy List.not_mem_nil

theorem fixedWindow_fading (maxRequests : ℕ) {window idleTtl : ℕ} (h : window ≤ idleTtl) :
    Fading (fixedWindowView (ν := ν) maxRequests window) idleTtl (fun _ _ => True)
      (fun t x => window ≤ durationSince t x.windowStart) where
  good_mono _ _ := trivial
  stale_mono {t u x} htu hx := by
    have : durationSince t x.windowStart ≤ durationSince u x.windowStart := by
      simp only [durationSince]; omega
    exact hx.trans this
  good_body _ _ := trivial
  stale_body {now b x} hb _ hx := by
    obtain rfl := Option.some.inj hb
    have hroll : x.toWindowState.roll window now = WindowState.roll window now ⟨0, now⟩ := by
      simp only [WindowState.roll, hx, if_true, durationSince_self]
      split_ifs <;> rfl
    simp only [MemoryStore.fixedWindowBody, WindowState.acquire, Option.map_some, Option.map_none,
      Option.getD_some, Option.getD_none, hroll]
  stale_of_dropped {now x} _ hk := h.trans (not_keep_iff.mp hk)

theorem tokenBucket_fading {capacity : ℕ} {refillRate : ℚ} {idleTtl : ℕ} (hr : 0 ≤ refillRate)
    (h : capacity ≤ Duration.secs idleTtl * refillRate) :
    Fading (tokenBucketView capacity refillRate) idleTtl (fun _ x => 0 ≤ x.tokens)
      (fun t x => capacity ≤ x.tokens + Duration.secs (durationSince t x.lastRefill) * refillRate)
    where
  good_mono _ hx := hx
  stale_mono {t u x} htu hx := by
    have hd : durationSince t x.lastRefill ≤ durationSince u x.lastRefill := by
      simp only [durationSince]; omega
    have := mul_le_mul_of_nonneg_right (Duration.secs_mono hd) hr
    linarith
  good_body {now b e} hb he := by
    obtain rfl := Option.some.inj hb
    have hlevel : 0 ≤ BucketState.level capacity refillRate now e := by
      cases e with
      | none => exact Nat.cast_nonneg _
      | some x =>
        have := mul_nonneg (Duration.secs_nonneg (durationSince now x.lastRefill)) hr
        exact le_min (by linarith [he x rfl]) (Nat.cast_nonneg _)
    simp only [MemoryStore.tokenBucketBody, BucketState.acquire_rat hr]
    split_ifs with h1
    · exact sub_nonneg.mpr h1
    · exact hlevel
  stale_body {now b x} hb _ hx := by
    obtain rfl := Option.some.inj hb
    have hfull : BucketState.level capacity refillRate now (some x) =
        BucketState.level capacity refillRate now none := min_eq_right hx
    simp only [MemoryStore.tokenBucketBody, BucketState.acquire_rat hr, hfull]
  stale_of_dropped {now x} hg hk := by
    have hd := Duration.secs_mono (not_keep_iff.mp hk)
    have := mul_le_mul_of_nonneg_right hd hr
    linarith

/-! ## When it is too short -/

/-- The decision that is made of a store's answer. -/
def MapView.decide (view : MapView algorithm β) (unix : ℤ) (r : Bool × ℕ) : Outcome (Bool × ℕ) :=
  (view.result unix r).map RateLimitCheckResult.decision

/-- A check of `key` at `now`. -/
def checkAt (key : String) (now : ℤ) : Event := ⟨⟨now, .stored⟩, 0, .check key⟩

def pruneAt (now : ℤ) : Event := ⟨⟨now, .stored⟩, 0, .prune⟩

theorem step_checkAt (view : MapView algorithm β) {key : String} {now : ℤ}
    {b : Option β → (Bool × ℕ) × β} (hb : view.body now = some b) (s : MemoryStore ν) :
    MemoryStore.step algorithm (checkAt key now) s =
      (.decision (view.decide 0 (b ((view.get s).lookup key)).1),
        view.set ((view.get s).access b key).2 s) := by
  simp only [MemoryStore.step, checkAt, view.check_eq, hb, MapView.decide]

/-- If pruning is invisible, then after checks of one key a pass that drops the
    entry does not change what the next check of the key decides. -/
theorem PruneInvisible.decide_eq (view : MapView algorithm β)
    (h : PruneInvisible algorithm (.new : MemoryStore ν)) (key : String) {t now : ℤ} {n : ℕ}
    (hnow : t ≤ now) {x : β} {b : Option β → (Bool × ℕ) × β} (hb : view.body now = some b)
    (hx : (view.get (run (MemoryStore.step algorithm) .new
      (List.replicate n (checkAt key t)))).lookup key = some x)
    (hold : (run (MemoryStore.step algorithm) (.new : MemoryStore ν)
      (List.replicate n (checkAt key t))).idleTtl = MemoryStore.defaultIdleTtl)
    (hdrop : view.keep MemoryStore.defaultIdleTtl now x = false) :
    view.decide 0 (b none).1 = view.decide 0 (b (some x)).1 := by
  set checks := List.replicate n (checkAt key t) with hchecks
  set s := run (MemoryStore.step algorithm) (.new : MemoryStore ν) checks with hs
  have hcheck : ∀ e ∈ checks, e = checkAt key t := fun e he => List.eq_of_mem_replicate he
  have honly : ∀ e ∈ checks ++ [pruneAt now, checkAt key now],
      e.action = .check key ∨ e.action = .prune := by
    intro e he
    rcases List.mem_append.mp he with he | he
    · exact .inl (by rw [hcheck e he]; rfl)
    · simp only [List.mem_cons, List.not_mem_nil, or_false] at he
      rcases he with rfl | rfl
      · exact .inr rfl
      · exact .inl rfl
  have hord : InOrder (checks ++ [pruneAt now, checkAt key now]) := by
    refine List.pairwise_append.mpr ⟨List.pairwise_replicate.mpr (.inr le_rfl), ?_, ?_⟩
    · simp [Event.now, pruneAt, checkAt]
    · intro e he e' he'
      rw [hcheck e he]
      simp only [List.mem_cons, List.not_mem_nil, or_false] at he'
      rcases he' with rfl | rfl <;> exact hnow
  have hkind : ∀ e ∈ checks ++ [pruneAt now, checkAt key now],
      e.isCheck = true ∨ e.isPrune = true := fun e he => by
    rcases honly e he with ha | ha
    · exact .inl (by simp [Event.isCheck, ha])
    · exact .inr (by simp [Event.isPrune, ha])
  have hall := h _ hkind hord ((MemoryStore.holdsOnly_new key).along algorithm honly)
  -- both runs start with the same checks; what remains is the last one
  have hself : checks.filter (fun e => !e.isPrune) = checks :=
    List.filter_eq_self.mpr fun e he => by rw [hcheck e he]; rfl
  have hlast : [(MemoryStore.step algorithm (checkAt key now) (s.cleanup ⟨now, .stored⟩)).1] =
      [(MemoryStore.step algorithm (checkAt key now) s).1] := by
    simp only [MemoryStore.replies, List.filter_append, hself, trace_append] at hall
    exact List.append_cancel_left hall
  have hkey : s.HoldsOnly key := run_inv (MemoryStore.holdsOnly_new key) fun e he s hs => by
    rw [hcheck e he]; exact hs.check algorithm _ _
  have hgone : (view.get (s.cleanup ⟨now, .stored⟩)).lookup key = none := by
    rw [cleanup_eq_evictIdle _ hkey.withinCap, view.get_evictIdle, KeyMap.lookup_retain, hx, hold]
    simp [hdrop]
  rw [step_checkAt view hb, step_checkAt view hb, hgone, hx] at hlast
  simpa using hlast

/-! ## The exact conditions -/

section
variable {maxRequests window : ℕ}

/-- What a window check decides after one request in the window, at a moment
    that is still in it, and what it decides on a missing entry. -/
theorem second_ne_first :
    (if 1 < maxRequests then ((true, maxRequests - 1 - 1) : Bool × ℕ) else (false, 0)) ≠
      (true, maxRequests - 1) := by
  split_ifs with h
  · simp only [ne_eq, Prod.mk.injEq, true_and]; omega
  · simp

/-- A check that is not too early for its window runs its body. -/
theorem slidingWindowView_body {now : ℤ} (h : (window : ℤ) ≤ now) (maxRequests : ℕ) :
    (slidingWindowView (ν := ν) maxRequests window).body now =
      some (MemoryStore.slidingWindowBody maxRequests window now (now - window)) := by
  have hcutoff : instantSub now window = some (now - window) :=
    instantSub_some.mpr ⟨by simp only [instantMin]; omega, rfl⟩
  simp only [slidingWindowView, hcutoff, Option.map_some]

theorem slidingWindow_decide (hr : Duration.asSecs window ≤ u64Max) (r : Bool × ℕ)
    (h : r.1 = false → r.2 = 0) :
    (slidingWindowView (ν := ν) maxRequests window).decide 0 r = .ok r := by
  obtain ⟨allowed, remaining⟩ := r
  have hle : ¬ u64Max < Duration.asSecs (0 : ℤ).toNat + Duration.asSecs window := by
    simp only [Duration.asSecs, Int.toNat_zero, Nat.zero_div]; simpa [Duration.asSecs] using hr
  simp only [MapView.decide, slidingWindowView, RateLimiter.slidingWindowResult, sinceEpoch,
    le_refl, if_true, hle, if_false]
  cases allowed with
  | true => rfl
  | false => obtain rfl : remaining = 0 := h rfl; rfl

theorem fixedWindow_decide (r : Bool × ℕ) (h : r.1 = false → r.2 = 0) :
    (fixedWindowView (ν := ν) maxRequests window).decide 0 r = .ok r := by
  obtain ⟨allowed, remaining⟩ := r
  cases allowed with
  | true => rfl
  | false => obtain rfl : remaining = 0 := h rfl; rfl

theorem slidingWindow_pruneInvisible_iff (hmax : 0 < maxRequests)
    (hr : Duration.asSecs window ≤ u64Max) :
    PruneInvisible (.slidingWindowLog maxRequests window : Algorithm ν) .new ↔
      window < MemoryStore.defaultIdleTtl := by
  constructor
  · intro h
    by_contra hlong
    have hlong : MemoryStore.defaultIdleTtl ≤ window := not_lt.mp hlong
    -- one check at `window`, then a pass and a check when the entry turns idle
    obtain ⟨t, ht⟩ : ∃ t : ℤ, t = window := ⟨_, rfl⟩
    obtain ⟨now, hnow⟩ : ∃ now : ℤ, now = t + MemoryStore.defaultIdleTtl := ⟨_, rfl⟩
    have hb := slidingWindowView_body (ν := ν) (by omega : (window : ℤ) ≤ now) maxRequests
    have hb₀ := slidingWindowView_body (ν := ν) ht.ge maxRequests
    have hrec : (MemoryStore.slidingWindowBody maxRequests window t (t - window) none).2 =
        ⟨[t], maxRequests, window⟩ := by
      simp [MemoryStore.slidingWindowBody, SlidingWindowState.empty, pruneLog, recordRequest, hmax]
    have hle : t ≤ now := by omega
    have hdec := h.decide_eq (slidingWindowView maxRequests window) "client" (n := 1)
      (x := ⟨[t], maxRequests, window⟩) hle hb
      (by
        rw [List.replicate_one, run_cons, run_nil, step_checkAt _ hb₀]
        simp only [MapView.get_set, KeyMap.access_lookup_self, ← hrec]
        rfl)
      (by rw [List.replicate_one, run_cons, run_nil, step_checkAt _ hb₀, MapView.idleTtl_set]; rfl)
      (by
        simp only [slidingWindowView, MemoryStore.keepLog, List.getLast?_singleton]
        exact not_keep_iff.mpr ((le_durationSince (by decide)).mpr hnow.ge))
    have hkeep : pruneLog (now - window) [t] = [t] := by
      have hc : ¬ t < now - window := by omega
      simp [pruneLog, hc]
    have hnone : (MemoryStore.slidingWindowBody maxRequests window now (now - window) none).1 =
        (true, maxRequests - 1) := by
      simp [MemoryStore.slidingWindowBody, SlidingWindowState.empty, pruneLog, recordRequest, hmax]
    have hsome : (MemoryStore.slidingWindowBody maxRequests window now (now - window)
        (some ⟨[t], maxRequests, window⟩)).1 =
        if 1 < maxRequests then (true, maxRequests - 1 - 1) else (false, 0) := by
      simp only [MemoryStore.slidingWindowBody, Option.getD_some, hkeep, recordRequest,
        List.length_singleton]
      split_ifs <;> rfl
    rw [hnone, hsome, slidingWindow_decide hr _ (by simp), slidingWindow_decide hr _
      (by split_ifs <;> simp)] at hdec
    exact second_ne_first (Except.ok.inj hdec).symm
  · intro h evs _ hord hcap
    exact (slidingWindow_fading maxRequests h).trace_filter (slidingWindowView _ _).actsBy_step
      rfl rfl hord hcap

theorem fixedWindow_pruneInvisible_iff (hmax : 0 < maxRequests) (hw : 0 < window) :
    PruneInvisible (.fixedWindow maxRequests window : Algorithm ν) .new ↔
      window ≤ MemoryStore.defaultIdleTtl := by
  constructor
  · intro h
    by_contra hlong
    have hlong : MemoryStore.defaultIdleTtl < window := not_le.mp hlong
    obtain ⟨now, hnow⟩ : ∃ now : ℤ, now = MemoryStore.defaultIdleTtl := ⟨_, rfl⟩
    have hfresh : ∀ t, MemoryStore.fixedWindowBody maxRequests window t none =
        ((true, maxRequests - 1), ⟨⟨1, t⟩, maxRequests, window⟩) := by
      intro t
      simp [MemoryStore.fixedWindowBody, WindowState.acquire, WindowState.roll,
        WindowState.increment, Nat.ne_of_gt hw, hmax]
    have hle : 0 ≤ now := by omega
    have hdec := h.decide_eq (fixedWindowView maxRequests window) "client" (n := 1)
      (x := ⟨⟨1, 0⟩, maxRequests, window⟩) hle rfl
      (by
        rw [List.replicate_one, run_cons, run_nil, step_checkAt (fixedWindowView _ _) rfl]
        simp only [MapView.get_set, KeyMap.access_lookup_self]
        exact congrArg some (congrArg Prod.snd (hfresh 0)))
      rfl
      (by
        simp only [fixedWindowView]
        exact not_keep_iff.mpr ((le_durationSince (by decide)).mpr (by omega)))
    have hsome : (MemoryStore.fixedWindowBody maxRequests window now
        (some ⟨⟨1, 0⟩, maxRequests, window⟩)).1 =
        if 1 < maxRequests then (true, maxRequests - 1 - 1) else (false, 0) := by
      have hroll : ¬ window ≤ durationSince now 0 := by simp only [durationSince]; omega
      simp only [MemoryStore.fixedWindowBody, WindowState.acquire, Option.map_some,
        Option.getD_some, WindowState.roll, hroll, if_false, WindowState.increment]
      split_ifs
      · simp only [Prod.mk.injEq, true_and]; omega
      · rfl
    rw [hfresh, hsome, fixedWindow_decide _ (by simp), fixedWindow_decide _
      (by split_ifs <;> simp)] at hdec
    exact second_ne_first (Except.ok.inj hdec).symm
  · intro h evs _ hord hcap
    exact (fixedWindow_fading maxRequests h).trace_filter (fixedWindowView _ _).actsBy_step rfl rfl
      hord hcap

end

section
variable {capacity : ℕ} {refillRate : ℚ}

theorem tokenBucket_decide_allowed (remaining : ℕ) :
    (tokenBucketView capacity refillRate).decide 0 (true, remaining) = .ok (true, remaining) := rfl

theorem tokenBucket_decide_denied (remaining remaining' : ℕ) :
    (tokenBucketView capacity refillRate).decide 0 (false, remaining) ≠ .ok (true, remaining') := by
  simp only [MapView.decide, tokenBucketView, RateLimiter.tokenBucketResult, sinceEpoch, le_refl,
    if_true, Bool.false_eq_true, if_false]
  split_ifs
  · split <;> simp [Except.map, RateLimitCheckResult.deny, RateLimitCheckResult.decision]
  · simp [Except.map, RateLimitCheckResult.deny, RateLimitCheckResult.decision]

/-- Checks at one moment take the tokens one by one. -/
theorem tokenBucket_drained (hr : 0 < refillRate) (key : String) {n : ℕ} (hn : n < capacity) :
    let s := run (MemoryStore.step (.tokenBucket capacity refillRate)) .new
      (List.replicate (n + 1) (checkAt key 0))
    s.tokenBuckets.lookup key = some ⟨capacity - (n + 1 : ℕ), 0⟩ ∧
      s.idleTtl = MemoryStore.defaultIdleTtl := by
  have hstep : ∀ s : MemoryStore ℚ, (MemoryStore.step (.tokenBucket capacity refillRate)
      (checkAt key 0) s).2.tokenBuckets.lookup key =
        some (BucketState.acquire capacity refillRate 0 0 (s.tokenBuckets.lookup key)).2 :=
    fun s => AList.lookup_insert _
  induction n with
  | zero =>
    refine ⟨?_, rfl⟩
    rw [List.replicate_one, run_cons, run_nil, hstep, BucketState.acquire_rat hr.le]
    have hcap : (1 : ℚ) ≤ capacity := by exact_mod_cast hn
    simp [BucketState.level, hcap, MemoryStore.new]
  | succ n ih =>
    obtain ⟨hlook, httl⟩ := ih (by omega)
    rw [List.replicate_succ', run_append, run_cons, run_nil]
    refine ⟨?_, httl⟩
    have hlevel : BucketState.level capacity refillRate 0
        (some ⟨capacity - (n + 1 : ℕ), 0⟩) = capacity - (n + 1 : ℕ) := by
      have hle : (0 : ℚ) ≤ (n + 1 : ℕ) := Nat.cast_nonneg _
      simp only [BucketState.level, durationSince_self, Duration.secs, Nat.cast_zero, zero_div,
        zero_mul, add_zero]
      exact min_eq_left (by linarith)
    have hone : (1 : ℚ) ≤ capacity - (n + 1 : ℕ) := by
      have : ((n + 1 : ℕ) : ℚ) + 1 ≤ capacity := by exact_mod_cast hn
      linarith
    rw [hstep, hlook, BucketState.acquire_rat hr.le, hlevel, if_pos hone]
    simp only [Option.some.injEq, BucketState.mk.injEq, and_true]
    push_cast; ring

theorem tokenBucket_pruneInvisible_iff (hcap : 0 < capacity) (hrange : capacity ≤ u64Max)
    (hr : 0 < refillRate) :
    PruneInvisible (.tokenBucket capacity refillRate) .new ↔
      capacity ≤ Duration.secs MemoryStore.defaultIdleTtl * refillRate := by
  constructor
  · intro h
    by_contra hslow
    have hslow := not_le.mp hslow
    obtain ⟨now, hnow⟩ : ∃ now : ℤ, now = MemoryStore.defaultIdleTtl := ⟨_, rfl⟩
    have hd : durationSince now 0 = MemoryStore.defaultIdleTtl := by
      simp only [durationSince]; omega
    obtain ⟨n, rfl⟩ : ∃ n, capacity = n + 1 := ⟨capacity - 1, by omega⟩
    obtain ⟨hlook, httl⟩ := tokenBucket_drained hr "client" (Nat.lt_add_one n)
    rw [sub_self] at hlook
    have hle : 0 ≤ now := by omega
    have hdec := h.decide_eq (tokenBucketView (n + 1) refillRate) "client" hle rfl hlook httl
      (not_keep_iff.mpr hd.ge)
    -- what has been refilled is less than the capacity
    have hlevel : BucketState.level (n + 1) refillRate now (some ⟨0, 0⟩) < (n + 1 : ℕ) := by
      simp only [BucketState.level, hd, zero_add]
      exact min_lt_of_left_lt hslow
    have hfull : (1 : ℚ) ≤ (n + 1 : ℕ) := by exact_mod_cast Nat.le_add_left 1 n
    have hnone : (MemoryStore.tokenBucketBody (n + 1) refillRate now none).1 = (true, n) := by
      have hsub : ((n + 1 : ℕ) : ℚ) - 1 = (n : ℤ) := by push_cast; ring
      have hn : min n u64Max = n := Nat.min_eq_left (by omega)
      simp only [MemoryStore.tokenBucketBody, BucketState.acquire_rat hr.le, BucketState.level,
        hfull, if_true, hsub, F64.toU64_rat, Int.floor_intCast, Int.toNat_natCast, hn]
    rw [hnone, tokenBucket_decide_allowed, MemoryStore.tokenBucketBody,
      BucketState.acquire_rat hr.le] at hdec
    split_ifs at hdec with hone
    · rw [tokenBucket_decide_allowed, F64.toU64_rat] at hdec
      simp only [Except.ok.injEq, Prod.mk.injEq, true_and] at hdec
      have hfloor : ⌊BucketState.level (n + 1) refillRate now (some ⟨0, 0⟩) - 1⌋ < (n : ℤ) := by
        rw [Int.floor_lt]; push_cast at hlevel ⊢; linarith
      have hnonneg := Int.floor_nonneg.mpr (sub_nonneg.mpr hone)
      have hmin := Nat.min_le_left
        ⌊BucketState.level (n + 1) refillRate now (some ⟨0, 0⟩) - 1⌋.toNat u64Max
      omega
    · exact tokenBucket_decide_denied _ _ hdec.symm
  · intro h evs _ hord hcapAlong
    exact (tokenBucket_fading hr.le h).trace_filter (tokenBucketView _ _).actsBy_step rfl rfl hord
      hcapAlong

end

/-! ## Built limiters -/

section
variable {redisFeature : Bool} {connect : String → Except String Unit}

/-- **Pruning under the window algorithms.**  For a limiter that the builder
    makes over the memory store, the passes of the prune task go unnoticed if
    and only if the window ends before the default idle TTL (for the fixed
    window: not after it). -/
theorem build_pruneInvisible_window_iff {b : RateLimiterBuilder ν} {limiter : RateLimiter ν}
    {m : MemoryStore ν} (hb : b.build redisFeature connect = .ok limiter)
    (hm : limiter.store = .memory m) (hr : limiter.algorithm.InRange) :
    (∀ maxRequests window, limiter.algorithm = .slidingWindowLog maxRequests window →
      (PruneInvisible limiter.algorithm m ↔ window < Duration.fromSecs 300)) ∧
    (∀ maxRequests window, limiter.algorithm = .fixedWindow maxRequests window →
      (PruneInvisible limiter.algorithm m ↔ window ≤ Duration.fromSecs 300)) := by
  obtain ⟨hvalid, rfl⟩ := build_memory hb hm
  constructor
  · intro maxRequests window ha
    rw [ha] at hvalid hr ⊢
    exact slidingWindow_pruneInvisible_iff hvalid.1 hr.2
  · intro maxRequests window ha
    rw [ha] at hvalid ⊢
    exact fixedWindow_pruneInvisible_iff hvalid.1 hvalid.2

theorem build_pruneInvisible_minute_window :
    PruneInvisible (.slidingWindowLog 100 (Duration.fromSecs 60) : Algorithm ℚ) .new :=
  have hb := build_of_valid
    (show (RateLimiterBuilder.new.slidingWindow 100 (Duration.fromSecs 60) :
      RateLimiterBuilder ℚ).algorithm = some _ from rfl)
    ⟨by decide, by decide⟩ rfl false (fun _ => .ok ())
  ((build_pruneInvisible_window_iff hb rfl (by decide)).1 100 _ rfl).mpr (by decide)

/-- With a window of ten minutes a pass after five hands the client a fresh
    allowance. -/
theorem tenMinuteWindow_pruned :
    ∃ limiter : RateLimiter ℚ,
      (RateLimiterBuilder.new.slidingWindow 1 (Duration.fromSecs 600)).build false
        (fun _ => .ok ()) = .ok limiter ∧
      limiter.store = .memory .new ∧ ¬ PruneInvisible limiter.algorithm .new := by
  refine ⟨_, build_of_valid rfl (by exact ⟨by decide, by decide⟩) rfl _ _, rfl, ?_⟩
  intro h
  have hsame := h [checkAt "client" 600000000000, pruneAt 900000000000,
    checkAt "client" 900000000000] (by decide) (by simp [InOrder, Event.now, checkAt, pruneAt])
    ((MemoryStore.holdsOnly_new "client").along _ (by simp [checkAt, pruneAt]))
  exact absurd hsame (by decide)

/-- **Pruning under the token bucket**, over exact rationals: its passes go
    unnoticed if and only if a bucket refills within the default idle TTL. -/
theorem build_pruneInvisible_tokenBucket_iff {b : RateLimiterBuilder ℚ} {limiter : RateLimiter ℚ}
    {m : MemoryStore ℚ} (hb : b.build redisFeature connect = .ok limiter)
    (hm : limiter.store = .memory m) {capacity : ℕ} {refillRate : ℚ}
    (ha : limiter.algorithm = .tokenBucket capacity refillRate) (hr : limiter.algorithm.InRange) :
    PruneInvisible limiter.algorithm m ↔ capacity ≤ 300 * refillRate := by
  obtain ⟨hvalid, rfl⟩ := build_memory hb hm
  rw [ha] at hvalid hr ⊢
  have hrate : 0 < refillRate := not_le.mp (of_decide_eq_false hvalid.2.2)
  have hsecs : Duration.secs MemoryStore.defaultIdleTtl = 300 := by
    norm_num [Duration.secs, MemoryStore.defaultIdleTtl, Duration.fromSecs]
  rw [tokenBucket_pruneInvisible_iff hvalid.1 hr hrate, hsecs]

theorem build_pruneInvisible_fast_bucket :
    PruneInvisible (.tokenBucket 100 (10 : ℚ)) .new :=
  have hb := build_of_valid
    (show (RateLimiterBuilder.new.tokenBucket 100 10 : RateLimiterBuilder ℚ).algorithm = some _
      from rfl) ⟨by decide, rfl, by decide⟩ rfl false (fun _ => .ok ())
  (build_pruneInvisible_tokenBucket_iff hb rfl rfl (by decide)).mpr (by norm_num)

/-- A bucket of one token that takes a thousand seconds to refill is full again
    after a pass at five minutes. -/
theorem slowBucket_pruned :
    ∃ limiter : RateLimiter ℚ,
      (RateLimiterBuilder.new.tokenBucket 1 (1 / 1000)).build false
        (fun _ => .ok ()) = .ok limiter ∧
      limiter.store = .memory .new ∧ ¬ PruneInvisible limiter.algorithm .new := by
  refine ⟨_, build_of_valid rfl (by exact ⟨by decide, rfl, by decide +kernel⟩) rfl _ _, rfl,
    fun h => ?_⟩
  have hsame := h [checkAt "client" 0, pruneAt 300000000000, checkAt "client" 300000000000]
    (by decide) (by simp [InOrder, Event.now, checkAt, pruneAt])
    ((MemoryStore.holdsOnly_new "client").along _ (by simp [checkAt, pruneAt]))
  exact absurd hsame (by decide +kernel)

end

end ArmatureRatelimit
