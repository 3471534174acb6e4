/-
  A denied check costs nothing, at the memory store (`stores/memory.rs`).

  Two entries are alike from `t` on if no later check tells them apart.  A denied
  check may write its entry, a bucket its refill and a log without its old
  front, but leaves one that is alike (`Frugal`).  So denied checks can be
  deleted from a run, and what is left gets the same replies
  (`Frugal.trace_eq`).
-/
import ArmatureRatelimit.Proof.Accounting
import ArmatureRatelimit.Proof.Prune
import ArmatureRatelimit.Proof.Standalone

open Lib

namespace ArmatureRatelimit

/-- The reply denies a request. -/
def Reply.isDenial : Reply → Bool
  | .decision (.ok (allowed, _)) => !allowed
  | _ => false

/-! ## Entries -/

section
variable {ν : Type} [F64 ν] {algorithm : Algorithm ν} {β : Type}

/-- What a denied check leaves is alike what it found, and a check makes like
    entries of like ones. -/
structure Frugal (view : MapView algorithm β) (alike : ℤ → Option β → Option β → Prop) :
    Prop where
  mono : ∀ {t u e e'}, t ≤ u → alike t e e' → alike u e e'
  missing : ∀ t, alike t none none
  check : ∀ {now b e e'}, view.body now = some b → alike now e e' →
    (b e).1 = (b e').1 ∧ alike now (some (b e).2) (some (b e').2)
  denied : ∀ {now b e e'}, view.body now = some b → alike now e e' → (b e).1.1 = false →
    alike now (some (b e).2) e'
  reports : view.result = RateLimiter.resultOf algorithm

/-- Stores with like entries. -/
def AlikeStores (view : MapView algorithm β) (alike : ℤ → Option β → Option β → Prop) (t : ℤ)
    (s s' : MemoryStore ν) : Prop :=
  ∀ key, alike t ((view.get s).lookup key) ((view.get s').lookup key)

variable {view : MapView algorithm β} {alike : ℤ → Option β → Option β → Prop}

theorem AlikeStores.check (hf : Frugal view alike) {env : MemoryEnv} {s s' : MemoryStore ν}
    (h : AlikeStores view alike env.now s s') (unix : ℤ) (key : String) :
    (RateLimiter.check MemoryStore.backend env unix key algorithm s).1 =
        (RateLimiter.check MemoryStore.backend env unix key algorithm s').1 ∧
      AlikeStores view alike env.now
        (RateLimiter.check MemoryStore.backend env unix key algorithm s).2
        (RateLimiter.check MemoryStore.backend env unix key algorithm s').2 := by
  rw [view.check_eq, view.check_eq]
  cases hb : view.body env.now with
  | none => exact ⟨rfl, h⟩
  | some b =>
    obtain ⟨hreply, hentry⟩ := hf.check hb (h key)
    refine ⟨by simp only [hreply], ?_⟩
    intro k
    simp only [view.get_set]
    by_cases hk : k = key
    · subst hk
      rw [KeyMap.access_lookup_self, KeyMap.access_lookup_self]
      exact hentry
    · rw [KeyMap.access_lookup_ne b hk, KeyMap.access_lookup_ne b hk]
      exact h k

theorem AlikeStores.denied (hf : Frugal view alike) {env : MemoryEnv} {s s' : MemoryStore ν}
    (h : AlikeStores view alike env.now s s') {unix : ℤ} {key : String}
    (hdenied : (MemoryStore.step algorithm ⟨env, unix, .check key⟩ s).1.isDenial = true) :
    AlikeStores view alike env.now
      (MemoryStore.step algorithm ⟨env, unix, .check key⟩ s).2 s' := by
  simp only [MemoryStore.step, view.check_eq] at hdenied ⊢
  cases hb : view.body env.now with
  | none =>
    rw [hb] at hdenied
    cases hdenied
  | some b =>
    simp only [hb] at hdenied ⊢
    have hsays := RateLimiter.resultOf_says algorithm unix (b ((view.get s).lookup key)).1
    rw [← hf.reports] at hsays
    have hfalse : (b ((view.get s).lookup key)).1.1 = false := by
      cases hresult : view.result unix (b ((view.get s).lookup key)).1 with
      | error failure =>
        rw [hresult] at hdenied
        cases hdenied
      | ok result =>
        rw [hresult] at hdenied hsays
        have hallowed : result.allowed = false := by
          simpa [Reply.isDenial, RateLimitCheckResult.decision, Except.map] using hdenied
        exact (show result.allowed = _ from hsays).symm.trans hallowed
    intro k
    rw [view.get_set]
    by_cases hk : k = key
    · subst hk
      rw [KeyMap.access_lookup_self]
      exact hf.denied hb (h k) hfalse
    · rw [KeyMap.access_lookup_ne b hk]
      exact h k

theorem AlikeStores.reset (hf : Frugal view alike) {t : ℤ} {s s' : MemoryStore ν}
    (h : AlikeStores view alike t s s') (key : String) :
    AlikeStores view alike t (s.reset key) (s'.reset key) := by
  intro k
  rw [view.get_reset, view.get_reset, KeyMap.lookup_erase_eq_ite, KeyMap.lookup_erase_eq_ite]
  split_ifs
  · exact hf.missing t
  · exact h k

/-! ## Runs -/

/-- An event, and whether it is kept. -/
abbrev MarkedEvent := Event × Bool

def markedStep (algorithm : Algorithm ν) (e : MarkedEvent) (s : MemoryStore ν) :
    Reply × MemoryStore ν :=
  MemoryStore.step algorithm e.1 s

/-- The event is kept, or it is a check that is denied. -/
def DropsDenials (algorithm : Algorithm ν) (e : MarkedEvent) (s : MemoryStore ν) : Prop :=
  e.2 = true ∨ (markedStep algorithm e s).1.isDenial = true

/-- Without the denied checks that are dropped the others get the same replies. -/
theorem Frugal.sim (hf : Frugal view alike) :
    Sim (markedStep algorithm) (markedStep algorithm) Prod.snd (fun e => e.1.now)
      (fun e s => e.1.isPrune = false ∧ DropsDenials algorithm e s)
      (AlikeStores view alike) where
  mono htu h key := hf.mono htu (h key)
  visible_step {e s s'} _ hok h := by
    obtain ⟨⟨env, unix, action⟩, kept⟩ := e
    cases action with
    | check key =>
      obtain ⟨hout, hrel⟩ := AlikeStores.check hf h unix key
      exact ⟨by simp only [markedStep, MemoryStore.step, hout], hrel⟩
    | reset key => exact ⟨rfl, AlikeStores.reset hf h key⟩
    | prune => cases hok.1
  silent_step {e s s'} hv hok h := by
    obtain ⟨⟨env, unix, action⟩, kept⟩ := e
    obtain rfl : kept = false := hv
    rcases hok.2 with hkept | hdenied
    · cases hkept
    cases action with
    | check key => exact AlikeStores.denied hf h hdenied
    | reset key => cases hdenied
    | prune => cases hdenied

theorem Frugal.trace_eq (hf : Frugal view alike) {s : MemoryStore ν} (hempty : view.get s = ∅)
    {evs : List MarkedEvent} (hord : evs.Pairwise fun e e' => e.1.now ≤ e'.1.now)
    (hprune : ∀ e ∈ evs, e.1.isPrune = false)
    (hdrops : Allowed (markedStep algorithm) (DropsDenials algorithm) s evs) :
    trace (markedStep algorithm) Prod.snd s evs =
      outputs (markedStep algorithm) s (evs.filter Prod.snd) := by
  have hkept : trace (markedStep algorithm) Prod.snd s (evs.filter Prod.snd) =
      outputs (markedStep algorithm) s (evs.filter Prod.snd) :=
    trace_congr fun e he => (List.mem_filter.mp he).2
  rw [← hkept]
  cases evs with
  | nil => rfl
  | cons e evs =>
    have hfirst : ∀ i ∈ e :: evs, e.1.now ≤ i.1.now := by
      intro i hi
      rcases List.mem_cons.mp hi with rfl | hi
      · exact le_rfl
      · exact (List.pairwise_cons.mp hord).1 i hi
    refine hf.sim.trace_eq (hdrops.imp fun i hi _ h => ⟨hprune i hi, h⟩) hord hfirst ?_
    intro key
    rw [hempty]
    exact hf.missing e.1.now

end

/-! ## The algorithms -/

section
variable {ν : Type} [F64 ν] {maxRequests window : ℕ}

/-- The counters of two windows are the same. -/
theorem fixedWindow_frugal (hmax : 0 < maxRequests) :
    Frugal (fixedWindowView (ν := ν) maxRequests window) fun _ e e' =>
      e.map (·.toWindowState) = e'.map (·.toWindowState) where
  mono _ h := h
  missing _ := rfl
  check := by
    intro now b e e' hb h
    obtain rfl := Option.some.inj hb
    simp only [MemoryStore.fixedWindowBody, h]
    exact ⟨trivial, trivial⟩
  denied := by
    intro now b e e' hb h hdenied
    obtain rfl := Option.some.inj hb
    rw [← h]
    obtain ⟨state, hbody, hcases⟩ := MemoryStore.fixedWindowBody_cases maxRequests window now e
    rw [hbody] at hdenied ⊢
    rcases hcases with ⟨rfl, -⟩ | ⟨x, rfl, rfl, -⟩
    · -- a new window admits its first request
      simp only [WindowState.increment, hmax, if_true] at hdenied
      cases hdenied
    · simp only [WindowState.increment] at hdenied ⊢
      split_ifs at hdenied ⊢
      rfl
  reports := rfl

/-- Later checks find the same in the two logs. -/
theorem slidingWindow_frugal :
    Frugal (slidingWindowView (ν := ν) maxRequests window) fun t e e' =>
      SameLog window t (e.getD .empty).log (e'.getD .empty).log where
  mono := SameLog.mono
  missing _ _ _ := rfl
  check := by
    intro now b e e' hb h
    obtain ⟨cutoff, hcutoff, rfl⟩ := Option.map_eq_some_iff.mp hb
    obtain ⟨-, rfl⟩ := instantSub_some.mp hcutoff
    simp only [MemoryStore.slidingWindowBody, h now le_rfl, Option.getD_some]
    exact ⟨trivial, fun _ _ => rfl⟩
  denied := by
    intro now b e e' hb h hdenied
    obtain ⟨cutoff, hcutoff, rfl⟩ := Option.map_eq_some_iff.mp hb
    obtain ⟨-, rfl⟩ := instantSub_some.mp hcutoff
    simp only [MemoryStore.slidingWindowBody, recordRequest, Option.getD_some] at hdenied ⊢
    split_ifs at hdenied ⊢
    exact h.prune
  reports := rfl

end

section
variable {capacity : ℕ} {refillRate : ℚ}

/-- A refill in between changes no later level. -/
theorem level_refilled (hr : 0 ≤ refillRate) {e : Option (BucketState ℚ)} {now u : ℤ}
    (hlast : ∀ b, e = some b → b.lastRefill ≤ now) (hu : now ≤ u) :
    BucketState.level capacity refillRate u
        (some ⟨BucketState.level capacity refillRate now e, now⟩) =
      BucketState.level capacity refillRate u e := by
  have hrefill := mul_nonneg (span_nonneg hu) hr
  cases e with
  | none =>
    simp only [BucketState.level, secs_durationSince hu]
    exact min_eq_right (by linarith)
  | some b =>
    have hb := hlast b rfl
    have hsplit := span_add b.lastRefill now u
    simp only [BucketState.level, secs_durationSince hu, secs_durationSince hb,
      secs_durationSince (hb.trans hu), ← hsplit]
    rw [← min_add_add_right, min_assoc, add_mul, add_assoc]
    congr 1
    exact min_eq_right (by linarith)

/-- Two buckets have the same level from now on. -/
structure AlikeBuckets (capacity : ℕ) (refillRate : ℚ) (t : ℤ) (e e' : Option (BucketState ℚ)) :
    Prop where
  last : ∀ b, e = some b → b.lastRefill ≤ t
  level : ∀ u, t ≤ u →
    BucketState.level capacity refillRate u e = BucketState.level capacity refillRate u e'

theorem tokenBucket_frugal (hr : 0 ≤ refillRate) :
    Frugal (tokenBucketView capacity refillRate) (AlikeBuckets capacity refillRate) where
  mono htu h := ⟨fun b hb => (h.last b hb).trans htu, fun u hu => h.level u (htu.trans hu)⟩
  missing _ := ⟨nofun, fun _ _ => rfl⟩
  check := by
    intro now b e e' hb h
    obtain rfl := Option.some.inj hb
    simp only [MemoryStore.tokenBucketBody, BucketState.acquire_rat_fst hr,
      BucketState.acquire_rat_snd hr, h.level now le_rfl]
    refine ⟨trivial, ?_, fun _ _ => rfl⟩
    rintro b ⟨⟩
    exact le_rfl
  denied := by
    intro now b e e' hb h hdenied
    obtain rfl := Option.some.inj hb
    simp only [MemoryStore.tokenBucketBody, BucketState.acquire_rat_fst hr,
      BucketState.acquire_rat_snd hr] at hdenied ⊢
    split_ifs at hdenied ⊢
    refine ⟨?_, fun u hu => ?_⟩
    · rintro b ⟨⟩
      exact le_rfl
    · rw [level_refilled hr h.last hu, h.level u hu]
  reports := rfl

end

/-- **Denied checks cost nothing.**  Take a run of checks and resets, on a new
    store and in exact arithmetic, and mark some of the checks that are denied.
    Without them, the others get the same replies. -/
theorem denied_costNothing {algorithm : Algorithm ℚ} (hvalid : algorithm.Valid) {s : MemoryStore ℚ}
    (hempty : s.keyCount = 0) {evs : List MarkedEvent}
    (hord : evs.Pairwise fun e e' => e.1.now ≤ e'.1.now)
    (hprune : ∀ e ∈ evs, e.1.isPrune = false)
    (hdrops : Allowed (markedStep algorithm) (DropsDenials algorithm) s evs) :
    trace (markedStep algorithm) Prod.snd s evs =
      outputs (markedStep algorithm) s (evs.filter Prod.snd) := by
  obtain ⟨hbuckets, hlogs, hwindows⟩ := MemoryStore.maps_empty hempty
  cases algorithm with
  | tokenBucket capacity refillRate =>
    have hrate : 0 ≤ refillRate := (not_le.mp (of_decide_eq_false hvalid.2.2)).le
    exact (tokenBucket_frugal hrate).trace_eq hbuckets hord hprune hdrops
  | slidingWindowLog maxRequests window =>
    exact slidingWindow_frugal.trace_eq hlogs hord hprune hdrops
  | fixedWindow maxRequests window =>
    exact (fixedWindow_frugal hvalid.1).trace_eq hwindows hord hprune hdrops

/-- A client that tries again half a second after it has used the only token. -/
def retries : List MarkedEvent :=
  [(checkAt "client" 0, true), (checkAt "client" 500000000, false),
    (checkAt "client" 1000000000, true)]

theorem denied_costNothing_retry :
    trace (markedStep (.tokenBucket 1 (1 : ℚ))) Prod.snd .new retries =
      outputs (markedStep (.tokenBucket 1 (1 : ℚ))) .new
        [(checkAt "client" 0, true), (checkAt "client" 1000000000, true)] := by
  have hvalid : (Algorithm.tokenBucket 1 (1 : ℚ)).Valid := ⟨by decide, rfl, by decide +kernel⟩
  refine denied_costNothing hvalid rfl ?_ ?_ ?_
  · simp [retries, checkAt, Event.now]
  · simp [retries, checkAt, Event.isPrune]
  · exact ⟨.inl rfl, .inr (by decide +kernel), .inl rfl, trivial⟩

end ArmatureRatelimit
