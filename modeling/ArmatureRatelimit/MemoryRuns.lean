/-
  Runs of a limiter over the memory store: checks of any keys, resets, and the
  passes of the prune task, which calls `MemoryStore::cleanup` again and again
  (`PruneTask` in `lib.rs`).

  The three maps of the store are alike: under one algorithm a check accesses
  one entry of one map.  A `MapView` says which map that is and what happens to
  the entry; the proofs about all algorithms are written over it.
-/
import ArmatureRatelimit.Config
import ArmatureRatelimit.Operations

open Lib

namespace ArmatureRatelimit

/-! ## Events -/

inductive Action
  | check (key : String)
  | reset (key : String)
  | prune

/-- Something that happens to a limiter, with what it reads: the clock of the
    store, the order in which its maps iterate, and the system clock. -/
structure Event where
  env : MemoryEnv
  unix : ℤ
  action : Action

def Event.now (e : Event) : ℤ := e.env.now

def Event.isPrune (e : Event) : Bool :=
  match e.action with
  | .prune => true
  | _ => false

def Event.isCheck (e : Event) : Bool :=
  match e.action with
  | .check _ => true
  | _ => false

/-- What the caller sees: `(allowed, remaining)` of a check, or its failure. -/
inductive Reply
  | decision (result : Outcome (Bool × ℕ))
  | done
  deriving DecidableEq

/-- The part of a result that decides the request. -/
def RateLimitCheckResult.decision (r : RateLimitCheckResult) : Bool × ℕ := (r.allowed, r.remaining)

namespace MemoryStore

variable {ν : Type} [F64 ν]

def step (algorithm : Algorithm ν) (e : Event) (s : MemoryStore ν) : Reply × MemoryStore ν :=
  match e.action with
  | .check key =>
    let r := RateLimiter.check backend e.env e.unix key algorithm s
    (.decision (r.1.map RateLimitCheckResult.decision), r.2)
  | .reset key => (.done, s.reset key)
  | .prune => (.done, s.cleanup e.env)

/-- The replies to all events but the passes of the prune task. -/
def replies (algorithm : Algorithm ν) (s : MemoryStore ν) (evs : List Event) : List Reply :=
  trace (step algorithm) (fun e => !e.isPrune) s evs

/-- The same events on the store itself, which is asked without a limiter. -/
def storeStep (algorithm : Algorithm ν) (e : Event) (s : MemoryStore ν) : Reply × MemoryStore ν :=
  match e.action with
  | .check key =>
    let r := checkWith algorithm e.env key s
    (.decision r.1, r.2)
  | .reset key => (.done, s.reset key)
  | .prune => (.done, s.cleanup e.env)

def storeReplies (algorithm : Algorithm ν) (s : MemoryStore ν) (evs : List Event) : List Reply :=
  trace (storeStep algorithm) (fun e => !e.isPrune) s evs

omit [F64 ν] in
/-- No map holds more entries than the cap. -/
def WithinCap (s : MemoryStore ν) : Prop :=
  ∀ max, s.maxKeys = some max →
    s.tokenBuckets.size ≤ max ∧ s.slidingLogs.size ≤ max ∧ s.fixedWindows.size ≤ max

end MemoryStore

/-- The events happen under a clock that does not run backwards. -/
def InOrder (evs : List Event) : Prop := evs.Pairwise fun e e' => e.now ≤ e'.now

/-- No run of checks from `s` tells whether the prune task runs: as long as the
    maps stay within the cap, its passes can be deleted. -/
def PruneInvisible {ν : Type} [F64 ν] (algorithm : Algorithm ν) (s : MemoryStore ν) : Prop :=
  ∀ evs : List Event, (∀ e ∈ evs, e.isCheck = true ∨ e.isPrune = true) → InOrder evs →
    Along (MemoryStore.step algorithm) MemoryStore.WithinCap s evs →
    MemoryStore.replies algorithm s evs =
      MemoryStore.replies algorithm s (evs.filter fun e => !e.isPrune)

theorem MemoryStore.maps_empty {ν : Type} {s : MemoryStore ν} (h : s.keyCount = 0) :
    s.tokenBuckets = ∅ ∧ s.slidingLogs = ∅ ∧ s.fixedWindows = ∅ := by
  simp only [MemoryStore.keyCount, Nat.add_eq_zero_iff] at h
  exact ⟨KeyMap.eq_empty_of_size h.1.1, KeyMap.eq_empty_of_size h.1.2,
    KeyMap.eq_empty_of_size h.2⟩

/-! ## Cleanup below the cap -/

section
variable {ν : Type}

theorem capOldest_of_le {β : Type} (order : IterOrder) (stamp : β → Option ℤ) {max : ℕ}
    {m : KeyMap String β} (h : m.size ≤ max) : MemoryStore.capOldest order stamp max m = m := by
  simp only [MemoryStore.capOldest, h, if_true]

theorem evictIdle_withinCap (now : ℤ) {s : MemoryStore ν} (h : s.WithinCap) :
    (s.evictIdle now).WithinCap := fun max hmax =>
  have ⟨h1, h2, h3⟩ := h max hmax
  ⟨(KeyMap.size_retain_le _ _).trans h1, (KeyMap.size_retain_le _ _).trans h2,
    (KeyMap.size_retain_le _ _).trans h3⟩

/-- Below the cap `cleanup` only drops idle entries. -/
theorem cleanup_eq_evictIdle (env : MemoryEnv) {s : MemoryStore ν} (h : s.WithinCap) :
    s.cleanup env = s.evictIdle env.now := by
  have hcap := evictIdle_withinCap env.now h
  simp only [MemoryStore.cleanup]
  cases hmax : (s.evictIdle env.now).maxKeys with
  | none => rfl
  | some max =>
    obtain ⟨h1, h2, h3⟩ := hcap max hmax
    simp only [MemoryStore.capTokenBuckets, MemoryStore.capSlidingLogs,
      MemoryStore.capFixedWindows, capOldest_of_le _ _ h1, capOldest_of_le _ _ h2,
      capOldest_of_le _ _ h3]

end

/-! ## Runs on one key -/

section
variable {ν : Type} [F64 ν]

omit [F64 ν] in
/-- The maps hold no other key, and the cap leaves room for one. -/
structure MemoryStore.HoldsOnly (key : String) (s : MemoryStore ν) : Prop where
  room : ∀ max, s.maxKeys = some max → 1 ≤ max
  tokenBuckets : ∀ k ≠ key, s.tokenBuckets.lookup k = none
  slidingLogs : ∀ k ≠ key, s.slidingLogs.lookup k = none
  fixedWindows : ∀ k ≠ key, s.fixedWindows.lookup k = none

theorem size_le_one {β : Type} {m : KeyMap String β} {key : String}
    (h : ∀ k ≠ key, m.lookup k = none) : m.size ≤ 1 := by
  have hsub : m.keys ⊆ [key] := by
    intro k hk
    by_contra hne
    have hnone := h k (fun he => hne (by simp [he]))
    rw [AList.lookup_eq_none] at hnone
    exact hnone (AList.mem_keys.mpr hk)
  have hlen := (m.keys_nodup.subperm hsub).length_le
  simpa [AList.keys, List.keys, KeyMap.size] using hlen

omit [F64 ν] in
theorem MemoryStore.HoldsOnly.withinCap {key : String} {s : MemoryStore ν}
    (h : s.HoldsOnly key) : s.WithinCap := fun max hmax =>
  have hroom := h.room max hmax
  ⟨(size_le_one h.tokenBuckets).trans hroom, (size_le_one h.slidingLogs).trans hroom,
    (size_le_one h.fixedWindows).trans hroom⟩

theorem access_lookup_none {β ω : Type} {m : KeyMap String β} {key : String}
    (h : ∀ k ≠ key, m.lookup k = none) (body : Option β → ω × β) :
    ∀ k ≠ key, (m.access body key).2.lookup k = none := fun k hk => by
  rw [KeyMap.access_lookup_ne body hk]; exact h k hk

theorem retain_lookup_none {β : Type} {m : KeyMap String β} {key : String}
    (h : ∀ k ≠ key, m.lookup k = none) (p : β → Bool) :
    ∀ k ≠ key, (m.retain p).lookup k = none := fun k hk => by
  rw [KeyMap.lookup_retain, h k hk]; rfl

theorem MemoryStore.HoldsOnly.check {key : String} {s : MemoryStore ν} (h : s.HoldsOnly key)
    (algorithm : Algorithm ν) (env : MemoryEnv) (unix : ℤ) :
    (RateLimiter.check backend env unix key algorithm s).2.HoldsOnly key := by
  cases algorithm with
  | tokenBucket capacity refillRate =>
    exact ⟨h.room, access_lookup_none h.tokenBuckets _, h.slidingLogs, h.fixedWindows⟩
  | slidingWindowLog maxRequests window =>
    simp only [RateLimiter.check, RateLimiter.checkSlidingWindow, RateLimiter.answer, backend]
    rcases s.slidingWindowCheck_cases key maxRequests window env.now with
      ⟨-, heq⟩ | ⟨cutoff, -, heq⟩
    · rw [heq]
      exact h
    · rw [heq]
      exact ⟨h.room, h.tokenBuckets, access_lookup_none h.slidingLogs _, h.fixedWindows⟩
  | fixedWindow maxRequests window =>
    exact ⟨h.room, h.tokenBuckets, h.slidingLogs, access_lookup_none h.fixedWindows _⟩

omit [F64 ν] in
theorem MemoryStore.HoldsOnly.cleanup {key : String} {s : MemoryStore ν} (h : s.HoldsOnly key)
    (env : MemoryEnv) : (s.cleanup env).HoldsOnly key := by
  rw [cleanup_eq_evictIdle env h.withinCap]
  exact ⟨h.room, retain_lookup_none h.tokenBuckets _, retain_lookup_none h.slidingLogs _,
    retain_lookup_none h.fixedWindows _⟩

/-- A run of checks of one key and of passes stays within the cap. -/
theorem MemoryStore.HoldsOnly.along {key : String} {s : MemoryStore ν} (h : s.HoldsOnly key)
    (algorithm : Algorithm ν) {evs : List Event}
    (hevs : ∀ e ∈ evs, e.action = .check key ∨ e.action = .prune) :
    Along (step algorithm) WithinCap s evs := by
  refine along_of_inv h (fun _ => HoldsOnly.withinCap) ?_
  intro e he s hs
  rcases hevs e he with ha | ha <;> simp only [step, ha]
  · exact hs.check algorithm e.env e.unix
  · exact hs.cleanup e.env

omit [F64 ν] in
theorem MemoryStore.holdsOnly_new (key : String) : (new : MemoryStore ν).HoldsOnly key where
  room max hmax := by obtain rfl := Option.some.inj hmax; decide
  tokenBuckets _ _ := rfl
  slidingLogs _ _ := rfl
  fixedWindows _ _ := rfl

end

/-! ## Views -/

section
variable {ν : Type} [F64 ν]

/-- How checks under one algorithm act on the store: on one map (`get`, `set`),
    by a body that runs on the entry of the key (`none`: the check panics
    before), whose answer is made a result. -/
structure MapView (algorithm : Algorithm ν) (β : Type) where
  get : MemoryStore ν → KeyMap String β
  set : KeyMap String β → MemoryStore ν → MemoryStore ν
  body : ℤ → Option (Option β → (Bool × ℕ) × β)
  result : ℤ → Bool × ℕ → Outcome RateLimitCheckResult
  /-- which entries `cleanup` keeps -/
  keep : (idleTtl : ℕ) → (now : ℤ) → β → Bool
  get_set : ∀ m s, get (set m s) = m
  idleTtl_set : ∀ m s, (set m s).idleTtl = s.idleTtl
  get_reset : ∀ key s, get (MemoryStore.reset key s) = (get s).erase key
  get_evictIdle : ∀ now s, get (MemoryStore.evictIdle now s) = (get s).retain (keep s.idleTtl now)
  check_eq : ∀ env unix key s,
    RateLimiter.check MemoryStore.backend env unix key algorithm s =
      match body env.now with
      | none => (.error .panic, s)
      | some b => (result unix (b ((get s).lookup key)).1, set ((get s).access b key).2 s)

def tokenBucketView (capacity : ℕ) (refillRate : ν) :
    MapView (.tokenBucket capacity refillRate) (TokenBucketState ν) where
  get s := s.tokenBuckets
  set m s := { s with tokenBuckets := m }
  body now := some (MemoryStore.tokenBucketBody capacity refillRate now)
  result := RateLimiter.tokenBucketResult capacity refillRate
  keep idleTtl now s := !MemoryStore.isIdle idleTtl now s.lastRefill
  get_set _ _ := rfl
  idleTtl_set _ _ := rfl
  get_reset _ _ := rfl
  get_evictIdle _ _ := rfl
  check_eq _ _ _ _ := rfl

def slidingWindowView (maxRequests window : ℕ) :
    MapView (.slidingWindowLog maxRequests window : Algorithm ν) SlidingWindowState where
  get s := s.slidingLogs
  set m s := { s with slidingLogs := m }
  body now := (instantSub now window).map (MemoryStore.slidingWindowBody maxRequests window now)
  result := RateLimiter.slidingWindowResult maxRequests window
  keep := MemoryStore.keepLog
  get_set _ _ := rfl
  idleTtl_set _ _ := rfl
  get_reset _ _ := rfl
  get_evictIdle _ _ := rfl
  check_eq env unix key s := by
    simp only [RateLimiter.check, RateLimiter.checkSlidingWindow, MemoryStore.backend,
      MemoryStore.slidingWindowCheck]
    cases instantSub env.now window <;> rfl

def fixedWindowView (maxRequests window : ℕ) :
    MapView (.fixedWindow maxRequests window : Algorithm ν) FixedWindowState where
  get s := s.fixedWindows
  set m s := { s with fixedWindows := m }
  body now := some (MemoryStore.fixedWindowBody maxRequests window now)
  result := RateLimiter.fixedWindowResult maxRequests window
  keep idleTtl now s := !MemoryStore.isIdle idleTtl now s.windowStart
  get_set _ _ := rfl
  idleTtl_set _ _ := rfl
  get_reset _ _ := rfl
  get_evictIdle _ _ := rfl
  check_eq _ _ _ _ := rfl

/-- The checks of the store itself act by the body of the view. -/
def MapView.ActsOnStore {algorithm : Algorithm ν} {β : Type} (view : MapView algorithm β) : Prop :=
  ∀ env key s, MemoryStore.checkWith algorithm env key s =
    match view.body env.now with
    | none => (.error .panic, s)
    | some b => (.ok (b ((view.get s).lookup key)).1, view.set ((view.get s).access b key).2 s)

theorem tokenBucketView_actsOnStore (capacity : ℕ) (refillRate : ν) :
    (tokenBucketView capacity refillRate).ActsOnStore := fun _ _ _ => rfl

theorem slidingWindowView_actsOnStore (maxRequests window : ℕ) :
    (slidingWindowView (ν := ν) maxRequests window).ActsOnStore := by
  intro env key s
  unfold MemoryStore.checkWith MemoryStore.backend MemoryStore.slidingWindowCheck slidingWindowView
  simp only
  cases instantSub env.now window <;> rfl

theorem fixedWindowView_actsOnStore (maxRequests window : ℕ) :
    (fixedWindowView (ν := ν) maxRequests window).ActsOnStore := fun _ _ _ => rfl

/-- A step over the events checks by the body of the view, whose answer it makes
    a reply, and resets and cleans up as the store does. -/
structure MapView.ActsBy {algorithm : Algorithm ν} {β : Type} (view : MapView algorithm β)
    (step : Event → MemoryStore ν → Reply × MemoryStore ν) (answer : ℤ → Bool × ℕ → Reply) :
    Prop where
  check_eq : ∀ env unix key s, step ⟨env, unix, .check key⟩ s =
    match view.body env.now with
    | none => (.decision (.error .panic), s)
    | some b =>
      (answer unix (b ((view.get s).lookup key)).1, view.set ((view.get s).access b key).2 s)
  reset_eq : ∀ env unix key s, step ⟨env, unix, .reset key⟩ s = (.done, s.reset key)
  prune_eq : ∀ env unix s, step ⟨env, unix, .prune⟩ s = (.done, s.cleanup env)

/-- The limiter over the store. -/
theorem MapView.actsBy_step {algorithm : Algorithm ν} {β : Type} (view : MapView algorithm β) :
    view.ActsBy (MemoryStore.step algorithm) fun unix d =>
      .decision ((view.result unix d).map RateLimitCheckResult.decision) where
  check_eq env unix key s := by
    simp only [MemoryStore.step, view.check_eq]
    cases view.body env.now <;> rfl
  reset_eq _ _ _ _ := rfl
  prune_eq _ _ _ := rfl

/-- The store that is asked without a limiter. -/
theorem MapView.ActsOnStore.actsBy_storeStep {algorithm : Algorithm ν} {β : Type}
    {view : MapView algorithm β} (h : view.ActsOnStore) :
    view.ActsBy (MemoryStore.storeStep algorithm) fun _ d => .decision (.ok d) where
  check_eq env _ key s := by
    simp only [MemoryStore.storeStep, h env key s]
    cases view.body env.now <;> rfl
  reset_eq _ _ _ _ := rfl
  prune_eq _ _ _ := rfl

/-- The event is a check or a reset of another key. -/
def Event.Spares (key : String) (e : Event) : Prop :=
  match e.action with
  | .check k | .reset k => k ≠ key
  | .prune => False

/-- **Frame.**  Events on other keys leave the entry of a key as it is. -/
theorem lookup_run_of_spares {algorithm : Algorithm ν} {β : Type} (view : MapView algorithm β)
    {key : String} {evs : List Event} (h : ∀ e ∈ evs, e.Spares key) (s : MemoryStore ν) :
    (view.get (run (MemoryStore.step algorithm) s evs)).lookup key =
      (view.get s).lookup key := by
  refine run_inv (P := fun s' => (view.get s').lookup key = (view.get s).lookup key) rfl
    fun e he s' hs' => ?_
  obtain ⟨env, unix, action⟩ := e
  have hspare := h _ he
  cases action with
  | check k =>
    have hk : key ≠ k := Ne.symm hspare
    simp only [MemoryStore.step, view.check_eq]
    cases view.body env.now with
    | none => exact hs'
    | some b => rw [view.get_set, KeyMap.access_lookup_ne b hk]; exact hs'
  | reset k =>
    have hk : key ≠ k := Ne.symm hspare
    simp only [MemoryStore.step]
    rw [view.get_reset, AList.lookup_erase_ne hk]; exact hs'
  | prune => exact absurd hspare id

/-! ### Invariants of entries -/

omit [F64 ν] in
/-- What the cap leaves was there. -/
theorem lookup_capOldest {β : Type} {order : IterOrder} {stamp : β → Option ℤ} {max : ℕ}
    {m : KeyMap String β} {key : String} {x : β}
    (h : (MemoryStore.capOldest order stamp max m).lookup key = some x) :
    m.lookup key = some x := by
  unfold MemoryStore.capOldest at h
  split at h
  · exact h
  · rw [KeyMap.lookup_removeAll] at h
    split at h
    · cases h
    · exact h

omit [F64 ν] in
theorem lookup_of_retain {β : Type} {p : β → Bool} {m : KeyMap String β} {key : String} {x : β}
    (h : (m.retain p).lookup key = some x) : m.lookup key = some x := by
  rw [KeyMap.lookup_retain, Option.filter_eq_some_iff] at h
  exact h.1

/-- A cleanup leaves the entries that it keeps as they are. -/
def MapView.KeepsEntries {algorithm : Algorithm ν} {β : Type} (view : MapView algorithm β) :
    Prop :=
  ∀ env s key x, (view.get (s.cleanup env)).lookup key = some x →
    (view.get s).lookup key = some x

omit [F64 ν] in
/-- What a cleanup leaves of the three maps was there. -/
theorem lookup_cleanup (env : MemoryEnv) (s : MemoryStore ν) (key : String) :
    (∀ x, (s.cleanup env).tokenBuckets.lookup key = some x → s.tokenBuckets.lookup key = some x) ∧
      (∀ x, (s.cleanup env).slidingLogs.lookup key = some x →
        s.slidingLogs.lookup key = some x) ∧
      ∀ x, (s.cleanup env).fixedWindows.lookup key = some x →
        s.fixedWindows.lookup key = some x := by
  simp only [MemoryStore.cleanup]
  cases (s.evictIdle env.now).maxKeys with
  | none => exact ⟨fun _ => lookup_of_retain, fun _ => lookup_of_retain, fun _ => lookup_of_retain⟩
  | some max =>
    refine ⟨fun x hx => ?_, fun x hx => ?_, fun x hx => ?_⟩
    · have hcap : (s.evictIdle env.now).tokenBuckets.lookup key = some x := lookup_capOldest hx
      exact lookup_of_retain hcap
    · have hcap : (s.evictIdle env.now).slidingLogs.lookup key = some x := lookup_capOldest hx
      exact lookup_of_retain hcap
    · have hcap : (s.evictIdle env.now).fixedWindows.lookup key = some x := lookup_capOldest hx
      exact lookup_of_retain hcap

theorem tokenBucketView_keepsEntries (capacity : ℕ) (refillRate : ν) :
    (tokenBucketView capacity refillRate).KeepsEntries :=
  fun env s key => (lookup_cleanup env s key).1

theorem slidingWindowView_keepsEntries (maxRequests window : ℕ) :
    (slidingWindowView (ν := ν) maxRequests window).KeepsEntries :=
  fun env s key => (lookup_cleanup env s key).2.1

/-- **The entry rule.**  What the body of a check establishes, from an entry that
    has it or none, is had by every entry at the end of a run from no entries. -/
theorem MapView.entry_inv {algorithm : Algorithm ν} {β : Type} (view : MapView algorithm β)
    (hkeeps : view.KeepsEntries) {P : β → Prop} {evs : List Event}
    (hbody : ∀ ev ∈ evs, ∀ b e, view.body ev.now = some b → (∀ x, e = some x → P x) → P (b e).2)
    {s : MemoryStore ν} (hempty : view.get s = ∅) (key : String) (x : β)
    (hx : (view.get (run (MemoryStore.step algorithm) s evs)).lookup key = some x) : P x := by
  have h0 : ∀ key x, (view.get s).lookup key = some x → P x := by
    intro key x h
    rw [hempty] at h
    cases h
  refine run_inv (P := fun s' => ∀ key x, (view.get s').lookup key = some x → P x) h0
    (fun ev hev s' hs' => ?_) key x hx
  obtain ⟨env, unix, action⟩ := ev
  cases action with
  | check k =>
    simp only [MemoryStore.step, view.check_eq]
    cases hb : view.body env.now with
    | none => exact hs'
    | some b =>
      intro key' x' hx'
      rw [view.get_set] at hx'
      by_cases hk : key' = k
      · subst hk
        rw [KeyMap.access_lookup_self] at hx'
        obtain rfl := Option.some.inj hx'
        exact hbody _ hev b _ hb (hs' key')
      · rw [KeyMap.access_lookup_ne b hk] at hx'
        exact hs' key' x' hx'
  | reset k =>
    intro key' x' hx'
    simp only [MemoryStore.step, view.get_reset, KeyMap.lookup_erase_eq_ite] at hx'
    split at hx'
    · cases hx'
    · exact hs' key' x' hx'
  | prune => exact fun key' x' hx' => hs' key' x' (hkeeps _ _ _ _ hx')

end

end ArmatureRatelimit
