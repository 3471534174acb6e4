/-
  Which keys the memory store holds, and how many.

  The prune task is there so that the store cannot grow without bound.  A clock
  reading in an entry is that of a check of its key (`Backed`), so what a pass
  leaves was checked less than the idle TTL ago, and no map has more entries then
  than the cap; a later call adds at most the key that it checks.

  `store_heldKeys`: at any time a map holds only keys that were checked since the
  last pass, or less than the idle TTL before it.
-/
import ArmatureRatelimit.Proof.CapActivity
import ArmatureRatelimit.Proof.KeyIsolation
import ArmatureRatelimit.Proof.LogOrder

open Lib

namespace ArmatureRatelimit

variable {ν : Type}

/-! ## Checked keys -/

/-- The key that a call checks, by an algorithm of this kind. -/
def StoreCall.checks (kind : Algorithm ν → Bool) (c : StoreCall ν) : Option String :=
  match c.op with
  | .check key algorithm => if kind algorithm then some key else none
  | _ => none

def checkedKeys (kind : Algorithm ν → Bool) (calls : List (StoreCall ν)) : Finset String :=
  (calls.filterMap (StoreCall.checks kind)).toFinset

/-- The keys that were checked less than `ttl` before `now`. -/
def recentKeys (kind : Algorithm ν → Bool) (ttl : ℕ) (now : ℤ) (calls : List (StoreCall ν)) :
    Finset String :=
  checkedKeys kind (calls.filter fun c => durationSince now c.env.now < ttl)

theorem mem_checkedKeys {kind : Algorithm ν → Bool} {calls : List (StoreCall ν)} {key : String} :
    key ∈ checkedKeys kind calls ↔ ∃ c ∈ calls, c.checks kind = some key := by
  simp [checkedKeys]

theorem mem_recentKeys {kind : Algorithm ν → Bool} {ttl : ℕ} {now : ℤ}
    {calls : List (StoreCall ν)} {key : String} :
    key ∈ recentKeys kind ttl now calls ↔
      ∃ c ∈ calls, durationSince now c.env.now < ttl ∧ c.checks kind = some key := by
  simp [recentKeys, mem_checkedKeys, and_assoc]

/-- The entries of a map after a pass at `now` and some calls since. -/
structure HeldKeys {β : Type} (kind : Algorithm ν → Bool) (idleTtl : ℕ) (maxKeys : Option ℕ)
    (now : ℤ) (before after : List (StoreCall ν)) (m : KeyMap String β) : Prop where
  held : ∀ key x, m.lookup key = some x →
    key ∈ recentKeys kind idleTtl now before ∪ checkedKeys kind after
  size_le : m.size ≤ (recentKeys kind idleTtl now before).card + (checkedKeys kind after).card
  size_le_cap : ∀ max, maxKeys = some max → m.size ≤ max + (checkedKeys kind after).card

/-! ## One map of the store -/

namespace MemoryStore

theorem reset_tokenBuckets (key : String) (s : MemoryStore ν) :
    (s.reset key).tokenBuckets = s.tokenBuckets.erase key := rfl

theorem reset_slidingLogs (key : String) (s : MemoryStore ν) :
    (s.reset key).slidingLogs = s.slidingLogs.erase key := rfl

theorem reset_fixedWindows (key : String) (s : MemoryStore ν) :
    (s.reset key).fixedWindows = s.fixedWindows.erase key := rfl

end MemoryStore

section
variable [F64 ν]

/-- One of the maps of the store, with what calls make of it. -/
structure StoreMap (ν β : Type) [F64 ν] where
  get : MemoryStore ν → KeyMap String β
  kind : Algorithm ν → Bool
  stamp : β → Option ℤ
  /-- all the clock readings in an entry -/
  readings : β → List ℤ
  mem_readings : ∀ {x t}, stamp x = some t → t ∈ readings x
  get_check : ∀ env key algorithm s,
    get (MemoryStore.checkWith algorithm env key s).2 = get s ∨
      kind algorithm = true ∧ ∃ x,
        get (MemoryStore.checkWith algorithm env key s).2 = (get s).insert key x ∧
          ∀ t ∈ readings x, t = env.now ∨ ∃ y, (get s).lookup key = some y ∧ t ∈ readings y
  get_reset : ∀ key s, get (MemoryStore.reset key s) = (get s).erase key
  cleaned : ∀ env s,
    Cleaned stamp s.idleTtl env.now s.maxKeys (get s) (get (MemoryStore.cleanup env s))

def bucketMap : StoreMap ν (TokenBucketState ν) where
  get s := s.tokenBuckets
  kind := Algorithm.isTokenBucket
  stamp x := some x.lastRefill
  readings x := [x.lastRefill]
  mem_readings h := by
    obtain rfl := Option.some.inj h
    exact List.mem_singleton_self _
  get_check env key algorithm s := by
    cases algorithm with
    | tokenBucket capacity refillRate =>
      refine .inr ⟨rfl, _, rfl, fun t ht => .inl ?_⟩
      rw [List.mem_singleton] at ht
      rw [ht]
      exact BucketState.acquire_lastRefill _ _ _ _ _
    | slidingWindowLog maxRequests window =>
      rcases s.slidingWindowCheck_cases key maxRequests window env.now with ⟨-, heq⟩ |
        ⟨cutoff, -, heq⟩ <;>
      · refine .inl ?_
        show (s.slidingWindowCheck key maxRequests window env.now).2.tokenBuckets = _
        rw [heq]
    | fixedWindow maxRequests window => exact .inl rfl
  get_reset := MemoryStore.reset_tokenBuckets
  cleaned env s := by
    simp only [MemoryStore.cleanup, evictIdle_eq]
    cases s.maxKeys with
    | none => exact cleaned_retain _ _
    | some max => exact cleaned_capOldest _ _ _ _

def logMap : StoreMap ν SlidingWindowState where
  get s := s.slidingLogs
  kind := Algorithm.isSlidingWindowLog
  stamp x := x.log.getLast?
  readings x := x.log
  mem_readings h := List.mem_of_getLast? h
  get_check env key algorithm s := by
    cases algorithm with
    | tokenBucket capacity refillRate => exact .inl rfl
    | slidingWindowLog maxRequests window =>
      show (s.slidingWindowCheck key maxRequests window env.now).2.slidingLogs = _ ∨
        _ ∧ ∃ x, (s.slidingWindowCheck key maxRequests window env.now).2.slidingLogs = _ ∧ _
      rcases s.slidingWindowCheck_cases key maxRequests window env.now with ⟨-, heq⟩ |
        ⟨cutoff, -, heq⟩
      · rw [heq]
        exact .inl rfl
      · rw [heq]
        refine .inr ⟨rfl, _, rfl, fun t ht => ?_⟩
        rcases mem_recordRequest ht with hold | rfl
        · cases hentry : s.slidingLogs.lookup key with
          | none =>
            rw [hentry] at hold
            exact absurd hold List.not_mem_nil
          | some y =>
            rw [hentry] at hold
            exact .inr ⟨y, rfl, hold⟩
        · exact .inl rfl
    | fixedWindow maxRequests window => exact .inl rfl
  get_reset := MemoryStore.reset_slidingLogs
  cleaned env s := by
    simp only [MemoryStore.cleanup, evictIdle_eq]
    cases s.maxKeys with
    | none => exact cleaned_retain _ _
    | some max => exact cleaned_capOldest _ _ _ _

def windowMap : StoreMap ν FixedWindowState where
  get s := s.fixedWindows
  kind := Algorithm.isFixedWindow
  stamp x := some x.windowStart
  readings x := [x.windowStart]
  mem_readings h := by
    obtain rfl := Option.some.inj h
    exact List.mem_singleton_self _
  get_check env key algorithm s := by
    cases algorithm with
    | tokenBucket capacity refillRate => exact .inl rfl
    | slidingWindowLog maxRequests window =>
      rcases s.slidingWindowCheck_cases key maxRequests window env.now with ⟨-, heq⟩ |
        ⟨cutoff, -, heq⟩ <;>
      · refine .inl ?_
        show (s.slidingWindowCheck key maxRequests window env.now).2.fixedWindows = _
        rw [heq]
    | fixedWindow maxRequests window =>
      refine .inr ⟨rfl, _, rfl, fun t ht => ?_⟩
      rw [List.mem_singleton] at ht
      obtain ⟨state, hbody, hcases⟩ :=
        MemoryStore.fixedWindowBody_cases maxRequests window env.now (s.fixedWindows.lookup key)
      rw [hbody] at ht
      have ht : t = state.windowStart := ht.trans (state.increment_windowStart maxRequests)
      rcases hcases with ⟨rfl, -⟩ | ⟨y, hy, rfl, -⟩
      · exact .inl ht
      · exact .inr ⟨y, hy, List.mem_singleton.mpr ht⟩
  get_reset := MemoryStore.reset_fixedWindows
  cleaned env s := by
    simp only [MemoryStore.cleanup, evictIdle_eq]
    cases s.maxKeys with
    | none => exact cleaned_retain _ _
    | some max => exact cleaned_capOldest _ _ _ _

/-! ## What a map holds -/

theorem checkWith_settings (algorithm : Algorithm ν) (env : MemoryEnv) (key : String)
    (s : MemoryStore ν) : (MemoryStore.checkWith algorithm env key s).2.idleTtl = s.idleTtl ∧
      (MemoryStore.checkWith algorithm env key s).2.maxKeys = s.maxKeys := by
  cases algorithm with
  | tokenBucket capacity refillRate => exact ⟨rfl, rfl⟩
  | slidingWindowLog maxRequests window =>
    show (s.slidingWindowCheck key maxRequests window env.now).2.idleTtl = _ ∧
      (s.slidingWindowCheck key maxRequests window env.now).2.maxKeys = _
    rcases s.slidingWindowCheck_cases key maxRequests window env.now with ⟨-, heq⟩ |
      ⟨cutoff, -, heq⟩ <;>
    · rw [heq]
      exact ⟨rfl, rfl⟩
  | fixedWindow maxRequests window => exact ⟨rfl, rfl⟩

omit [F64 ν] in
theorem cleanup_settings (env : MemoryEnv) (s : MemoryStore ν) :
    (s.cleanup env).idleTtl = s.idleTtl ∧ (s.cleanup env).maxKeys = s.maxKeys := by
  simp only [MemoryStore.cleanup]
  cases hmax : (s.evictIdle env.now).maxKeys with
  | none => exact ⟨rfl, rfl⟩
  | some max => exact ⟨rfl, rfl⟩

theorem settings_run (s : MemoryStore ν) (calls : List (StoreCall ν)) :
    (run MemoryStore.call s calls).idleTtl = s.idleTtl ∧
      (run MemoryStore.call s calls).maxKeys = s.maxKeys := by
  refine run_inv (P := fun s' : MemoryStore ν => s'.idleTtl = s.idleTtl ∧ s'.maxKeys = s.maxKeys)
    ⟨rfl, rfl⟩ fun c _ s' hs' => ?_
  obtain ⟨env, op⟩ := c
  cases op with
  | check k algorithm =>
    obtain ⟨httl, hmax⟩ := checkWith_settings algorithm env k s'
    exact ⟨httl.trans hs'.1, hmax.trans hs'.2⟩
  | remaining k => exact hs'
  | reset k => exact hs'
  | cleanup =>
    obtain ⟨httl, hmax⟩ := cleanup_settings env s'
    exact ⟨httl.trans hs'.1, hmax.trans hs'.2⟩

namespace StoreMap

variable {β : Type} (M : StoreMap ν β)

/-- Every clock reading in an entry is that of a check of its key. -/
def Backed (calls : List (StoreCall ν)) (s : MemoryStore ν) : Prop :=
  ∀ key x, (M.get s).lookup key = some x → ∀ t ∈ M.readings x,
    ∃ c ∈ calls, c.checks M.kind = some key ∧ c.env.now = t

variable {M} {calls : List (StoreCall ν)} {s : MemoryStore ν}

theorem Backed.call (h : M.Backed calls s) (c : StoreCall ν) :
    M.Backed (calls ++ [c]) (MemoryStore.call c s).2 := by
  have hold : M.Backed (calls ++ [c]) s := by
    intro key x hx t ht
    obtain ⟨c', hc', hchecks⟩ := h key x hx t ht
    exact ⟨c', List.mem_append_left _ hc', hchecks⟩
  obtain ⟨env, op⟩ := c
  cases op with
  | check k algorithm =>
    show M.Backed _ (MemoryStore.checkWith algorithm env k s).2
    rcases M.get_check env k algorithm s with hsame | ⟨hkind, y, hnext, hreadings⟩
    · intro key x hx
      rw [hsame] at hx
      exact hold key x hx
    · intro key x hx t ht
      rw [hnext, KeyMap.lookup_insert_eq_ite] at hx
      split_ifs at hx with hk
      · subst hk
        obtain rfl := Option.some.inj hx
        rcases hreadings t ht with rfl | ⟨z, hz, htz⟩
        · exact ⟨_, List.mem_append_right _ (List.mem_singleton_self _),
            by simp [StoreCall.checks, hkind], rfl⟩
        · exact hold key z hz t htz
      · exact hold key x hx t ht
  | remaining k => exact hold
  | reset k =>
    intro key x hx
    rw [MemoryStore.call, M.get_reset, KeyMap.lookup_erase_eq_ite] at hx
    split_ifs at hx
    exact hold key x hx
  | cleanup => exact fun key x hx => hold key x ((M.cleaned env s).unchanged key x hx)

theorem Backed.run (h : M.Backed calls s) (more : List (StoreCall ν)) :
    M.Backed (calls ++ more) (run MemoryStore.call s more) := by
  induction more generalizing calls s with
  | nil => simpa using h
  | cons c more ih =>
    have hrest := ih (h.call c)
    rwa [List.append_assoc] at hrest

/-- A call adds at most the key that it checks. -/
theorem mem_keys_call {c : StoreCall ν} {key : String}
    (h : key ∈ (M.get (MemoryStore.call c s).2).keys) :
    key ∈ (M.get s).keys ∨ c.checks M.kind = some key := by
  obtain ⟨env, op⟩ := c
  cases op with
  | check k algorithm =>
    have h' : key ∈ (M.get (MemoryStore.checkWith algorithm env k s).2).keys := h
    rcases M.get_check env k algorithm s with hsame | ⟨hkind, y, hnext, -⟩
    · rw [hsame] at h'
      exact .inl h'
    · rw [hnext, ← AList.mem_keys, AList.mem_insert] at h'
      rcases h' with rfl | h'
      · exact .inr (by simp [StoreCall.checks, hkind])
      · exact .inl (AList.mem_keys.mp h')
  | remaining k => exact .inl h
  | reset k =>
    have h' : key ∈ ((M.get s).erase k).keys := M.get_reset k s ▸ h
    rw [← AList.mem_keys, AList.mem_erase] at h'
    exact .inl (AList.mem_keys.mp h'.2)
  | cleanup =>
    obtain ⟨x, hx⟩ := KeyMap.mem_keys_iff.mp h
    exact .inl (KeyMap.mem_keys_iff.mpr ⟨x, (M.cleaned env s).unchanged key x hx⟩)

theorem mem_keys_run {key : String} (h : key ∈ (M.get (Lib.run MemoryStore.call s calls)).keys) :
    key ∈ (M.get s).keys ∨ key ∈ checkedKeys M.kind calls := by
  induction calls generalizing s with
  | nil => exact .inl h
  | cons c calls ih =>
    rcases ih h with hmid | hrest
    · rcases mem_keys_call hmid with hs | hc
      · exact .inl hs
      · exact .inr (mem_checkedKeys.mpr ⟨c, by simp, hc⟩)
    · obtain ⟨c', hc', hchecks⟩ := mem_checkedKeys.mp hrest
      exact .inr (mem_checkedKeys.mpr ⟨c', by simp [hc'], hchecks⟩)

/-- What a pass leaves was checked less than the idle TTL ago. -/
theorem Backed.pass (h : M.Backed calls s) {env : MemoryEnv} {key : String}
    (hkey : key ∈ (M.get (s.cleanup env)).keys) :
    key ∈ recentKeys M.kind s.idleTtl env.now calls := by
  obtain ⟨x, hx⟩ := KeyMap.mem_keys_iff.mp hkey
  have hclean := M.cleaned env s
  obtain ⟨t, ht, hlive⟩ := hclean.live key x hx
  obtain ⟨c, hc, hchecks, rfl⟩ := h key x (hclean.unchanged key x hx) t (M.mem_readings ht)
  exact mem_recentKeys.mpr ⟨c, hc, hlive, hchecks⟩

theorem pass_size_le (env : MemoryEnv) (s : MemoryStore ν) {max : ℕ} (hmax : s.maxKeys = some max) :
    (M.get (s.cleanup env)).size ≤ max := by
  have hsize := (M.cleaned env s).size
  rw [hmax] at hsize
  rw [hsize]
  exact min_le_left _ _

/-- **What one map holds.** -/
theorem heldKeys (hempty : M.get s = ∅) (before : List (StoreCall ν)) (env : MemoryEnv)
    (after : List (StoreCall ν)) :
    HeldKeys M.kind s.idleTtl s.maxKeys env.now before after
      (M.get (Lib.run MemoryStore.call s (before ++ ⟨env, .cleanup⟩ :: after))) := by
  have hbacked : M.Backed before (Lib.run MemoryStore.call s before) := by
    have h0 : M.Backed [] s := by
      intro key x hx
      rw [hempty] at hx
      cases hx
    exact h0.run before
  obtain ⟨httl, hmax⟩ := settings_run s before
  rw [run_append, run_cons]
  show HeldKeys _ _ _ _ _ _ (M.get (Lib.run MemoryStore.call
    ((Lib.run MemoryStore.call s before).cleanup env) after))
  generalize Lib.run MemoryStore.call s before = mid at hbacked httl hmax
  have hkeys : ∀ key ∈ (M.get (Lib.run MemoryStore.call (mid.cleanup env) after)).keys,
      key ∈ (M.get (mid.cleanup env)).keys ∨ key ∈ checkedKeys M.kind after :=
    fun _ => mem_keys_run
  have hpass : ∀ key ∈ (M.get (mid.cleanup env)).keys,
      key ∈ recentKeys M.kind s.idleTtl env.now before := by
    intro key hkey
    rw [← httl]
    exact hbacked.pass hkey
  have hsize : (M.get (Lib.run MemoryStore.call (mid.cleanup env) after)).size ≤
      (M.get (mid.cleanup env)).size + (checkedKeys M.kind after).card := by
    have hcover : (M.get (Lib.run MemoryStore.call (mid.cleanup env) after)).size ≤
        ((M.get (mid.cleanup env)).keys.toFinset ∪ checkedKeys M.kind after).card :=
      KeyMap.size_le_card fun key hkey => by
        rw [Finset.mem_union, List.mem_toFinset]
        exact hkeys key hkey
    exact (hcover.trans (Finset.card_union_le _ _)).trans
      (Nat.add_le_add_right (KeyMap.card_keys_le _) _)
  have hsize' : (M.get (mid.cleanup env)).size ≤
      (recentKeys M.kind s.idleTtl env.now before).card := KeyMap.size_le_card hpass
  refine ⟨?_, hsize.trans (Nat.add_le_add_right hsize' _), fun max h => ?_⟩
  · intro key x hx
    have hkey : key ∈ (M.get (Lib.run MemoryStore.call (mid.cleanup env) after)).keys :=
      KeyMap.mem_keys_iff.mpr ⟨x, hx⟩
    rw [Finset.mem_union]
    exact (hkeys key hkey).imp_left (hpass key)
  · exact hsize.trans (Nat.add_le_add_right (pass_size_le env mid (hmax.trans h)) _)

end StoreMap

/-- **What the store holds**: in each of its maps only keys that were checked
    since the last pass or less than the idle TTL before it, and no more of these
    than the cap allows. -/
theorem store_heldKeys {s : MemoryStore ν} (hempty : s.keyCount = 0)
    (before : List (StoreCall ν)) (env : MemoryEnv) (after : List (StoreCall ν)) :
    let t := run MemoryStore.call s (before ++ ⟨env, .cleanup⟩ :: after)
    HeldKeys Algorithm.isTokenBucket s.idleTtl s.maxKeys env.now before after t.tokenBuckets ∧
      HeldKeys Algorithm.isSlidingWindowLog s.idleTtl s.maxKeys env.now before after
        t.slidingLogs ∧
      HeldKeys Algorithm.isFixedWindow s.idleTtl s.maxKeys env.now before after
        t.fixedWindows := by
  obtain ⟨hbuckets, hlogs, hwindows⟩ := MemoryStore.maps_empty hempty
  exact ⟨bucketMap.heldKeys hbuckets before env after, logMap.heldKeys hlogs before env after,
    windowMap.heldKeys hwindows before env after⟩

end

/-! ### Three clients, of whom one is gone -/

def bucketCheckAt (seconds : ℕ) (key : String) : StoreCall ℚ :=
  ⟨⟨Duration.fromSecs seconds, .stored⟩, .check key (.tokenBucket 5 1)⟩

theorem store_heldKeys_clients :
    (run MemoryStore.call .new ([bucketCheckAt 0 "early", bucketCheckAt 100 "client"] ++
      ⟨⟨Duration.fromSecs 300, .stored⟩, .cleanup⟩ ::
        [bucketCheckAt 310 "visitor"])).tokenBuckets.size ≤ 2 :=
  (store_heldKeys (s := .new) rfl [bucketCheckAt 0 "early", bucketCheckAt 100 "client"]
    ⟨Duration.fromSecs 300, .stored⟩ [bucketCheckAt 310 "visitor"]).1.size_le.trans
      (by decide +kernel)

end ArmatureRatelimit
