/-
  What the cap of the memory store knows of the activity of keys
  (`cap_token_buckets`, `cap_sliding_logs` and `cap_fixed_windows` in
  `stores/memory.rs`).

  The cap goes by the stamps of the entries.  Every check of a bucket stamps it,
  so the buckets that are removed are the least recently checked.  A log has the
  stamp of the last admitted request (`afterChecks_logsBacked`) and a window that
  of its first check: what is removed of these is the least recently checked
  exactly as long as the stamps that the cap may part come in the order of the
  checks (`cleanup_evictsLeastActive_iff`).
-/
import ArmatureRatelimit.Proof.Cleanup

open Lib

namespace ArmatureRatelimit

/-! ## One map -/

section
variable {β : Type} {stamp : β → Option ℤ} {m : KeyMap String β}

/-- No key that is removed was active later than one that is left. -/
def EvictsLeastActive (last : String → WithBot ℤ) (m m' : KeyMap String β) : Prop :=
  ∀ key x key' x', m.lookup key = some x → m'.lookup key = none → m'.lookup key' = some x' →
    last key ≤ last key'

/-- The cap cannot remove a key and leave one that was active before it. -/
def ClearBoundary (last : String → WithBot ℤ) (stamp : β → Option ℤ) (max : ℕ)
    (m : KeyMap String β) : Prop :=
  ∀ key x t key' x' t', m.lookup key = some x → stamp x = some t → m.lookup key' = some x' →
    stamp x' = some t' → last key' < last key →
    ¬ MayPart (m.size - max) (stampedEntries stamp m) t t'

/-- Iterate in the order of `parting`. -/
def IterOrder.parting (first last : String) : IterOrder where
  run l := Lib.parting first last l
  perm l := parting_perm first last l

theorem sortedEntries_parting (first last : String) :
    sortedEntries (.parting first last) stamp m =
      Lib.parting first last (stampedEntries stamp m) :=
  List.mergeSort_of_pairwise ((parting_sorted _ _ _).imp decide_eq_true)

/-- **What the cap removes.** -/
theorem capOldest_leastActive_iff (h : Stamped stamp m) (last : String → WithBot ℤ) (max : ℕ) :
    (∀ order, EvictsLeastActive last m (MemoryStore.capOldest order stamp max m)) ↔
      ClearBoundary last stamp max m := by
  have hparts := (@listsStamps_stampedEntries _ stamp m).parts_iff
    (fun key _ key' _ => last key' < last key) (fun key _ => lt_irrefl (last key))
    (@sortedEntries_perm _ stamp m) (fun order => sortedEntries_oldestFirst order (m.size - max))
    (fun _ _ first last => ⟨.parting first last, sortedEntries_parting first last⟩)
    fun _ _ => h.lookup
  simp only [← capOldest_eq, not_lt] at hparts
  exact hparts

/-- Where the stamps tell the activity, the cap goes by it. -/
theorem clearBoundary_of_stamp {last : String → WithBot ℤ}
    (h : ∀ key x t, m.lookup key = some x → stamp x = some t → last key = t) (max : ℕ) :
    ClearBoundary last stamp max m := by
  intro key x t key' x' t' hx ht hx' ht' hlt hpart
  rw [h key x t hx ht, h key' x' t' hx' ht', WithBot.coe_lt_coe] at hlt
  exact absurd hpart.le (not_le.mpr hlt)

end

/-! ## Runs of checks -/

section
variable {ν : Type}

def Algorithm.isTokenBucket : Algorithm ν → Bool
  | .tokenBucket .. => true
  | _ => false

def Algorithm.isSlidingWindowLog : Algorithm ν → Bool
  | .slidingWindowLog .. => true
  | _ => false

def Algorithm.isFixedWindow : Algorithm ν → Bool
  | .fixedWindow .. => true
  | _ => false

/-- A call of the check that serves an algorithm. -/
structure StoreCheck (ν : Type) where
  now : ℤ
  key : String
  algorithm : Algorithm ν

/-- When the key was last checked by an algorithm of the kind (`⊥`: never). -/
def lastCheck (kind : Algorithm ν → Bool) (calls : List (StoreCheck ν)) (key : String) :
    WithBot ℤ :=
  calls.foldl (fun last c => if kind c.algorithm = true ∧ c.key = key then ↑c.now else last) ⊥

theorem lastCheck_append (kind : Algorithm ν → Bool) (calls : List (StoreCheck ν))
    (c : StoreCheck ν) (key : String) :
    lastCheck kind (calls ++ [c]) key =
      if kind c.algorithm = true ∧ c.key = key then (c.now : WithBot ℤ)
      else lastCheck kind calls key := by
  simp only [lastCheck, List.foldl_append, List.foldl_cons, List.foldl_nil]

variable [F64 ν]

def MemoryStore.checkCall (c : StoreCheck ν) (s : MemoryStore ν) :
    Outcome (Bool × ℕ) × MemoryStore ν :=
  checkWith c.algorithm ⟨c.now, .stored⟩ c.key s

theorem checkCall_slidingWindow (now : ℤ) (key : String) (maxRequests window : ℕ)
    (s : MemoryStore ν) :
    MemoryStore.checkCall ⟨now, key, .slidingWindowLog maxRequests window⟩ s =
      s.slidingWindowCheck key maxRequests window now := rfl

/-- A new store with a cap, after some checks. -/
def afterChecks (idleTtl maxKeys : ℕ) (calls : List (StoreCheck ν)) : MemoryStore ν :=
  run MemoryStore.checkCall ((MemoryStore.new.withIdleTtl idleTtl).withMaxKeys maxKeys) calls

/-- The stamps of the buckets are their last checks. -/
def BucketsStamped (calls : List (StoreCheck ν)) (s : MemoryStore ν) : Prop :=
  ∀ key x, s.tokenBuckets.lookup key = some x →
    lastCheck Algorithm.isTokenBucket calls key = x.lastRefill

/-- No log is empty. -/
def LogsStamped (s : MemoryStore ν) : Prop :=
  ∀ key x, s.slidingLogs.lookup key = some x → x.log ≠ []

/-- The step of the buckets: a check of a bucket stamps it, and the other checks
    touch none. -/
theorem BucketsStamped.check {calls : List (StoreCheck ν)} {s : MemoryStore ν}
    (h : BucketsStamped calls s) (c : StoreCheck ν) :
    BucketsStamped (calls ++ [c]) (MemoryStore.checkCall c s).2 := by
  obtain ⟨now, k, algorithm⟩ := c
  intro key x hx
  rw [lastCheck_append]
  cases algorithm with
  | tokenBucket capacity refillRate =>
    by_cases hkey : k = key
    · subst hkey
      replace hx : some _ = some x := (KeyMap.access_lookup_self _ _ _).symm.trans hx
      rw [if_pos ⟨rfl, rfl⟩, ← Option.some.inj hx]
      exact congrArg _ (BucketState.acquire_lastRefill _ _ _ _ _).symm
    · rw [if_neg fun hmatch => hkey hmatch.2]
      exact h key x ((KeyMap.access_lookup_ne _ (Ne.symm hkey) _).symm.trans hx)
  | slidingWindowLog maxRequests window =>
    rw [if_neg (by simp [Algorithm.isTokenBucket])]
    rw [checkCall_slidingWindow] at hx
    rcases s.slidingWindowCheck_cases k maxRequests window now with ⟨-, heq⟩ | ⟨cutoff, -, heq⟩
    · rw [heq] at hx
      exact h key x hx
    · rw [heq] at hx
      exact h key x hx
  | fixedWindow maxRequests window =>
    rw [if_neg (by simp [Algorithm.isTokenBucket])]
    exact h key x hx

/-- The step of the logs: one that is checked is left with a stamp. -/
theorem LogsStamped.check {s : MemoryStore ν} (h : LogsStamped s) {c : StoreCheck ν}
    (hlimit : 0 < c.algorithm.limit) : LogsStamped (MemoryStore.checkCall c s).2 := by
  obtain ⟨now, k, algorithm⟩ := c
  cases algorithm with
  | tokenBucket capacity refillRate => exact h
  | slidingWindowLog maxRequests window =>
    rw [checkCall_slidingWindow]
    rcases s.slidingWindowCheck_cases k maxRequests window now with ⟨-, heq⟩ | ⟨cutoff, -, heq⟩
    · rw [heq]
      exact h
    · rw [heq]
      exact (KeyMap.forall_access_iff h _ k).mpr (recordRequest_ne_nil hlimit now _)
  | fixedWindow maxRequests window => exact h

theorem checkCall_maxKeys (c : StoreCheck ν) (s : MemoryStore ν) :
    (MemoryStore.checkCall c s).2.maxKeys = s.maxKeys := by
  obtain ⟨now, k, algorithm⟩ := c
  cases algorithm with
  | tokenBucket capacity refillRate => rfl
  | slidingWindowLog maxRequests window =>
    rw [checkCall_slidingWindow]
    rcases s.slidingWindowCheck_cases k maxRequests window now with ⟨-, heq⟩ | ⟨cutoff, -, heq⟩
    · rw [heq]
    · rw [heq]
  | fixedWindow maxRequests window => rfl

section
variable (idleTtl maxKeys : ℕ) {calls : List (StoreCheck ν)}

theorem afterChecks_maxKeys (calls : List (StoreCheck ν)) :
    (afterChecks idleTtl maxKeys calls).maxKeys = some maxKeys :=
  run_inv (P := fun s : MemoryStore ν => s.maxKeys = some maxKeys) rfl
    fun c _ s hs => (checkCall_maxKeys c s).trans hs

theorem afterChecks_bucketsStamped (calls : List (StoreCheck ν)) :
    BucketsStamped calls (afterChecks idleTtl maxKeys calls) := by
  induction calls using List.reverseRecOn with
  | nil =>
    intro key x hx
    cases hx
  | append_singleton calls c ih =>
    unfold afterChecks at ih ⊢
    rw [run_append]
    exact ih.check c

theorem afterChecks_logsStamped (h : ∀ c ∈ calls, 0 < c.algorithm.limit) :
    LogsStamped (afterChecks idleTtl maxKeys calls) := by
  refine run_inv ?_ fun c hc s hs => hs.check (h c hc)
  intro key x hx
  cases hx

end

/-! ## The stamps of the logs -/

/-- The calls of a run that are admitted. -/
def admittedCalls (s : MemoryStore ν) (calls : List (StoreCheck ν)) : List (StoreCheck ν) :=
  ((history MemoryStore.checkCall s calls).filter fun e => isAdmitted e.2).map Prod.fst

theorem admittedCalls_append (s : MemoryStore ν) (calls : List (StoreCheck ν)) (c : StoreCheck ν) :
    admittedCalls s (calls ++ [c]) = admittedCalls s calls ++
      if isAdmitted (MemoryStore.checkCall c (run MemoryStore.checkCall s calls)).1 then [c]
      else [] := by
  unfold admittedCalls
  rw [history_append, List.filter_append, List.map_append]
  simp only [history, List.filter_cons, List.filter_nil]
  split_ifs <;> rfl

/-- The backs of the logs are their last admitted checks. -/
def LogsBacked (admitted : List (StoreCheck ν)) (s : MemoryStore ν) : Prop :=
  ∀ key x t, s.slidingLogs.lookup key = some x → x.log.getLast? = some t →
    lastCheck Algorithm.isSlidingWindowLog admitted key = t

omit [F64 ν] in
/-- The back after the body: an admitted request, or what was there. -/
theorem slidingWindowBody_back {maxRequests window : ℕ} {now cutoff t : ℤ}
    {entry : Option SlidingWindowState}
    (h : (MemoryStore.slidingWindowBody maxRequests window now cutoff entry).2.log.getLast? =
      some t) :
    ((MemoryStore.slidingWindowBody maxRequests window now cutoff entry).1.1 = true ∧ now = t) ∨
      (MemoryStore.slidingWindowBody maxRequests window now cutoff entry).1.1 = false ∧
        ∃ x, entry = some x ∧ x.log.getLast? = some t := by
  unfold MemoryStore.slidingWindowBody recordRequest at h ⊢
  simp only at h ⊢
  split_ifs at h ⊢ with hroom
  · rw [List.getLast?_concat] at h
    exact .inl ⟨rfl, Option.some.inj h⟩
  · refine .inr ⟨rfl, ?_⟩
    cases entry with
    | none => cases h
    | some x => exact ⟨x, rfl, getLast_of_pruneLog h⟩

omit [F64 ν] in
theorem lastCheck_append_other {kind : Algorithm ν → Bool} {c : StoreCheck ν} {key : String}
    (h : ¬ (kind c.algorithm = true ∧ c.key = key)) (calls : List (StoreCheck ν)) (p : Bool) :
    lastCheck kind (calls ++ if p then [c] else []) key = lastCheck kind calls key := by
  cases p with
  | true => exact (lastCheck_append kind calls c key).trans (if_neg h)
  | false => exact congrArg (lastCheck kind · key) (List.append_nil calls)

/-- The step of the logs: an admitted check puts its reading at the back, and a
    denied one leaves the back where it is. -/
theorem LogsBacked.check {admitted : List (StoreCheck ν)} {s : MemoryStore ν}
    (h : LogsBacked admitted s) (c : StoreCheck ν) :
    LogsBacked (admitted ++ if isAdmitted (MemoryStore.checkCall c s).1 then [c] else [])
      (MemoryStore.checkCall c s).2 := by
  obtain ⟨now, k, algorithm⟩ := c
  intro key x t hx ht
  cases algorithm with
  | tokenBucket capacity refillRate =>
    rw [lastCheck_append_other (by simp [Algorithm.isSlidingWindowLog])]
    exact h key x t hx ht
  | fixedWindow maxRequests window =>
    rw [lastCheck_append_other (by simp [Algorithm.isSlidingWindowLog])]
    exact h key x t hx ht
  | slidingWindowLog maxRequests window =>
    by_cases hkey : k = key
    · subst hkey
      rw [checkCall_slidingWindow] at hx ⊢
      rcases s.slidingWindowCheck_cases k maxRequests window now with ⟨-, heq⟩ | ⟨cutoff, -, heq⟩
      · rw [heq] at hx ⊢
        exact (congrArg (lastCheck _ · k) (List.append_nil admitted)).trans (h k x t hx ht)
      · rw [heq] at hx ⊢
        simp only [KeyMap.access_lookup_self, Option.some.injEq] at hx
        subst hx
        rcases slidingWindowBody_back ht with ⟨hallowed, rfl⟩ | ⟨hdenied, y, hy, hback⟩
        · have hadmitted : isAdmitted (.ok (s.slidingLogs.access
            (MemoryStore.slidingWindowBody maxRequests window now cutoff) k).1) = true := hallowed
          rw [if_pos hadmitted, lastCheck_append, if_pos ⟨rfl, rfl⟩]
        · have hadmitted : ¬ isAdmitted (.ok (s.slidingLogs.access
            (MemoryStore.slidingWindowBody maxRequests window now cutoff) k).1) = true :=
            Bool.not_eq_true _ ▸ hdenied
          rw [if_neg hadmitted, List.append_nil]
          exact h k y t hy hback
    · rw [lastCheck_append_other fun hmatch => hkey hmatch.2]
      rw [checkCall_slidingWindow] at hx
      rcases s.slidingWindowCheck_cases k maxRequests window now with ⟨-, heq⟩ | ⟨cutoff, -, heq⟩
      · rw [heq] at hx
        exact h key x t hx ht
      · rw [heq] at hx
        exact h key x t ((KeyMap.access_lookup_ne _ (Ne.symm hkey) _).symm.trans hx) ht

/-- **The stamps of the logs.**  After a run the back of a log is the last
    admitted check. -/
theorem afterChecks_logsBacked (idleTtl maxKeys : ℕ) (calls : List (StoreCheck ν)) :
    LogsBacked
      (admittedCalls ((MemoryStore.new.withIdleTtl idleTtl).withMaxKeys maxKeys) calls)
      (afterChecks idleTtl maxKeys calls) := by
  unfold afterChecks
  induction calls using List.reverseRecOn with
  | nil =>
    intro key x t hx
    cases hx
  | append_singleton calls c ih =>
    have hcall := ih.check c
    rw [run_append, admittedCalls_append]
    exact hcall

/-! ## A cleanup after the run -/

/-- No entry of the map is idle. -/
def NoneIdleIn {β : Type} (stamp : β → Option ℤ) (idleTtl : ℕ) (now : ℤ) (m : KeyMap String β) :
    Prop :=
  ∀ key x t, m.lookup key = some x → stamp x = some t → durationSince now t < idleTtl

omit [F64 ν] in
theorem noneIdleIn_iff {β : Type} {stamp : β → Option ℤ} {idleTtl : ℕ} {now : ℤ}
    {m : KeyMap String β} : NoneIdleIn stamp idleTtl now m ↔
      ∀ e ∈ m.entries, ∀ t ∈ stamp e.2, durationSince now t < idleTtl :=
  ⟨fun h e he t ht => h e.1 e.2 t (KeyMap.lookup_eq_some.mpr he) ht,
    fun h key x t hx ht => h ⟨key, x⟩ (KeyMap.lookup_eq_some.mp hx) t ht⟩

instance {β : Type} (stamp : β → Option ℤ) (idleTtl : ℕ) (now : ℤ) (m : KeyMap String β) :
    Decidable (NoneIdleIn stamp idleTtl now m) :=
  decidable_of_iff _ noneIdleIn_iff.symm

/-- No entry of the store is idle. -/
structure NoneIdle (now : ℤ) (s : MemoryStore ν) : Prop where
  tokenBuckets : NoneIdleIn (fun x => some x.lastRefill) s.idleTtl now s.tokenBuckets
  slidingLogs : NoneIdleIn (·.log.getLast?) s.idleTtl now s.slidingLogs
  fixedWindows : NoneIdleIn (fun x => some x.windowStart) s.idleTtl now s.fixedWindows

omit [F64 ν] in
theorem stamped_of_lookup {β : Type} {stamp : β → Option ℤ} {m : KeyMap String β}
    (h : ∀ key x, m.lookup key = some x → (stamp x).isSome) : Stamped stamp m :=
  fun e he => h e.1 e.2 (KeyMap.lookup_eq_some.mpr he)

omit [F64 ν] in
theorem Stamped.retain_eq_self {β : Type} {stamp : β → Option ℤ} {m : KeyMap String β}
    (h : Stamped stamp m) {idleTtl : ℕ} {now : ℤ} (hidle : NoneIdleIn stamp idleTtl now m) :
    m.retain (isLive stamp idleTtl now) = m := by
  refine KeyMap.retain_eq_self fun key x hx => isLive_iff.mpr ?_
  obtain ⟨t, ht⟩ := h.lookup hx
  exact ⟨t, ht, hidle key x t hx ht⟩

omit [F64 ν] in
theorem LogsStamped.stamped {s : MemoryStore ν} (h : LogsStamped s) :
    Stamped (·.log.getLast?) s.slidingLogs :=
  stamped_of_lookup fun key x hx => List.getLast?_isSome.mpr (h key x hx)

omit [F64 ν] in
/-- Without idle entries a cleanup is the cap. -/
theorem cleanup_eq_cap {s : MemoryStore ν} (hlogs : LogsStamped s) {env : MemoryEnv}
    (hidle : NoneIdle env.now s) {max : ℕ} (hmax : s.maxKeys = some max) :
    s.cleanup env =
      ((s.capTokenBuckets env.order max).capSlidingLogs env.order max).capFixedWindows
        env.order max := by
  have hkept : s.evictIdle env.now = s := by
    rw [evictIdle_eq, Stamped.retain_eq_self (fun _ _ => rfl) hidle.tokenBuckets,
      hlogs.stamped.retain_eq_self hidle.slidingLogs,
      Stamped.retain_eq_self (fun _ _ => rfl) hidle.fixedWindows]
  simp only [MemoryStore.cleanup, hkept, hmax]

/-- The cap goes by the last checks of the logs if these were all admitted. -/
theorem clearBoundary_of_lastAdmitted (idleTtl maxKeys : ℕ) {calls : List (StoreCheck ν)}
    (h : ∀ key, lastCheck Algorithm.isSlidingWindowLog calls key =
      lastCheck Algorithm.isSlidingWindowLog
        (admittedCalls ((MemoryStore.new.withIdleTtl idleTtl).withMaxKeys maxKeys) calls) key) :
    ClearBoundary (lastCheck Algorithm.isSlidingWindowLog calls) (·.log.getLast?) maxKeys
      (afterChecks idleTtl maxKeys calls).slidingLogs :=
  clearBoundary_of_stamp (fun key x t hx ht =>
    (h key).trans (afterChecks_logsBacked idleTtl maxKeys calls key x t hx ht)) maxKeys

/-- **When a cleanup drops the least recently active keys.**  After a run of
    checks and with no entry idle, it does so of the buckets, and of the logs and
    the windows exactly if their stamps are in the order of the last checks as
    far as the cap may part them. -/
theorem cleanup_evictsLeastActive_iff (idleTtl maxKeys : ℕ) {calls : List (StoreCheck ν)}
    (hlimits : ∀ c ∈ calls, 0 < c.algorithm.limit) {now : ℤ}
    (hidle : NoneIdle now (afterChecks idleTtl maxKeys calls)) :
    (∀ order, EvictsLeastActive (lastCheck Algorithm.isTokenBucket calls)
      (afterChecks idleTtl maxKeys calls).tokenBuckets
      ((afterChecks idleTtl maxKeys calls).cleanup ⟨now, order⟩).tokenBuckets) ∧
    ((∀ order, EvictsLeastActive (lastCheck Algorithm.isSlidingWindowLog calls)
        (afterChecks idleTtl maxKeys calls).slidingLogs
        ((afterChecks idleTtl maxKeys calls).cleanup ⟨now, order⟩).slidingLogs) ↔
      ClearBoundary (lastCheck Algorithm.isSlidingWindowLog calls) (·.log.getLast?) maxKeys
        (afterChecks idleTtl maxKeys calls).slidingLogs) ∧
    ((∀ order, EvictsLeastActive (lastCheck Algorithm.isFixedWindow calls)
        (afterChecks idleTtl maxKeys calls).fixedWindows
        ((afterChecks idleTtl maxKeys calls).cleanup ⟨now, order⟩).fixedWindows) ↔
      ClearBoundary (lastCheck Algorithm.isFixedWindow calls) (fun x => some x.windowStart) maxKeys
        (afterChecks idleTtl maxKeys calls).fixedWindows) := by
  have hlogs := afterChecks_logsStamped idleTtl maxKeys hlimits
  have hbuckets := afterChecks_bucketsStamped idleTtl maxKeys calls
  have hmax := afterChecks_maxKeys idleTtl maxKeys calls
  generalize afterChecks idleTtl maxKeys calls = s at hidle hlogs hbuckets hmax ⊢
  have hcap : ∀ order, s.cleanup ⟨now, order⟩ = _ := fun order => cleanup_eq_cap hlogs hidle hmax
  simp only [hcap]
  refine ⟨?_, capOldest_leastActive_iff hlogs.stamped _ maxKeys,
    capOldest_leastActive_iff (fun _ _ => rfl) _ maxKeys⟩
  refine (capOldest_leastActive_iff (fun _ _ => rfl) _ maxKeys).mpr
    (clearBoundary_of_stamp ?_ maxKeys)
  rintro key x _ hx ⟨⟩
  exact hbuckets key x hx

end

/-- Two clients, checked by all three algorithms, and the bucket of the first one
    once more: each map drops the client that was checked less recently. -/
def twoClients : List (StoreCheck ℚ) :=
  [⟨0, "first", .tokenBucket 1 1⟩, ⟨0, "first", .slidingWindowLog 1 60000000000⟩,
    ⟨0, "first", .fixedWindow 10 60000000000⟩, ⟨1000000000, "second", .tokenBucket 1 1⟩,
    ⟨1000000000, "second", .slidingWindowLog 1 60000000000⟩,
    ⟨1000000000, "second", .fixedWindow 10 60000000000⟩, ⟨2000000000, "first", .tokenBucket 1 1⟩]

def twoClientStore : MemoryStore ℚ := afterChecks 300000000000 1 twoClients

theorem cleanup_evictsLeastActive_twoClients :
    (∀ order, EvictsLeastActive (lastCheck Algorithm.isTokenBucket twoClients)
      twoClientStore.tokenBuckets (twoClientStore.cleanup ⟨3000000000, order⟩).tokenBuckets) ∧
    (∀ order, EvictsLeastActive (lastCheck Algorithm.isSlidingWindowLog twoClients)
      twoClientStore.slidingLogs (twoClientStore.cleanup ⟨3000000000, order⟩).slidingLogs) ∧
    ∀ order, EvictsLeastActive (lastCheck Algorithm.isFixedWindow twoClients)
      twoClientStore.fixedWindows (twoClientStore.cleanup ⟨3000000000, order⟩).fixedWindows := by
  have hlimits : ∀ c ∈ twoClients, 0 < c.algorithm.limit := by decide
  have hidle : NoneIdle 3000000000 twoClientStore := ⟨by decide +kernel, by decide, by decide⟩
  obtain ⟨hbuckets, hlogs, hwindows⟩ := cleanup_evictsLeastActive_iff 300000000000 1 hlimits hidle
  refine ⟨hbuckets, hlogs.mpr (clearBoundary_of_stamp ?_ 1),
    hwindows.mpr (clearBoundary_of_stamp ?_ 1)⟩
  · have hstamps : ∀ e ∈ twoClientStore.slidingLogs.entries, ∀ t ∈ e.2.log.getLast?,
      lastCheck Algorithm.isSlidingWindowLog twoClients e.1 = t := by decide
    exact fun key x t hx ht => hstamps ⟨key, x⟩ (KeyMap.lookup_eq_some.mp hx) t ht
  · have hstamps : ∀ e ∈ twoClientStore.fixedWindows.entries,
      lastCheck Algorithm.isFixedWindow twoClients e.1 = e.2.windowStart := by decide
    rintro key x _ hx ⟨⟩
    exact hstamps ⟨key, x⟩ (KeyMap.lookup_eq_some.mp hx)

/-! ## Checks that leave no stamp -/

/-- Two clients, of which the first is checked again at the end: a request that
    is denied by its log, and one in the window that it has started. -/
def staleCalls : List (StoreCheck ℚ) :=
  [⟨0, "first", .slidingWindowLog 1 60000000000⟩, ⟨0, "first", .fixedWindow 10 60000000000⟩,
    ⟨1000000000, "second", .slidingWindowLog 1 60000000000⟩,
    ⟨1000000000, "second", .fixedWindow 10 60000000000⟩,
    ⟨2000000000, "first", .slidingWindowLog 1 60000000000⟩,
    ⟨2000000000, "first", .fixedWindow 10 60000000000⟩]

def staleStore : MemoryStore ℚ := afterChecks 300000000000 1 staleCalls

/-- A cap of one that goes by stamps in the wrong order. -/
theorem not_evictsLeastActive_of_entries {β : Type} {stamp : β → Option ℤ} {m : KeyMap String β}
    {x x' : β} (hentries : m.entries = [⟨"first", x⟩, ⟨"second", x'⟩]) {t t' : ℤ}
    (ht : stamp x = some t) (ht' : stamp x' = some t') (hle : t ≤ t') {last : String → WithBot ℤ}
    (hlast : ¬ last "first" ≤ last "second") :
    ¬ EvictsLeastActive last m (MemoryStore.capOldest .stored stamp 1 m) := by
  have hcap : MemoryStore.capOldest .stored stamp 1 m = m.removeAll ["first"] := by
    simp [MemoryStore.capOldest, KeyMap.size, hentries, ht, ht', IterOrder.stored, List.mergeSort,
      hle]
  have hfirst : m.lookup "first" = some x := KeyMap.lookup_eq_some.mpr (by simp [hentries])
  have hsecond : m.lookup "second" = some x' := KeyMap.lookup_eq_some.mpr (by simp [hentries])
  intro h
  rw [hcap] at h
  refine hlast (h "first" x "second" x' hfirst ?_ ?_)
  · rw [KeyMap.lookup_removeAll, if_pos (by decide)]
  · rw [KeyMap.lookup_removeAll, if_neg (by decide), hsecond]

/-- The cleanup drops the client that was checked last from both maps. -/
theorem cleanup_drops_recentlyChecked :
    (∀ c ∈ staleCalls, 0 < c.algorithm.limit) ∧
      (staleCalls.Pairwise fun c c' => c.now ≤ c'.now) ∧ NoneIdle 3000000000 staleStore ∧
      ¬ EvictsLeastActive (lastCheck Algorithm.isSlidingWindowLog staleCalls)
        staleStore.slidingLogs (staleStore.cleanup ⟨3000000000, .stored⟩).slidingLogs ∧
      ¬ EvictsLeastActive (lastCheck Algorithm.isFixedWindow staleCalls)
        staleStore.fixedWindows (staleStore.cleanup ⟨3000000000, .stored⟩).fixedWindows := by
  have hlimits : ∀ c ∈ staleCalls, 0 < c.algorithm.limit := by decide
  have hidle : NoneIdle 3000000000 staleStore := ⟨by decide, by decide, by decide⟩
  have hcleanup : staleStore.cleanup ⟨3000000000, .stored⟩ = _ :=
    cleanup_eq_cap (afterChecks_logsStamped 300000000000 1 hlimits) hidle
      (afterChecks_maxKeys 300000000000 1 staleCalls)
  have hlogs : staleStore.slidingLogs.entries =
    [⟨"first", [0], 1, 60000000000⟩, ⟨"second", [1000000000], 1, 60000000000⟩] := by decide
  have hwindows : staleStore.fixedWindows.entries =
    [⟨"first", ⟨2, 0⟩, 10, 60000000000⟩, ⟨"second", ⟨1, 1000000000⟩, 10, 60000000000⟩] := by decide
  refine ⟨hlimits, by decide, hidle, ?_, ?_⟩
  · rw [hcleanup]
    exact not_evictsLeastActive_of_entries hlogs rfl rfl (by decide) (by decide)
  · rw [hcleanup]
    exact not_evictsLeastActive_of_entries hwindows rfl rfl (by decide) (by decide)

end ArmatureRatelimit
