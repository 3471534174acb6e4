/-
  The sliding windows of the memory store and of the Redis store, call by call.

  Both keep the stamps of the admitted requests that are in the window, but they
  differ at its edge: the memory store drops stamps before the cutoff, the Redis
  store also those at the cutoff.  So they give the same answers to a sequence of
  calls as long as no call finds a stamp that is exactly one window old, its
  deadline is accepted, and the counter that numbers the members is in the range
  of the texts; with times in the range of the doubles the first two are needed
  (`slidingStores_agree_iff`).
-/
import ArmatureRatelimit.Proof.KeyNames
import ArmatureRatelimit.Proof.SlidingStamps
import ArmatureRatelimit.Scripts.FixedWindow
import ArmatureRatelimit.Stores.Memory

open Lib Lib.Redis

namespace ArmatureRatelimit

open RedisStore

variable {ν : Type}

/-! ## Calls -/

/-- A check of a key at a whole number of milliseconds. -/
structure SlidingCall where
  key : String
  ms : ℕ

section
variable (store : RedisStore) (keyDigest : String → String) (maxRequests windowMs : ℕ)

/-- The check in the Redis store; the server answers at once. -/
def redisSliding (e : SlidingCall) : Db ν → Outcome (Bool × ℕ) × Db ν :=
  store.slidingWindowCheck keyDigest ⟨instantOf e.ms, e.ms, .answered 0⟩ e.key maxRequests
    (Duration.fromMillis windowMs)

/-- The check in the memory store. -/
def memorySliding (e : SlidingCall) : MemoryStore ν → Outcome (Bool × ℕ) × MemoryStore ν :=
  MemoryStore.slidingWindowCheck e.key maxRequests (Duration.fromMillis windowMs) (instantOf e.ms)

/-- Nothing that the call reads has expired. -/
def NoExpiry (e : SlidingCall) (db : Db ν) : Prop :=
  KeysLive (windowKeys store (keyDigest e.key)) db e.ms

/-- The server accepts the deadline of the call. -/
def InTime (e : SlidingCall) : Prop :=
  (e.ms : ℤ) + 1000 * slidingTtl (windowMs / 1000 : ℕ) ≤ int64Max

/-- If the call finds room, the counter is in the range of the texts. -/
def InRange (e : SlidingCall) (db : Db ν) : Prop :=
  (keptStamps (e.ms - windowMs) (stampsAt (windowKeys store (keyDigest e.key)) db)).size <
      maxRequests →
    integerAt e.ms (windowKeys store (keyDigest e.key)).seqkey db < 10 ^ 14

/-- The deadline of the call is accepted, no stamp of its key is exactly one
    window old, and the counter is in the range of the texts if there is room. -/
structure InStep (e : SlidingCall) (db : Db ν) : Prop where
  accepted : InTime windowMs e
  off_edge : ∀ m s, (stampsAt (windowKeys store (keyDigest e.key)) db).lookup m = some s →
    s ≠ luaInt (e.ms - windowMs)
  numbered : InRange store keyDigest maxRequests windowMs e db

/-- Both calls give the same answer. -/
def SameAnswer (r r' : Outcome (Bool × ℕ)) : Prop := ∃ a, r = .ok a ∧ r' = .ok a

end

theorem InTime.secs_le {windowMs : ℕ} {e : SlidingCall} (h : InTime windowMs e) :
    ((windowMs / 1000 : ℕ) : ℤ) + 9 ≤ slidingTtl (windowMs / 1000 : ℕ) := by
  simp only [InTime, int64Max] at h
  exact slidingTtl_ge (Int.natCast_nonneg _) (by omega)

section
variable {store : RedisStore} {keyDigest : String → String} {maxRequests windowMs : ℕ}

/-- A check that is answered, in terms of its script. -/
theorem slidingWindowCheck_answered {env : RedisEnv} {took d window : ℕ} {ms windowMs : ℤ}
    (hanswered : env.delivery = .answered took) (htook : took ≤ store.operationTimeout)
    (hd : sinceEpoch env.unix = some d) (hms : asI64 (Duration.asMillis d) = ms)
    (hwindow : asI64 (Duration.asMillis window) = windowMs)
    (hcutoff : asI64 (ms - windowMs) = ms - windowMs) (key : String) (db : Db ν) :
    (store.slidingWindowCheck keyDigest env key maxRequests window db).1 =
        ((windowScript (windowKeys store (keyDigest key)) env.server maxRequests ms (ms - windowMs)
          (Duration.asSecs window) db).1.mapError fun msg => .err (.storeError msg)).map
            (fun result => (result.1 == 1, asU64 result.2)) ∧
      (store.slidingWindowCheck keyDigest env key maxRequests window db).2 =
        (windowScript (windowKeys store (keyDigest key)) env.server maxRequests ms (ms - windowMs)
          (Duration.asSecs window) db).2 := by
  have hexecuted : env.delivery.executed = true := by rw [hanswered]; rfl
  unfold slidingWindowCheck
  simp only [hd, hms, hwindow, hcutoff, ne_eq, not_true_eq_false, if_false]
  rw [withOpTimeout_answered hanswered htook, withOpTimeout_executed hexecuted]
  exact ⟨rfl, rfl⟩

/-- The check of a call, in terms of its script. -/
theorem redisSliding_eq {e : SlidingCall}
    (haccepted : InTime windowMs e) (db : Db ν) :
    (redisSliding store keyDigest maxRequests windowMs e db).1 =
        ((windowScript (windowKeys store (keyDigest e.key)) e.ms maxRequests e.ms (e.ms - windowMs)
          (windowMs / 1000 : ℕ) db).1.mapError fun msg => .err (.storeError msg)).map
            (fun result => (result.1 == 1, asU64 result.2)) ∧
      (redisSliding store keyDigest maxRequests windowMs e db).2 =
        (windowScript (windowKeys store (keyDigest e.key)) e.ms maxRequests e.ms (e.ms - windowMs)
          (windowMs / 1000 : ℕ) db).2 := by
  have hsecs := haccepted.secs_le
  simp only [InTime, int64Max] at haccepted
  have hd : sinceEpoch (instantOf e.ms) = some (Duration.fromMillis e.ms) := by
    rw [instantOf, sinceEpoch, if_pos (Int.natCast_nonneg _), Int.toNat_natCast]
  have hms : asI64 (Duration.asMillis (Duration.fromMillis e.ms)) = e.ms := by
    rw [Duration.asMillis_fromMillis]
    exact asI64_of_lt (by omega)
  have hwindow : asI64 (Duration.asMillis (Duration.fromMillis windowMs)) = windowMs := by
    rw [Duration.asMillis_fromMillis]
    exact asI64_of_lt (by omega)
  have hcutoff : asI64 ((e.ms : ℤ) - windowMs) = e.ms - windowMs := by
    rw [asI64, Int.bmod_def]
    omega
  rw [← Duration.asSecs_fromMillis windowMs]
  exact slidingWindowCheck_answered rfl (Nat.zero_le _) hd hms hwindow hcutoff e.key db

/-- A deadline that is not accepted is an error. -/
theorem slidingWindowCheck_rejected {env : RedisEnv} {window : ℕ}
    (h : int64Max < env.server + 1000 * slidingTtl (Duration.asSecs window)) (key : String)
    (db : Db ν) : ∃ err,
      (store.slidingWindowCheck keyDigest env key maxRequests window db).1 = .error err := by
  cases hres : (store.slidingWindowCheck keyDigest env key maxRequests window db).1 with
  | error err => exact ⟨err, rfl⟩
  | ok a =>
    exfalso
    unfold slidingWindowCheck at hres
    simp only at hres
    split at hres
    · cases hres
    · split_ifs at hres
      obtain ⟨reply, hreply, -⟩ := map_eq_ok hres
      obtain ⟨msg, hrun⟩ := slidingWindowScript_invalid (windowKeys store (keyDigest key))
        env.server maxRequests _ _ _ db h
      have hok := (withOpTimeout_ok hreply).1
      simp only [windowScript, windowKeys] at hrun
      rw [hrun] at hok
      cases hok

theorem redisSliding_rejected {e : SlidingCall}
    (h : ¬ InTime windowMs e) (db : Db ν) :
    ∃ err, (redisSliding store keyDigest maxRequests windowMs e db).1 = .error err := by
  refine slidingWindowCheck_rejected ?_ e.key db
  rw [Duration.asSecs_fromMillis]
  exact not_le.mp h

/-- The log of a key in the memory store. -/
def logOf (key : String) (s : MemoryStore ν) : List ℤ :=
  ((s.slidingLogs.lookup key).getD .empty).log

theorem memoryCheck_self {now cutoff : ℤ} {window : ℕ}
    (hcutoff : instantSub now window = some cutoff) (key : String) (s : MemoryStore ν) :
    (MemoryStore.slidingWindowCheck key maxRequests window now s).1 =
        .ok (recordRequest maxRequests now (pruneLog cutoff (logOf key s))).1 ∧
      logOf key (MemoryStore.slidingWindowCheck key maxRequests window now s).2 =
        (recordRequest maxRequests now (pruneLog cutoff (logOf key s))).2 := by
  rw [MemoryStore.slidingWindowCheck_eq hcutoff]
  refine ⟨rfl, ?_⟩
  rw [logOf, KeyMap.access_lookup_self]
  rfl

theorem memoryCheck_other {key other : String} (hkey : other ≠ key) (window : ℕ) (now : ℤ)
    (s : MemoryStore ν) :
    logOf other (MemoryStore.slidingWindowCheck key maxRequests window now s).2 =
      logOf other s := by
  unfold logOf
  rcases s.slidingWindowCheck_cases key maxRequests window now with ⟨-, heq⟩ | ⟨cutoff, -, heq⟩
  · rw [heq]
  · rw [heq, KeyMap.access_lookup_ne _ hkey]

theorem memorySliding_eq {e : SlidingCall}
    (haccepted : InTime windowMs e)
    {s : MemoryStore ν} {stamps : List ℕ} (hsorted : stamps.Pairwise (· ≤ ·))
    (hlog : logOf e.key s = stamps.map instantOf) (maxRequests : ℕ) :
    (memorySliding maxRequests windowMs e s).1 = .ok (recordRequest maxRequests (instantOf e.ms)
        ((fromEdge (e.ms - windowMs) stamps).map instantOf)).1 ∧
      logOf e.key (memorySliding maxRequests windowMs e s).2 =
        (recordRequest maxRequests (instantOf e.ms)
          ((fromEdge (e.ms - windowMs) stamps).map instantOf)).2 := by
  have hcutoff : instantSub (instantOf e.ms) (Duration.fromMillis windowMs) =
      some (instantOf e.ms - Duration.fromMillis windowMs) := by
    refine instantSub_some.mpr ⟨?_, rfl⟩
    have hsecs := haccepted.secs_le
    simp only [InTime, int64Max] at haccepted
    simp only [instantMin, instantOf, Duration.fromMillis]
    omega
  rw [← pruneLog_instants hsorted, ← hlog]
  exact memoryCheck_self hcutoff e.key s

end

/-! ## Agreement -/

/-- A key in both stores, with the stamps that both hold, at time `t`. -/
structure SameStamps (maxRequests t : ℕ) (K : WindowKeys) (db : Db ν) (log : List ℤ)
    (stamps : List ℕ) : Prop where
  companions : Companions (db.lookup K.key) (db.lookup K.seqkey)
  here : HoldsStamps stamps (stampsAt K db)
  there : log = stamps.map instantOf
  sorted : stamps.Pairwise (· ≤ ·)
  le_now : ∀ k ∈ stamps, k ≤ t
  length_le : stamps.length ≤ maxRequests

theorem SameStamps.mono {maxRequests t u : ℕ} {K : WindowKeys} {db : Db ν} {log : List ℤ}
    {stamps : List ℕ} (htu : t ≤ u) (h : SameStamps maxRequests t K db log stamps) :
    SameStamps maxRequests u K db log stamps :=
  { h with le_now := fun k hk => (h.le_now k hk).trans htu }

theorem SameStamps.congr {maxRequests t : ℕ} {K : WindowKeys} {db db' : Db ν} {log : List ℤ}
    {stamps : List ℕ} (h : SameStamps maxRequests t K db log stamps)
    (hkey : db'.lookup K.key = db.lookup K.key)
    (hseq : db'.lookup K.seqkey = db.lookup K.seqkey) :
    SameStamps maxRequests t K db' log stamps := by
  have hstamps : stampsAt K db' = stampsAt K db := by
    unfold stampsAt
    rw [hkey]
  exact { h with companions := by rw [hkey, hseq]; exact h.companions
                 here := hstamps ▸ h.here }

/-! ### What a call answers and records -/

/-- The answer of a call that counts so many requests in its window. -/
def windowAnswer (maxRequests count : ℕ) : Bool × ℕ :=
  if count < maxRequests then (true, maxRequests - count - 1) else (false, 0)

/-- The stamps after a call: one more if there is room. -/
def recorded (maxRequests ms : ℕ) (stamps : List ℕ) : List ℕ :=
  if stamps.length < maxRequests then stamps ++ [ms] else stamps

/-- The answer tells how many requests were counted, up to the limit. -/
theorem windowAnswer_ne {maxRequests n m : ℕ} (hnm : n < m) (hm : m ≤ maxRequests) :
    windowAnswer maxRequests n ≠ windowAnswer maxRequests m := by
  unfold windowAnswer
  rw [if_pos (by omega)]
  split_ifs
  · simp only [ne_eq, Prod.mk.injEq, true_and]
    omega
  · simp

theorem recorded_sorted (maxRequests : ℕ) {ms : ℕ} {stamps : List ℕ}
    (hsorted : stamps.Pairwise (· ≤ ·)) (hle : ∀ k ∈ stamps, k ≤ ms) :
    (recorded maxRequests ms stamps).Pairwise (· ≤ ·) ∧
      ∀ k ∈ recorded maxRequests ms stamps, k ≤ ms := by
  unfold recorded
  split_ifs
  · constructor
    · refine List.pairwise_append.mpr ⟨hsorted, List.pairwise_singleton _ _, ?_⟩
      intro k hk j hj
      rw [List.mem_singleton.mp hj]
      exact hle k hk
    · intro k hk
      rcases List.mem_append.mp hk with hold | hnew
      · exact hle k hold
      · exact (List.mem_singleton.mp hnew).le
  · exact ⟨hsorted, hle⟩

theorem recorded_length_le {maxRequests ms : ℕ} {stamps : List ℕ}
    (h : stamps.length ≤ maxRequests) : (recorded maxRequests ms stamps).length ≤ maxRequests := by
  unfold recorded
  split_ifs with hroom
  · rw [List.length_append, List.length_singleton]
    omega
  · exact h

theorem recordRequest_instants (maxRequests ms : ℕ) (stamps : List ℕ) :
    recordRequest maxRequests (instantOf ms) (stamps.map instantOf) =
      (windowAnswer maxRequests stamps.length, (recorded maxRequests ms stamps).map instantOf) := by
  unfold recordRequest windowAnswer recorded
  simp only [List.length_map]
  split_ifs
  · rw [List.map_append, List.map_singleton]
  · rfl

/-- What is left of the limit, as a reply. -/
theorem asU64_remaining {maxRequests n : ℕ} (hmax : maxRequests < 2 ^ 31) (hn : n < maxRequests) :
    asU64 ((maxRequests : ℤ) - n - 1) = maxRequests - n - 1 := by
  unfold asU64
  omega

section
variable {store : RedisStore} {keyDigest : String → String} {maxRequests windowMs : ℕ}
  {e : SlidingCall} {db : Db ν} {s : MemoryStore ν} {stamps : List ℕ}

/-- The memory store counts the stamps that are not before the edge. -/
theorem SameStamps.memory
    (h : SameStamps maxRequests e.ms (windowKeys store (keyDigest e.key)) db (logOf e.key s) stamps)
    (haccepted : InTime windowMs e) :
    (memorySliding maxRequests windowMs e s).1 =
        .ok (windowAnswer maxRequests (fromEdge (e.ms - windowMs) stamps).length) ∧
      logOf e.key (memorySliding maxRequests windowMs e s).2 =
        (recorded maxRequests e.ms (fromEdge (e.ms - windowMs) stamps)).map instantOf := by
  have hmemory := memorySliding_eq haccepted h.sorted h.there maxRequests
  rw [recordRequest_instants] at hmemory
  exact hmemory

theorem SameStamps.inRange_iff
    (h : SameStamps maxRequests e.ms (windowKeys store (keyDigest e.key)) db
      (logOf e.key s) stamps) : InRange store keyDigest maxRequests windowMs e db ↔
    ((afterEdge (e.ms - windowMs) stamps).length < maxRequests →
      integerAt e.ms (windowKeys store (keyDigest e.key)).seqkey db < 10 ^ 14) := by
  rw [InRange, (h.here.kept _).size]

/-- The Redis store counts the stamps after the edge. -/
theorem SameStamps.redis
    (h : SameStamps maxRequests e.ms (windowKeys store (keyDigest e.key)) db (logOf e.key s) stamps)
    (hlive : NoExpiry store keyDigest e db) (hmax : maxRequests < 2 ^ 31)
    (haccepted : InTime windowMs e)
    (hnumbered : InRange store keyDigest maxRequests windowMs e db) :
    (redisSliding store keyDigest maxRequests windowMs e db).1 =
        .ok (windowAnswer maxRequests (afterEdge (e.ms - windowMs) stamps).length) ∧
      HoldsStamps (recorded maxRequests e.ms (afterEdge (e.ms - windowMs) stamps))
        (stampsAt (windowKeys store (keyDigest e.key))
          (redisSliding store keyDigest maxRequests windowMs e db).2) := by
  have hkept := h.here.kept (e.ms - windowMs)
  have hexact : maxRequests < 2 ^ 53 := hmax.trans (by decide)
  obtain ⟨r, db', hrun, hgrant, hdeny⟩ := h.companions.execution hlive (Int.natCast_nonneg _)
    haccepted maxRequests e.ms (e.ms - windowMs)
  rw [hkept.size, findsRoom_iff hexact] at hgrant hdeny
  rw [(redisSliding_eq haccepted db).1, (redisSliding_eq haccepted db).2, hrun]
  unfold windowAnswer recorded
  by_cases hroom : (afterEdge (e.ms - windowMs) stamps).length < maxRequests
  · obtain ⟨rfl, member, hnew, hstamps⟩ := hgrant hroom (h.inRange_iff.mp hnumbered hroom)
    rw [if_pos hroom, if_pos hroom, hstamps, leftAfter_eq hexact hroom]
    refine ⟨?_, hkept.add hnew e.ms⟩
    show Except.ok (true, asU64 _) = _
    rw [asU64_remaining hmax hroom]
  · obtain ⟨rfl, hstamps⟩ := hdeny hroom
    rw [if_neg hroom, if_neg hroom, hstamps]
    exact ⟨rfl, hkept⟩

theorem InStep.fromEdge_eq (hstep : InStep store keyDigest maxRequests windowMs e db)
    (hhere : HoldsStamps stamps (stampsAt (windowKeys store (keyDigest e.key)) db)) :
    fromEdge (e.ms - windowMs) stamps = afterEdge (e.ms - windowMs) stamps := by
  refine ArmatureRatelimit.fromEdge_eq ?_
  intro k hk
  obtain ⟨m, hm⟩ := (hhere.mem_iff _).mpr ⟨k, hk, rfl⟩
  exact hstep.off_edge m _ hm

/-- Both give one answer to a call that is in step. -/
theorem SameStamps.sameAnswer
    (h : SameStamps maxRequests e.ms (windowKeys store (keyDigest e.key)) db (logOf e.key s) stamps)
    (hlive : NoExpiry store keyDigest e db) (hmax : maxRequests < 2 ^ 31)
    (hstep : InStep store keyDigest maxRequests windowMs e db) :
    SameAnswer (redisSliding store keyDigest maxRequests windowMs e db).1
      (memorySliding maxRequests windowMs e s).1 := by
  refine ⟨_, (h.redis hlive hmax hstep.accepted hstep.numbered).1, ?_⟩
  rw [(h.memory hstep.accepted).1, hstep.fromEdge_eq h.here]

/-- A call in the range of the numbers that both give one answer to is in step. -/
theorem SameStamps.inStep
    (h : SameStamps maxRequests e.ms (windowKeys store (keyDigest e.key)) db (logOf e.key s) stamps)
    (hlive : NoExpiry store keyDigest e db) (hmax : maxRequests < 2 ^ 31) (hms : e.ms < 2 ^ 53)
    (hnumbered : InRange store keyDigest maxRequests windowMs e db)
    (hsame : SameAnswer (redisSliding store keyDigest maxRequests windowMs e db).1
      (memorySliding maxRequests windowMs e s).1) :
    InStep store keyDigest maxRequests windowMs e db := by
  obtain ⟨a, hredis, hmemory⟩ := hsame
  by_cases haccepted : InTime windowMs e
  · refine ⟨haccepted, ?_, hnumbered⟩
    -- with a stamp at the edge the two count differently
    intro m s hm hs
    obtain ⟨k, hk, hks⟩ := (h.here.mem_iff s).mp ⟨m, hm⟩
    have hkms := h.le_now k hk
    have hedge := eq_of_luaInt_eq (by omega) (hkms.trans_lt hms) (hs.symm.trans hks.symm)
    have hlt := afterEdge_lt hk hedge.symm
    have hle : (fromEdge (e.ms - windowMs) stamps).length ≤ maxRequests :=
      (List.length_filter_le _ stamps).trans h.length_le
    rw [(h.redis hlive hmax haccepted hnumbered).1] at hredis
    rw [(h.memory haccepted).1] at hmemory
    exact windowAnswer_ne hlt hle (Except.ok.inj (hredis.trans hmemory.symm))
  · obtain ⟨err, herr⟩ := redisSliding_rejected haccepted db
    rw [herr] at hredis
    cases hredis

/-- The call leaves both with the stamps that the Redis store had counted, and
    its own if it was granted. -/
theorem SameStamps.call
    (h : SameStamps maxRequests e.ms (windowKeys store (keyDigest e.key)) db (logOf e.key s) stamps)
    (hlive : NoExpiry store keyDigest e db) (hmax : maxRequests < 2 ^ 31)
    (hstep : InStep store keyDigest maxRequests windowMs e db) :
    SameStamps maxRequests e.ms (windowKeys store (keyDigest e.key))
      (redisSliding store keyDigest maxRequests windowMs e db).2
      (logOf e.key (memorySliding maxRequests windowMs e s).2)
      (recorded maxRequests e.ms (afterEdge (e.ms - windowMs) stamps)) := by
  have hsub : (afterEdge (e.ms - windowMs) stamps).Sublist stamps := List.filter_sublist
  obtain ⟨hsorted, hle⟩ := recorded_sorted maxRequests (h.sorted.sublist hsub)
    fun k hk => h.le_now k (hsub.subset hk)
  refine ⟨?_, (h.redis hlive hmax hstep.accepted hstep.numbered).2, ?_, hsorted, hle,
    recorded_length_le (hsub.length_le.trans h.length_le)⟩
  · rw [(redisSliding_eq hstep.accepted db).2]
    exact h.companions.script (Int.natCast_nonneg _) _ _ _
  · rw [(h.memory hstep.accepted).2, hstep.fromEdge_eq h.here]

end

/-! ### Runs -/

section
variable {store : RedisStore} {keyDigest : String → String} {maxRequests windowMs : ℕ}

/-- The call touches the keys of its own digest only. -/
theorem redisSliding_other {e : SlidingCall} {digest : String} (hdigest : digest ≠ keyDigest e.key)
    (haccepted : InTime windowMs e) (store : RedisStore)
    (maxRequests : ℕ) (db : Db ν) :
    (redisSliding store keyDigest maxRequests windowMs e db).2.lookup
        (windowKeys store digest).key = db.lookup (windowKeys store digest).key ∧
      (redisSliding store keyDigest maxRequests windowMs e db).2.lookup
        (windowKeys store digest).seqkey = db.lookup (windowKeys store digest).seqkey := by
  rw [(redisSliding_eq haccepted db).2]
  constructor
  · refine slidingWindowScript_leaves ?_ ?_ ?_ _ _ _ _ db
    · exact fun heq => hdigest (key_inj (by decide) (by decide) heq).2
    · exact key_ne (by decide) (by decide) (by decide)
    · exact key_ne (by decide) (by decide) (by decide)
  · refine slidingWindowScript_leaves ?_ ?_ ?_ _ _ _ _ db
    · exact key_ne (by decide) (by decide) (by decide)
    · exact key_ne (by decide) (by decide) (by decide)
    · exact fun heq => hdigest (key_inj (by decide) (by decide) heq).2

theorem memorySliding_other {e : SlidingCall} {key : String} (hkey : key ≠ e.key)
    (s : MemoryStore ν) : logOf key (memorySliding maxRequests windowMs e s).2 = logOf key s := by
  unfold memorySliding
  exact memoryCheck_other hkey _ _ s

/-- Both stores hold the same stamps under these keys. -/
def SameWindows (store : RedisStore) (keyDigest : String → String) (maxRequests : ℕ)
    (keys : List String) (t : ℕ) (db : Db ν) (s : MemoryStore ν) : Prop :=
  ∀ key ∈ keys, ∃ stamps,
    SameStamps maxRequests t (windowKeys store (keyDigest key)) db (logOf key s) stamps

/-- The clock is in the range of the doubles and the counter in that of the texts. -/
def Exact (store : RedisStore) (keyDigest : String → String) (maxRequests windowMs : ℕ)
    (e : SlidingCall) (db : Db ν) : Prop :=
  e.ms < 2 ^ 53 ∧ InRange store keyDigest maxRequests windowMs e db

theorem sliding_agreement (ν : Type) (store : RedisStore) (windowMs : ℕ) {keys : List String}
    (hdistinct : ∀ key ∈ keys, ∀ key' ∈ keys, keyDigest key = keyDigest key' → key = key')
    (hmax : maxRequests < 2 ^ 31) :
    Agreement (redisSliding (ν := ν) store keyDigest maxRequests windowMs)
      (memorySliding maxRequests windowMs) SlidingCall.ms SameAnswer
      (fun e db => e.key ∈ keys ∧ NoExpiry store keyDigest e db)
      (Exact store keyDigest maxRequests windowMs) (InStep store keyDigest maxRequests windowMs)
      (SameWindows store keyDigest maxRequests keys) where
  mono htu h key hkey := by
    obtain ⟨stamps, hstamps⟩ := h key hkey
    exact ⟨stamps, hstamps.mono htu⟩
  agree_of_ok {e db s} hside h hstep := by
    obtain ⟨stamps, hstamps⟩ := h e.key hside.1
    exact hstamps.sameAnswer hside.2 hmax hstep
  ok_of_agree {e db s} hside h hexact hsame := by
    obtain ⟨stamps, hstamps⟩ := h e.key hside.1
    exact hstamps.inStep hside.2 hmax hexact.1 hexact.2 hsame
  next {e db s} hside h hstep key hkey := by
    obtain ⟨stamps, hstamps⟩ := h key hkey
    by_cases hself : key = e.key
    · subst hself
      exact ⟨_, hstamps.call hside.2 hmax hstep⟩
    · have hdigest : keyDigest key ≠ keyDigest e.key := fun heq =>
        hself (hdistinct key hkey e.key hside.1 heq)
      obtain ⟨hset, hseq⟩ := redisSliding_other hdigest hstep.accepted store maxRequests db
      refine ⟨stamps, ?_⟩
      rw [memorySliding_other hself]
      exact hstamps.congr hset hseq

/-- **When the sliding windows of the two stores agree.**  In a run of checks in
    the order of time, of which no key expires, the stores give the same answers
    if the deadline of every check is accepted, no check finds a stamp of its key
    that is exactly one window old, and none that finds room finds the counter of
    the members out of range; and with the clock and the counter in their ranges
    they do so only then. -/
theorem slidingStores_agree_iff (store : RedisStore) (keyDigest : String → String)
    (maxRequests windowMs : ℕ) (hmax : maxRequests < 2 ^ 31) {calls : List SlidingCall}
    (hdistinct : ∀ e ∈ calls, ∀ e' ∈ calls, keyDigest e.key = keyDigest e'.key → e.key = e'.key)
    {start : Db ν} (hfresh : ∀ e ∈ calls,
      start.lookup (windowKeys store (keyDigest e.key)).key = none ∧
        start.lookup (windowKeys store (keyDigest e.key)).seqkey = none)
    {s : MemoryStore ν} (hlogs : s.slidingLogs = ∅)
    (hord : calls.Pairwise (fun i j => i.ms ≤ j.ms))
    (hlive : Allowed (redisSliding store keyDigest maxRequests windowMs)
      (NoExpiry store keyDigest) start calls) :
    (Allowed (redisSliding store keyDigest maxRequests windowMs)
        (InStep store keyDigest maxRequests windowMs) start calls →
      List.Forall₂ SameAnswer
        (outputs (redisSliding store keyDigest maxRequests windowMs) start calls)
        (outputs (memorySliding maxRequests windowMs) s calls)) ∧
    (Allowed (redisSliding store keyDigest maxRequests windowMs)
        (Exact store keyDigest maxRequests windowMs) start calls →
      (List.Forall₂ SameAnswer
          (outputs (redisSliding store keyDigest maxRequests windowMs) start calls)
          (outputs (memorySliding maxRequests windowMs) s calls) ↔
        Allowed (redisSliding store keyDigest maxRequests windowMs)
          (InStep store keyDigest maxRequests windowMs) start calls)) := by
  have hkeys : ∀ key ∈ calls.map SlidingCall.key, ∀ key' ∈ calls.map SlidingCall.key,
      keyDigest key = keyDigest key' → key = key' := by simpa using hdistinct
  have hagreement := sliding_agreement ν store windowMs hkeys hmax
  have hside : Allowed (redisSliding store keyDigest maxRequests windowMs)
      (fun e db => e.key ∈ calls.map SlidingCall.key ∧ NoExpiry store keyDigest e db) start calls :=
    hlive.imp fun e he db hdb => ⟨List.mem_map_of_mem he, hdb⟩
  have hstart : SameWindows store keyDigest maxRequests (calls.map SlidingCall.key) 0 start s := by
    intro key hkey
    obtain ⟨e, he, rfl⟩ := List.mem_map.mp hkey
    obtain ⟨hset, hseq⟩ := hfresh e he
    have hstamps : stampsAt (windowKeys store (keyDigest e.key)) start = ∅ := by
      unfold stampsAt
      rw [hset]
    have hempty : logOf e.key s = [] := by
      unfold logOf
      rw [hlogs]
      rfl
    refine ⟨[], ?_, ?_, hempty, .nil, ?_, Nat.zero_le _⟩
    · rw [hset, hseq]
      exact .fresh fun _ hj => hj
    · rw [hstamps]
      rfl
    · intro k hk
      cases hk
  have hzero : ∀ e ∈ calls, 0 ≤ e.ms := fun _ _ => Nat.zero_le _
  exact ⟨hagreement.outputs_agree hside hord hzero hstart,
    hagreement.outputs_iff hside hord hzero hstart⟩

end

instance (K : WindowKeys) (db : Db ν) (server : ℤ) : Decidable (KeysLive K db server) :=
  inferInstanceAs (Decidable (_ ∧ _))

/-- Two checks of a client, to be answered at a limit of one in a second. -/
def twiceAt (ms : ℕ) : List SlidingCall := [⟨"client", 0⟩, ⟨"client", ms⟩]

/-- The check in a Redis store. -/
def clientSliding : SlidingCall → Db ℚ → Outcome (Bool × ℕ) × Db ℚ :=
  redisSliding ⟨"ratelimit", defaultOperationTimeout⟩ (keyDigest sampleSha256) 1 1000

/-- The answers of the two stores, both new. -/
def twiceAnswers (ms : ℕ) : List (Outcome (Bool × ℕ)) × List (Outcome (Bool × ℕ)) :=
  (outputs clientSliding ∅ (twiceAt ms),
    outputs (memorySliding 1 1000) (.new : MemoryStore ℚ) (twiceAt ms))

theorem slidingStores_agree_iff_twice :
    List.Forall₂ SameAnswer (twiceAnswers 1001).1 (twiceAnswers 1001).2 ↔
      Allowed clientSliding (InStep ⟨"ratelimit", defaultOperationTimeout⟩
        (keyDigest sampleSha256) 1 1000) ∅ (twiceAt 1001) := by
  refine (slidingStores_agree_iff _ (keyDigest sampleSha256) 1 1000 (by decide) ?_
    (fun _ _ => ⟨rfl, rfl⟩) rfl (by decide) ?_).2 ?_
  · simp [twiceAt]
  · refine ⟨?_, ?_, trivial⟩
    · show KeysLive _ _ _
      decide +kernel
    · show KeysLive _ _ _
      decide +kernel
  · refine ⟨⟨by decide, ?_⟩, ⟨by decide, ?_⟩, trivial⟩
    · intro _
      decide +kernel
    · intro _
      decide +kernel

/-- A stamp that is exactly one window old: the Redis store has dropped it, the
    memory store has not. -/
theorem slidingStores_disagree :
    Allowed clientSliding (NoExpiry ⟨"ratelimit", defaultOperationTimeout⟩ (keyDigest sampleSha256))
      ∅ (twiceAt 1000) ∧
    ¬ List.Forall₂ SameAnswer (twiceAnswers 1000).1 (twiceAnswers 1000).2 := by
  constructor
  · refine ⟨?_, ?_, trivial⟩
    · show KeysLive _ _ _
      decide +kernel
    · show KeysLive _ _ _
      decide +kernel
  · have hanswers : twiceAnswers 1000 =
        ([.ok (true, 0), .ok (true, 0)], [.ok (true, 0), .ok (false, 0)]) := by decide +kernel
    rw [hanswers]
    intro h
    rcases h with _ | ⟨-, _ | ⟨⟨a, ha, ha'⟩, -⟩⟩
    exact absurd (ha.trans ha'.symm) (by decide)

end ArmatureRatelimit
