/-
  The three token buckets, call by call, over exact rationals: the standalone
  limiter, the memory store and the Redis store.

  After a reset the limiter has a full bucket and the stores have none, which a
  later check cannot tell apart (`SameLevel`).  Otherwise all three hold the
  tokens and the time of the last check (`SameBucket`).  So they answer every
  check alike, as long as the Redis script is given a deadline that the server
  accepts (`tokenBuckets_agree_iff`).
-/
import ArmatureRatelimit.Operations
import ArmatureRatelimit.Proof.KeyNames
import ArmatureRatelimit.Scripts.TokenBucket

open Lib Lib.Redis

namespace ArmatureRatelimit

open RedisStore

/-! ## Events -/

/-- What is done to a bucket; `swept` is what `SCAN` returns to a reset, batch
    by batch. -/
inductive BucketAction
  | check
  | reset (swept : List (List String))

/-- A check or a reset of a key, with the time it reads, the clock of the Redis
    server and the behaviour of an eviction. -/
structure BucketEvent where
  key : String
  action : BucketAction
  now : ℕ
  server : ℤ
  sel : Selection

namespace BucketEvent

/-- The event at the limiter and at the memory store. -/
def operation (e : BucketEvent) : Operation :=
  match e.action with
  | .check => ⟨.check e.key, e.now, e.now, e.sel⟩
  | .reset _ => ⟨.reset e.key, e.now, e.now, e.sel⟩

section
variable (capacity : ℕ) (refillRate : ℚ)

/-- The event at the Redis store; the server answers at once. -/
def call (e : BucketEvent) : RedisCall ℚ where
  env := ⟨e.now, e.server, .answered 0⟩
  op :=
    match e.action with
    | .check => .tokenBucket e.key capacity refillRate
    | .reset swept => .reset e.key fun _ => swept.map fun keys => ⟨.answered 0, keys, .answered 0⟩

def limiterStep (e : BucketEvent) : TokenBucket ℚ → OpReply × TokenBucket ℚ :=
  TokenBucket.operate e.operation

def memoryStep (e : BucketEvent) : MemoryStore ℚ → OpReply × MemoryStore ℚ :=
  MemoryStore.operate (.tokenBucket capacity refillRate) e.operation

def redisStep (store : RedisStore) (keyDigest : String → String) (e : BucketEvent) :
    Db ℚ → Outcome (Option (Bool × ℕ)) × Db ℚ :=
  store.serve keyDigest (e.call capacity refillRate)

end

/-- A check of a new key finds room for it in the limiter. -/
def HasRoom (e : BucketEvent) (limiter : TokenBucket ℚ) : Prop :=
  e.action = .check →
    ¬ (limiter.buckets.lookup e.key = none ∧ limiter.maxKeys ≤ limiter.buckets.size)

end BucketEvent

/-! ## The limiter and the memory store -/

section
variable {capacity : ℕ} {refillRate : ℚ}

/-- No check from `t` on tells the buckets apart. -/
def SameLevel (capacity : ℕ) (refillRate : ℚ) (t : ℕ) (b b' : Option (BucketState ℚ)) : Prop :=
  ∀ u : ℕ, t ≤ u → BucketState.level capacity refillRate u b =
    BucketState.level capacity refillRate u b'

theorem SameLevel.mono {t u : ℕ} {b b' : Option (BucketState ℚ)} (htu : t ≤ u)
    (h : SameLevel capacity refillRate t b b') : SameLevel capacity refillRate u b b' :=
  fun v hv => h v (htu.trans hv)

/-- A full bucket is as good as none. -/
theorem sameLevel_full (hr : 0 ≤ refillRate) (t : ℕ) (now : ℤ) :
    SameLevel capacity refillRate t (some (.full capacity now)) none := by
  intro u _
  have hrefill := mul_nonneg (Duration.secs_nonneg (durationSince u now)) hr
  simp only [BucketState.level, BucketState.full, F64.ofInt_rat, Int.cast_natCast]
  exact min_eq_right (by linarith)

/-- The call makes the same of buckets that are at one level. -/
theorem SameLevel.acquire (hr : 0 ≤ refillRate) {now : ℕ} {b b' : Option (BucketState ℚ)}
    (h : SameLevel capacity refillRate now b b') :
    BucketState.acquire capacity refillRate now now b =
      BucketState.acquire capacity refillRate now now b' := by
  rw [BucketState.acquire_rat hr, BucketState.acquire_rat hr, h now le_rfl]

end

/-- The limiter and the store at time `t`. -/
structure LimiterRel (capacity : ℕ) (refillRate : ℚ) (t : ℕ) (limiter : TokenBucket ℚ)
    (s : MemoryStore ℚ) : Prop where
  capacity_eq : limiter.capacity = capacity
  refillRate_eq : limiter.refillRate = refillRate
  same : ∀ k, SameLevel capacity refillRate t (limiter.buckets.lookup k) (s.tokenBuckets.lookup k)

theorem tokenBucket_sim (capacity : ℕ) {refillRate : ℚ} (hr : 0 ≤ refillRate) :
    Sim BucketEvent.limiterStep (BucketEvent.memoryStep capacity refillRate) (fun _ => true)
      BucketEvent.now BucketEvent.HasRoom (LimiterRel capacity refillRate) where
  mono htu h := ⟨h.capacity_eq, h.refillRate_eq, fun k => (h.same k).mono htu⟩
  visible_step {e limiter s} _ hroom h := by
    obtain ⟨key, action, now, server, sel⟩ := e
    obtain ⟨hcap, hrate, hsame⟩ := h
    cases action with
    | check =>
      have hmake := makeRoom_of_not sel TokenBucket.lastActive (hroom rfl)
      have hacquire := (hsame key).acquire hr
      simp only [BucketEvent.limiterStep, BucketEvent.memoryStep, BucketEvent.operation,
        TokenBucket.operate, TokenBucket.tryAcquire, MemoryStore.operate, MemoryStore.checkWith,
        MemoryStore.backend, MemoryStore.tokenBucketCheck, MemoryStore.tokenBucketBody, hmake,
        hcap, hrate]
      refine ⟨?_, rfl, rfl, ?_⟩
      · simp only [KeyMap.access, hacquire]
      · intro k
        simp only [KeyMap.access, KeyMap.lookup_insert_eq_ite]
        split_ifs
        · rw [hacquire]
          exact fun _ _ => rfl
        · exact hsame k
    | reset swept =>
      refine ⟨rfl, hcap, hrate, ?_⟩
      intro k
      show SameLevel capacity refillRate now
        ((limiter.buckets.insert key (.full limiter.capacity now)).lookup k)
        ((s.tokenBuckets.erase key).lookup k)
      rw [KeyMap.lookup_insert_eq_ite, KeyMap.lookup_erase_eq_ite, hcap]
      split_ifs
      · exact sameLevel_full hr now now
      · exact hsame k
  silent_step hv := absurd hv (by decide)

/-! ## The memory store and the Redis store -/

/-- The bucket of a key in the two stores at time `t`: missing in both, or with
    the same tokens and the same time. -/
inductive SameBucket (t : ℕ) : Option (Entry ℚ) → Option (BucketState ℚ) → Prop
  | missing : SameBucket t none none
  | bucket {h : KeyMap String ℚ} {tokens : ℚ} {last : ℕ} {d : Option ℤ}
      (here : HoldsBucket h tokens (Duration.secs last)) (past : last ≤ t) :
      SameBucket t (some ⟨.hash h, d⟩) (some ⟨tokens, last⟩)

theorem SameBucket.mono {t u : ℕ} {e : Option (Entry ℚ)} {b : Option (BucketState ℚ)} (htu : t ≤ u)
    (h : SameBucket t e b) : SameBucket u e b := by
  cases h with
  | missing => exact .missing
  | bucket here past => exact .bucket here (past.trans htu)

/-- The script refills to the level of the memory store. -/
theorem SameBucket.view {now : ℕ} {server : ℤ} {key : String} {db : Db ℚ}
    {b : Option (BucketState ℚ)} (h : SameBucket now (db.lookup key) b)
    (hlive : ∀ x, db.lookup key = some x → x.live server = true) (capacity : ℕ) (refillRate : ℚ) :
    ∃ g d, hashAt server key db = some (g, d) ∧
      refilled (capacity : ℚ) refillRate (Duration.secs now) g =
        BucketState.level capacity refillRate now b := by
  have hfind := find_live hlive
  generalize db.lookup key = e at h hfind
  cases h with
  | missing => exact ⟨∅, none, viewAt_none hfind, refilled_empty _ _ _⟩
  | @bucket g tokens last d here past =>
    refine ⟨g, d, viewAt_some hfind rfl, ?_⟩
    have hspan : Duration.secs (durationSince now last) =
        Duration.secs now - Duration.secs last := by
      have hsub : durationSince now last = now - last := by
        unfold durationSince
        omega
      rw [hsub, Duration.secs, Duration.secs, Duration.secs, Nat.cast_sub past, sub_div]
    rw [here.refilled_rat, BucketState.level, hspan]

/-- Tokens as a reply, below the bound of the doubles. -/
theorem asU64_toReply {x : ℚ} (hx : 0 ≤ x) (hmax : x < 2 ^ 53) :
    asU64 (F64.toReply (F64.floor x)) = F64.toU64 x := by
  have hfloor : 0 ≤ ⌊x⌋ := Int.floor_nonneg.mpr hx
  have hlt : ⌊x⌋ < 2 ^ 53 := Int.floor_lt.mpr (by exact_mod_cast hmax)
  have hreply : F64.toReply (F64.floor x) = ⌊x⌋ := by
    show (if (0 : ℚ) ≤ ((⌊x⌋ : ℤ) : ℚ) then ⌊((⌊x⌋ : ℤ) : ℚ)⌋ else ⌈((⌊x⌋ : ℤ) : ℚ)⌉) = ⌊x⌋
    rw [if_pos (by exact_mod_cast hfloor), Int.floor_intCast]
  rw [hreply, F64.toU64_rat]
  unfold asU64 u64Max
  omega

/-- The reply of the script is the answer of the memory store. -/
theorem bucketReply_answer {capacity : ℕ} {refillRate : ℚ} (hmax : capacity < 2 ^ 53)
    (hr : 0 ≤ refillRate) {now : ℕ} {g : KeyMap String ℚ} {b : Option (BucketState ℚ)}
    (hlevel : refilled (capacity : ℚ) refillRate (Duration.secs now) g =
      BucketState.level capacity refillRate now b) :
    ((bucketReply (capacity : ℚ) refillRate (Duration.secs now) g).1 == 1,
        asU64 (bucketReply (capacity : ℚ) refillRate (Duration.secs now) g).2) =
      (BucketState.acquire capacity refillRate now now b).1 := by
  have hle := BucketState.level_le capacity refillRate now b
  rw [BucketState.acquire_rat_fst hr]
  unfold bucketReply
  simp only [hlevel, F64.le_rat, F64.ofInt_rat, Int.cast_one, decide_eq_true_eq]
  generalize BucketState.level capacity refillRate now b = level at hle ⊢
  split_ifs with hone
  · have hlt : level - 1 < 2 ^ 53 := by
      have : (capacity : ℚ) < 2 ^ 53 := by exact_mod_cast hmax
      linarith
    rw [asU64_toReply (by linarith) hlt]
    rfl
  · rfl

/-! ### Checks -/

section
variable {store : RedisStore} {keyDigest : String → String} {capacity : ℕ} {refillRate : ℚ}

/-- The key of a bucket. -/
def tokenBucketKey (store : RedisStore) (digest : String) : String := store.key ("tb:" ++ digest)

theorem tokenBucketKey_ne {digest digest' : String} (h : digest ≠ digest') :
    tokenBucketKey store digest ≠ tokenBucketKey store digest' :=
  fun heq => h (key_inj (by decide) (by decide) heq).2

/-- A check that is answered, in terms of its script. -/
theorem tokenBucketCheck_answered (store : RedisStore) (keyDigest : String → String)
    (capacity : ℕ) (refillRate : ℚ) (now : ℕ) (server : ℤ) (key : String) (db : Db ℚ) :
    (store.tokenBucketCheck keyDigest ⟨now, server, .answered 0⟩ key capacity refillRate db).1 =
        ((tokenBucketScript server (tokenBucketKey store (keyDigest key)) (capacity : ℚ) refillRate
          (Duration.secs now) db).1.mapError fun msg => .err (.storeError msg)).map
            (fun result => (result.1 == 1, asU64 result.2)) ∧
      (store.tokenBucketCheck keyDigest ⟨now, server, .answered 0⟩ key capacity refillRate db).2 =
        (tokenBucketScript server (tokenBucketKey store (keyDigest key)) (capacity : ℚ) refillRate
          (Duration.secs now) db).2 := by
  have hd : sinceEpoch (now : ℤ) = some now := by
    rw [sinceEpoch, if_pos (Int.natCast_nonneg _), Int.toNat_natCast]
  unfold tokenBucketCheck
  simp only [hd, F64.ofDuration_rat, F64.ofInt_rat, Int.cast_natCast]
  rw [withOpTimeout_answered rfl (Nat.zero_le _), withOpTimeout_executed rfl]
  exact ⟨rfl, rfl⟩

/-- The deadline of a check is one that the server accepts. -/
def Accepted (capacity : ℕ) (refillRate : ℚ) (server : ℤ) : Prop :=
  server + 1000 * (⌈(capacity : ℚ) / refillRate⌉ + 10) ≤ int64Max

/-- The check of the Redis store answers as the memory store does, if its
    deadline is accepted, and leaves the same bucket. -/
theorem SameBucket.check (hmax : capacity < 2 ^ 53) (hr : 0 < refillRate) {now : ℕ} {server : ℤ}
    (haccepted : Accepted capacity refillRate server) {key : String} {db : Db ℚ}
    {b : Option (BucketState ℚ)}
    (h : SameBucket now (db.lookup (tokenBucketKey store (keyDigest key))) b)
    (hlive : ∀ x, db.lookup (tokenBucketKey store (keyDigest key)) = some x →
      x.live server = true) :
    (store.tokenBucketCheck keyDigest ⟨now, server, .answered 0⟩ key capacity refillRate db).1 =
        .ok (BucketState.acquire capacity refillRate now now b).1 ∧
      SameBucket now ((store.tokenBucketCheck keyDigest ⟨now, server, .answered 0⟩ key capacity
          refillRate db).2.lookup (tokenBucketKey store (keyDigest key)))
        (some (BucketState.acquire capacity refillRate now now b).2) := by
  obtain ⟨g, d, hview, hlevel⟩ := h.view hlive capacity refillRate
  obtain ⟨httl, hpos⟩ := toInt?_bucketTtl_rat capacity hr
  obtain ⟨hanswer, hstate⟩ :=
    tokenBucketCheck_answered store keyDigest capacity refillRate now server key db
  constructor
  · rw [hanswer, tokenBucketScript_eq hview]
    simp only [httl, deadlineOf_valid haccepted]
    exact congrArg Except.ok (bucketReply_answer hmax hr.le hlevel)
  · rw [hstate, tokenBucketScript_lookup_valid hview httl hpos haccepted,
      BucketState.acquire_rat_snd hr.le]
    refine .bucket ?_ le_rfl
    have hwritten : HoldsBucket (written (capacity : ℚ) refillRate (Duration.secs now) g) _ _ :=
      written_holdsBucket g
    simpa only [hlevel, taken, F64.le_rat, F64.ofInt_rat, Int.cast_one, decide_eq_true_eq]
      using hwritten

/-- A deadline that is not accepted is an error. -/
theorem tokenBucketCheck_rejected (hr : 0 < refillRate) {now : ℕ} {server : ℤ}
    (hnot : ¬ Accepted capacity refillRate server) {key : String} {db : Db ℚ}
    {b : Option (BucketState ℚ)}
    (h : SameBucket now (db.lookup (tokenBucketKey store (keyDigest key))) b)
    (hlive : ∀ x, db.lookup (tokenBucketKey store (keyDigest key)) = some x →
      x.live server = true) :
    ∃ err, (store.tokenBucketCheck keyDigest ⟨now, server, .answered 0⟩ key capacity refillRate
      db).1 = .error err := by
  obtain ⟨g, d, hview, -⟩ := h.view hlive capacity refillRate
  obtain ⟨httl, -⟩ := toInt?_bucketTtl_rat capacity hr
  have hinvalid : ¬ ValidTtl server (F64.toInt? (bucketTtl (capacity : ℚ) refillRate)) := by
    rw [httl]
    rintro ⟨t, ht, hle⟩
    obtain rfl := Option.some.inj ht
    exact hnot hle
  obtain ⟨msg, hmsg⟩ := deadlineOf_invalid hinvalid "expire"
  rw [(tokenBucketCheck_answered store keyDigest capacity refillRate now server key db).1,
    tokenBucketScript_eq hview]
  simp only [hmsg]
  exact ⟨_, rfl⟩

end

/-! ### Runs -/

/-- A check gets the same answer from both; a reset gives none. -/
def SameReply (r : Outcome (Option (Bool × ℕ))) : OpReply → Prop
  | .decision r' => ∃ a, r = .ok (some a) ∧ r' = .ok a
  | _ => True

namespace BucketEvent

section
variable (store : RedisStore) (keyDigest : String → String) (capacity : ℕ) (refillRate : ℚ)

/-- What `SCAN` returns to a reset, which asks for counters of windows, is no
    bucket. -/
def SweepsNoBucket (e : BucketEvent) : Prop :=
  ∀ swept, e.action = .reset swept → ∀ keys ∈ swept, ∀ k ∈ keys, ∀ key,
    k ≠ tokenBucketKey store (keyDigest key)

/-- The bucket of a check has not expired. -/
def Live (e : BucketEvent) (db : Db ℚ) : Prop :=
  e.action = .check →
    ∀ x, db.lookup (tokenBucketKey store (keyDigest e.key)) = some x → x.live e.server = true

/-- The deadline of a check is accepted. -/
def InTime (e : BucketEvent) : Prop := e.action = .check → Accepted capacity refillRate e.server

end

end BucketEvent

section
variable {store : RedisStore} {keyDigest : String → String} {capacity : ℕ} {refillRate : ℚ}

/-- Keys that match the pattern as it is written are no buckets. -/
theorem sweepsNoBucket_of_matches {e : BucketEvent} (h : ∀ swept, e.action = .reset swept →
    ∀ keys ∈ swept, ∀ k ∈ keys, ∃ x, k = store.key ("fw:" ++ (keyDigest e.key ++ ":" ++ x))) :
    e.SweepsNoBucket store keyDigest := by
  intro swept haction keys hkeys k hk key
  obtain ⟨x, rfl⟩ := h swept haction keys hkeys k hk
  exact key_ne (by decide) (by decide) (by decide)

/-- An event touches the bucket of its own key only. -/
theorem redisStep_other {e : BucketEvent} {other : String}
    (hdigest : keyDigest other ≠ keyDigest e.key) (hsweep : e.SweepsNoBucket store keyDigest)
    (db : Db ℚ) :
    (e.redisStep capacity refillRate store keyDigest db).2.lookup
        (tokenBucketKey store (keyDigest other)) =
      db.lookup (tokenBucketKey store (keyDigest other)) := by
  obtain ⟨key, action, now, server, sel⟩ := e
  cases action with
  | check =>
    have hstate :=
      (tokenBucketCheck_answered store keyDigest capacity refillRate now server key db).2
    exact (congrArg (AList.lookup _) hstate).trans
      (tokenBucketScript_leaves (tokenBucketKey_ne hdigest) _ _ _ db)
  | reset swept =>
    refine reset_leaves _ ?_ ?_ db
    · -- the other keys that a reset builds are of other kinds
      unfold fixedKeys
      simp only [List.mem_cons, List.not_mem_nil, or_false, not_or]
      refine ⟨tokenBucketKey_ne hdigest, ?_, ?_, ?_, ?_, ?_⟩
      all_goals exact key_ne (by decide) (by decide) (by decide)
    · intro turn hturn hmem
      obtain ⟨keys, hkeys, rfl⟩ := List.mem_map.mp hturn
      exact hsweep swept rfl keys hkeys _ hmem other rfl

theorem memoryStep_other {e : BucketEvent} {key : String} (hkey : key ≠ e.key)
    (s : MemoryStore ℚ) :
    (e.memoryStep capacity refillRate s).2.tokenBuckets.lookup key = s.tokenBuckets.lookup key := by
  obtain ⟨key', action, now, server, sel⟩ := e
  cases action with
  | check => exact KeyMap.access_lookup_ne _ hkey _
  | reset swept => exact AList.lookup_erase_ne hkey

/-- Both stores hold the same bucket under each of these keys. -/
def SameBuckets (store : RedisStore) (keyDigest : String → String) (keys : List String) (t : ℕ)
    (db : Db ℚ) (s : MemoryStore ℚ) : Prop :=
  ∀ key ∈ keys,
    SameBucket t (db.lookup (tokenBucketKey store (keyDigest key))) (s.tokenBuckets.lookup key)

section
variable {e : BucketEvent} {db : Db ℚ} {s : MemoryStore ℚ} {keys : List String}
  (hmax : capacity < 2 ^ 53) (hr : 0 < refillRate)
  (h : SameBuckets store keyDigest keys e.now db s) (hkey : e.key ∈ keys)
  (hlive : e.Live store keyDigest db)

include hmax hr h hkey hlive

/-- Both give one answer to a check exactly if its deadline is accepted. -/
theorem SameBuckets.reply_iff :
    SameReply (e.redisStep capacity refillRate store keyDigest db).1
        (e.memoryStep capacity refillRate s).1 ↔ e.InTime capacity refillRate := by
  obtain ⟨key, action, now, server, sel⟩ := e
  cases action with
  | check =>
    constructor
    · rintro ⟨a, hredis, -⟩ -
      by_contra hnot
      obtain ⟨err, herr⟩ := tokenBucketCheck_rejected hr hnot (h key hkey) (hlive rfl)
      simp only [BucketEvent.redisStep, serve, BucketEvent.call, herr] at hredis
      cases hredis
    · intro hok
      have hanswer := ((h key hkey).check hmax hr (hok rfl) (hlive rfl)).1
      refine ⟨_, ?_, rfl⟩
      simp only [BucketEvent.redisStep, serve, BucketEvent.call, hanswer]
      rfl
  | reset swept =>
    refine iff_of_true trivial ?_
    intro haction
    cases haction

/-- The event leaves the same bucket under its own key. -/
theorem SameBuckets.self (hok : e.InTime capacity refillRate) :
    SameBucket e.now ((e.redisStep capacity refillRate store keyDigest db).2.lookup
        (tokenBucketKey store (keyDigest e.key)))
      ((e.memoryStep capacity refillRate s).2.tokenBuckets.lookup e.key) := by
  obtain ⟨key, action, now, server, sel⟩ := e
  cases action with
  | check =>
    have hbucket := ((h key hkey).check hmax hr (hok rfl) (hlive rfl)).2
    refine (congrArg (SameBucket now _) ?_).mp hbucket
    exact (KeyMap.access_lookup_self _ _ _).symm
  | reset swept =>
    have hredis : (BucketEvent.redisStep capacity refillRate store keyDigest
        ⟨key, .reset swept, now, server, sel⟩ db).2.lookup
          (tokenBucketKey store (keyDigest key)) = none :=
      reset_removes rfl List.mem_cons_self _ db
    have hmemory : (BucketEvent.memoryStep capacity refillRate
        ⟨key, .reset swept, now, server, sel⟩ s).2.tokenBuckets.lookup key = none :=
      AList.lookup_erase _ _
    rw [hredis, hmemory]
    exact .missing

end

theorem bucket_agreement (store : RedisStore) {keys : List String}
    (hdistinct : ∀ key ∈ keys, ∀ key' ∈ keys, keyDigest key = keyDigest key' → key = key')
    (hmax : capacity < 2 ^ 53) (hr : 0 < refillRate) :
    Agreement (BucketEvent.redisStep capacity refillRate store keyDigest)
      (BucketEvent.memoryStep capacity refillRate) BucketEvent.now SameReply
      (fun e db => e.key ∈ keys ∧ e.SweepsNoBucket store keyDigest ∧ e.Live store keyDigest db)
      (fun _ _ => True) (fun e _ => e.InTime capacity refillRate)
      (SameBuckets store keyDigest keys) where
  mono htu h key hkey := (h key hkey).mono htu
  agree_of_ok hside h := (h.reply_iff hmax hr hside.1 hside.2.2).mpr
  ok_of_agree hside h _ := (h.reply_iff hmax hr hside.1 hside.2.2).mp
  next {e db s} hside h hok key hkey := by
    by_cases hself : key = e.key
    · subst hself
      exact h.self hmax hr hkey hside.2.2 hok
    · have hdigest : keyDigest key ≠ keyDigest e.key := fun heq =>
        hself (hdistinct key hkey e.key hside.1 heq)
      rw [redisStep_other hdigest hside.2.1, memoryStep_other hself]
      exact h key hkey

/-- **When the three token buckets agree.**  In a run of checks and resets in
    the order of time, without evictions and expiry, the limiter and the memory
    store reply alike, and the Redis store answers every check as they do exactly
    when the deadline of every check is accepted. -/
theorem tokenBuckets_agree_iff (store : RedisStore) (keyDigest : String → String)
    {limiter : TokenBucket ℚ} (hnew : TokenBucket.new capacity refillRate = some limiter)
    (hmax : capacity < 2 ^ 53) (maxKeys : ℕ) {s : MemoryStore ℚ} (hs : s.tokenBuckets = ∅)
    {start : Db ℚ}
    (hstart : ∀ key, start.lookup (tokenBucketKey store (keyDigest key)) = none)
    {events : List BucketEvent}
    (hdistinct : ∀ e ∈ events, ∀ e' ∈ events, keyDigest e.key = keyDigest e'.key → e.key = e'.key)
    (hord : events.Pairwise fun e e' => e.now ≤ e'.now)
    (hroom : Allowed BucketEvent.limiterStep BucketEvent.HasRoom (limiter.withMaxKeys maxKeys)
      events)
    (hsweep : ∀ e ∈ events, e.SweepsNoBucket store keyDigest)
    (hlive : Allowed (BucketEvent.redisStep capacity refillRate store keyDigest)
      (BucketEvent.Live store keyDigest) start events) :
    outputs BucketEvent.limiterStep (limiter.withMaxKeys maxKeys) events =
        outputs (BucketEvent.memoryStep capacity refillRate) s events ∧
      (List.Forall₂ SameReply
          (outputs (BucketEvent.redisStep capacity refillRate store keyDigest) start events)
          (outputs (BucketEvent.memoryStep capacity refillRate) s events) ↔
        ∀ e ∈ events, e.InTime capacity refillRate) := by
  obtain ⟨⟨-, hpos⟩, rfl⟩ := TokenBucket.new_eq_some.mp hnew
  have hr : 0 < refillRate := by simpa using hpos
  constructor
  · have hrel : LimiterRel capacity refillRate 0
        (TokenBucket.withMaxKeys ⟨capacity, refillRate, ∅, defaultMaxKeys⟩ maxKeys) s := by
      refine ⟨rfl, rfl, ?_⟩
      intro k
      rw [hs]
      exact fun _ _ => rfl
    have htrace := (tokenBucket_sim capacity hr.le).trace_eq hroom hord
      (fun _ _ => Nat.zero_le _) hrel
    rwa [List.filter_true] at htrace
  · have hkeys : ∀ key ∈ events.map BucketEvent.key, ∀ key' ∈ events.map BucketEvent.key,
        keyDigest key = keyDigest key' → key = key' := by simpa using hdistinct
    have hagreement := bucket_agreement store hkeys hmax hr
    rw [hagreement.outputs_iff (t := 0) (hlive.imp fun e he db hdb =>
      ⟨List.mem_map_of_mem he, hsweep e he, hdb⟩) hord (fun _ _ => Nat.zero_le _) ?_
      (allowed_iff_forall.mpr fun _ _ => trivial)]
    · exact allowed_iff_forall
    · intro key _
      rw [hstart key, hs]
      exact .missing

end

/-- A Redis store, and the events of a bucket of it. -/
def clientStep (capacity : ℕ) (refillRate : ℚ) :
    BucketEvent → Db ℚ → Outcome (Option (Bool × ℕ)) × Db ℚ :=
  BucketEvent.redisStep capacity refillRate ⟨"ratelimit", defaultOperationTimeout⟩
    (keyDigest sampleSha256)

/-- A check of a client, a reset that sweeps the counter of a window, and two
    more checks. -/
def aroundReset : List BucketEvent :=
  [⟨"client", .check, 0, 0, .sorting⟩,
    ⟨"client", .reset [["ratelimit:fw:" ++ (keyDigest sampleSha256 "client" ++ ":7")]], 0, 0,
      .sorting⟩,
    ⟨"client", .check, 0, 0, .sorting⟩, ⟨"client", .check, 500000000, 500, .sorting⟩]

theorem tokenBuckets_agree_iff_aroundReset :
    outputs BucketEvent.limiterStep (TokenBucket.withMaxKeys ⟨1, 1, ∅, defaultMaxKeys⟩ 1)
        aroundReset = outputs (BucketEvent.memoryStep 1 1) .new aroundReset ∧
      (List.Forall₂ SameReply (outputs (clientStep 1 1) ∅ aroundReset)
          (outputs (BucketEvent.memoryStep 1 1) .new aroundReset) ↔
        ∀ e ∈ aroundReset, e.InTime 1 1) := by
  have hnew : TokenBucket.new 1 (1 : ℚ) = some ⟨1, 1, ∅, defaultMaxKeys⟩ := rfl
  refine tokenBuckets_agree_iff _ (keyDigest sampleSha256) hnew (by decide) 1 rfl (fun _ => rfl)
    ?_ ?_ ?_ ?_ ?_
  · simp [aroundReset]
  · simp [aroundReset]
  · refine ⟨?_, ?_, ?_, ?_, trivial⟩
    all_goals
      intro _
      decide
  · intro e he
    refine sweepsNoBucket_of_matches ?_
    intro swept hswept keys hkeys k hk
    simp only [aroundReset, List.mem_cons, List.not_mem_nil, or_false] at he
    rcases he with rfl | rfl | rfl | rfl
    · cases hswept
    · obtain rfl := BucketAction.reset.inj hswept
      obtain rfl := List.mem_singleton.mp hkeys
      obtain rfl := List.mem_singleton.mp hk
      exact ⟨"7", by decide +kernel⟩
    · cases hswept
    · cases hswept
  · refine ⟨?_, ?_, ?_, ?_, trivial⟩
    all_goals
      intro _
      decide +kernel

/-- One check of a bucket whose time to live gives no deadline that the server
    accepts: the Redis store fails where the memory store admits. -/
def neverRefilled : List BucketEvent := [⟨"client", .check, 0, 0, .sorting⟩]

theorem tokenBuckets_disagree :
    ¬ List.Forall₂ SameReply (outputs (clientStep 1 (1 / 10 ^ 30)) ∅ neverRefilled)
        (outputs (BucketEvent.memoryStep 1 (1 / 10 ^ 30)) .new neverRefilled) := by
  have hredis : outputs (clientStep 1 (1 / 10 ^ 30)) ∅ neverRefilled =
      [.error (.err (.storeError (invalidExpire "expire")))] := by decide +kernel
  have hmemory : outputs (BucketEvent.memoryStep 1 (1 / 10 ^ 30)) .new neverRefilled =
      [.decision (.ok (true, 0))] := by decide +kernel
  rw [hredis, hmemory]
  rintro (_ | ⟨⟨a, ha, -⟩, -⟩)
  cases ha

end ArmatureRatelimit
