/-
  A fleet: any number of instances, with stores of any prefixes, on one Redis
  server (`stores/redis.rs`).

  A call respects every relation between servers on which its reads agree and
  that writes keep (`fleetStep_respects`).  The calls of a rate-limit key under a
  prefix are a tenant of the server.
-/
import ArmatureRatelimit.Proof.RedisForecast
import ArmatureRatelimit.Proof.ResetExact
import ArmatureRatelimit.Lib.Congruence

open Lib Lib.Redis

namespace ArmatureRatelimit

variable {ν : Type} [F64 ν]

/-! ## Calls -/

inductive FleetOp (ν : Type)
  | call (c : RedisCall ν)
  | remaining (env : QueryEnv) (key : String)

/-- An operation, by an instance with its own prefix and timeout. -/
structure FleetCall (ν : Type) where
  store : RedisStore
  op : FleetOp ν

inductive FleetReply
  | served (result : Outcome (Option (Bool × ℕ)))
  | left (count : Outcome ℕ)
  deriving DecidableEq

namespace FleetCall

/-- The rate-limit key. -/
def key (c : FleetCall ν) : String :=
  match c.op with
  | .call c => c.op.key
  | .remaining _ key => key

/-- The call belongs to the tenant. -/
def isOn (keyDigest : String → String) (keyPrefix digest : String) (c : FleetCall ν) : Bool :=
  decide (c.store.keyPrefix = keyPrefix ∧ keyDigest c.key = digest)

/-- Where the call is a reset, its prefix stands for itself and for no other one,
    and `SCAN` returns names that match its pattern. -/
def CleanReset (sha256 : String → Vector (BitVec 8) 32) (le : UInt8 → UInt8 → Bool)
    (c : FleetCall ν) : Prop :=
  match c.op with
  | .call ⟨_, .reset key scan⟩ =>
    ExactPrefix sha256 le c.store.keyPrefix ∧
      ∀ turn ∈ scan (c.store.sweepPattern (keyDigest sha256) key), ∀ name ∈ turn.keys,
        globMatch le (c.store.sweepPattern (keyDigest sha256) key) name = true
  | _ => True

end FleetCall

def fleetStep (keyDigest : String → String) (c : FleetCall ν) (db : Db ν) : FleetReply × Db ν :=
  match c.op with
  | .call call =>
    let r := c.store.serve keyDigest call db
    (.served r.1, r.2)
  | .remaining env key =>
    let r := c.store.remaining keyDigest env key db
    (.left r.1, r.2)

/-- The names of a tenant. -/
def TenantName (keyPrefix digest name : String) : Prop :=
  ∃ r, name = RedisStore.roleKey ⟨keyPrefix, 0⟩ digest r

theorem tenantName_roleKey {store : RedisStore} {keyPrefix : String}
    (h : store.keyPrefix = keyPrefix) (digest : String) (r : KeyRole) :
    TenantName keyPrefix digest (store.roleKey digest r) := by
  subst h
  refine ⟨r, ?_⟩
  cases r <;> rfl

/-! ## What a call respects -/

namespace RedisStore

section
variable {R : Db ν → Db ν → Prop} {α : Type} {store : RedisStore}

variable (store) in
omit [F64 ν] in
theorem withOpTimeout_respects {x : Script ν α} (hx : Respects R x) (env : RedisEnv) :
    Respects R (store.withOpTimeout env x) := by
  intro db db' h
  obtain ⟨r, db₁, db₁', hrun, hrun', hrel⟩ := hx.runs h
  simp only [withOpTimeout, hrun, hrun']
  cases env.delivery with
  | answered took =>
    simp only
    split_ifs
    · cases r <;> exact ⟨rfl, hrel⟩
    · exact ⟨rfl, hrel⟩
  | lost executed error =>
    cases executed <;> cases error
    · exact ⟨rfl, h⟩
    · exact ⟨rfl, h⟩
    · exact ⟨rfl, hrel⟩
    · exact ⟨rfl, hrel⟩

variable (hR : Kept R) {server : ℤ}

omit [F64 ν] in
theorem companionQuery_respects (reader : ReplyReader) {fwcur fwmax swmax : String}
    (hcur : Shows R server fwcur) (hmax : Shows R server fwmax) (hsw : Shows R server swmax) :
    Respects R (companionQuery reader server fwcur fwmax swmax) := by
  unfold companionQuery
  refine .bind (mget_respects ?_) fun reply => ?_
  · intro key hkey
    simp only [List.mem_cons, List.not_mem_nil, or_false] at hkey
    rcases hkey with rfl | rfl | rfl
    · exact hcur
    · exact hmax
    · exact hsw
  · refine .bind (.ofExcept _) fun _ => ?_
    refine .bind (.ofExcept _) fun _ => ?_
    exact .bind (.ofExcept _) fun _ => .pure _

omit [F64 ν] in
theorem counterQuery_respects (reader : ReplyReader) {key : String} (hkey : Shows R server key) :
    Respects R (counterQuery reader server key) :=
  .bind (get_respects hkey) fun _ => .ofExcept _

include hR

theorem tokenBucketScript_respects {key : String} (hkey : Shows R server key)
    (capacity refillRate now : ν) :
    Respects R (tokenBucketScript server key capacity refillRate now) := by
  unfold tokenBucketScript
  refine .bind (hmget_respects hkey _) fun data => ?_
  refine .ite ?_ ?_
  · refine .bind (hmset_respects hR hkey _) fun _ => ?_
    exact .bind (expire_respects hR hkey _) fun _ => .pure _
  · refine .bind (hmset_respects hR hkey _) fun _ => ?_
    exact .bind (expire_respects hR hkey _) fun _ => .pure _

omit [F64 ν] in
theorem slidingWindowScript_respects {key seqkey : String} (hkey : Shows R server key)
    (hseq : Shows R server seqkey) (maxkey : String) (maxRequests now cutoff windowSecs : ℤ) :
    Respects R
      (slidingWindowScript server key maxkey seqkey maxRequests now cutoff windowSecs) := by
  unfold slidingWindowScript
  refine .bind (setEx_respects hR server _ _ _) fun _ => ?_
  refine .bind (zremrangebyscore_respects hR hkey _ _) fun _ => ?_
  refine .bind (zcard_respects hkey) fun count => ?_
  refine .ite ?_ (.pure _)
  refine .bind (incr_respects hR hseq) fun seq => ?_
  refine .bind (expire_respects hR hseq _) fun _ => ?_
  refine .bind (zadd_respects hR hkey _ _) fun _ => ?_
  exact .bind (expire_respects hR hkey _) fun _ => .pure _

omit [F64 ν] in
theorem fixedWindowScript_respects {key : String} (hkey : Shows R server key)
    (fwmax fwcur : String) (maxRequests windowId ttl : ℤ) :
    Respects R (fixedWindowScript server key fwmax fwcur maxRequests windowId ttl) := by
  unfold fixedWindowScript
  refine .bind (incr_respects hR hkey) fun count => ?_
  refine .ite ?_ (.pure _)
  refine .bind (expire_respects hR hkey _) fun _ => ?_
  refine .bind (setEx_respects hR server _ _ _) fun _ => ?_
  exact .bind (setEx_respects hR server _ _ _) fun _ => .pure _

omit [F64 ν] in
theorem sweep_respects (env : RedisEnv) (turns : List SweepTurn) :
    Respects R (store.sweep env turns : Db ν → _) := by
  induction turns with
  | nil => exact fun _ _ h => ⟨rfl, h⟩
  | cons turn turns ih =>
    intro db db' h
    have hscan : Respects R (pure turn.keys : Script ν (List String)) := .pure _
    obtain ⟨r, db₁, db₁', hrun, hrun', hrel⟩ :=
      (withOpTimeout_respects store hscan { env with delivery := turn.scan }).runs h
    simp only [sweep, hrun, hrun']
    cases r with
    | error e => exact ⟨rfl, hrel⟩
    | ok keys =>
      simp only
      split_ifs
      · exact ih db₁ db₁' hrel
      · obtain ⟨r, db₂, db₂', hrun, hrun', hrel'⟩ := (withOpTimeout_respects store
          (unlink_respects hR keys) { env with delivery := turn.unlink }).runs hrel
        simp only [hrun, hrun']
        cases r with
        | error e => exact ⟨rfl, hrel'⟩
        | ok u => exact ih db₂ db₂' hrel'

end

/-! ### Calls -/

section
variable {R : Db ν → Db ν → Prop} {keyDigest : String → String} {store : RedisStore}

omit [F64 ν] in
theorem reset_respects (hR : Kept R) (env : RedisEnv) (scan : String → List SweepTurn)
    (key : String) : Respects R (store.reset keyDigest env scan key : Db ν → _) := by
  intro db db' h
  obtain ⟨r, db₁, db₁', hrun, hrun', hrel⟩ := (withOpTimeout_respects store
    (unlink_respects hR (store.fixedKeys keyDigest key)) env).runs h
  simp only [reset, hrun, hrun']
  cases r with
  | error e => exact ⟨rfl, hrel⟩
  | ok u => exact sweep_respects hR env _ db₁ db₁' hrel

/-- A check reads under the names of its roles. -/
theorem serve_respects (hR : Kept R) {c : RedisCall ν}
    (hshows : ∀ r ∈ c.roles, Shows R c.env.server (store.roleKey (keyDigest c.op.key) r)) :
    Respects R (store.serve keyDigest c) := by
  obtain ⟨env, op⟩ := c
  cases op with
  | tokenBucket key capacity refillRate =>
    intro db db' h
    simp only [serve, tokenBucketCheck]
    cases sinceEpoch env.unix with
    | none => exact ⟨rfl, h⟩
    | some d =>
      obtain ⟨r, db₁, db₁', hrun, hrun', hrel⟩ := (withOpTimeout_respects store
        (tokenBucketScript_respects hR (hshows .tb (by simp [RedisCall.roles]))
          (F64.ofInt capacity) refillRate (F64.ofDuration d)) env).runs h
      simp only [roleKey, RedisOp.key] at hrun hrun'
      simp only [hrun, hrun']
      exact ⟨trivial, hrel⟩
  | slidingWindow key maxRequests window =>
    intro db db' h
    simp only [serve, slidingWindowCheck]
    cases sinceEpoch env.unix with
    | none => exact ⟨rfl, h⟩
    | some d =>
      simp only
      split_ifs
      · exact ⟨rfl, h⟩
      · obtain ⟨r, db₁, db₁', hrun, hrun', hrel⟩ := (withOpTimeout_respects store
          (slidingWindowScript_respects hR (hshows .sw (by simp [RedisCall.roles]))
            (hshows .swseq (by simp [RedisCall.roles]))
            (store.roleKey (keyDigest key) .swmax) maxRequests (asI64 (Duration.asMillis d))
            (asI64 (Duration.asMillis d) - asI64 (Duration.asMillis window))
            (Duration.asSecs window)) env).runs h
        simp only [roleKey, RedisOp.key] at hrun hrun'
        simp only [hrun, hrun']
        exact ⟨trivial, hrel⟩
  | fixedWindow key maxRequests window =>
    intro db db' h
    by_cases hunix : 0 ≤ env.unix
    · simp only [serve, fixedWindowCheck_eq hunix]
      obtain ⟨r, db₁, db₁', hrun, hrun', hrel⟩ := (withOpTimeout_respects store
        (fixedWindowScript_respects hR
          (hshows (.fw ⟨windowIdAt window env.unix, windowIdAt_lt window env.unix⟩)
            (by simp [RedisCall.roles]))
          (store.roleKey (keyDigest key) .fwmax) (store.roleKey (keyDigest key) .fwcur) maxRequests
          (windowIdAt window env.unix) (asI64 (fixedTtl window))) env).runs h
      simp only [roleKey, RedisOp.key] at hrun hrun'
      simp only [checkScript, hrun, hrun']
      exact ⟨trivial, hrel⟩
    · simp only [serve, fixedWindowCheck, sinceEpoch, hunix, if_false]
      exact ⟨trivial, h⟩
  | reset key scan =>
    intro db db' h
    obtain ⟨hreply, hrel⟩ := @reset_respects ν R keyDigest store hR env scan key db db' h
    exact ⟨congrArg (Except.map fun _ => none) hreply, hrel⟩

omit [F64 ν] in
/-- The window id that a query reads is a `u64`. -/
theorem companionQuery_windowId {reader : ReplyReader} {server : ℤ} {fwcur fwmax swmax : String}
    {db : Db ν}
    {windowId : ℕ} {fixedMax slidingMax : Option ℕ}
    (h : (companionQuery reader server fwcur fwmax swmax db).1 =
      .ok (some windowId, fixedMax, slidingMax)) : windowId < 2 ^ 64 := by
  have hrange : ∀ {text : Option Text} {m : ℕ}, optionU64 reader text = .ok (some m) →
      m < 2 ^ 64 := by
    intro text m hm
    unfold optionU64 at hm
    split at hm
    · cases hm
    · split at hm
      · split_ifs at hm with hle
        obtain rfl := Option.some.inj (Except.ok.inj hm)
        simp only [u64Max] at hle
        omega
      · cases hm
  have hbind : ∀ {α β : Type} {r : Except String α} {f : α → Script ν β} {b : β},
      ((Script.ofExcept r >>= f) db).1 = .ok b → ∃ a, r = .ok a ∧ (f a db).1 = .ok b := by
    intro α β r f b hb
    cases r with
    | error e =>
      rw [Script.bind_error (x := Script.ofExcept (.error e)) rfl] at hb
      cases hb
    | ok a =>
      rw [Script.bind_ok (x := Script.ofExcept (.ok a)) rfl] at hb
      exact ⟨a, rfl, hb⟩
  unfold companionQuery at h
  rw [Script.bind_ok (x := mget server [fwcur, fwmax, swmax]) rfl] at h
  obtain ⟨w, hw, h⟩ := hbind h
  obtain ⟨_, -, h⟩ := hbind h
  obtain ⟨_, -, h⟩ := hbind h
  obtain ⟨rfl, -⟩ := Prod.mk.inj (Except.ok.inj h)
  exact hrange hw

/-- So does a query. -/
theorem remaining_respects {env : QueryEnv} {key : String}
    (hprobe : ∀ r, Shows R env.probe.server (store.roleKey (keyDigest key) r))
    (hcompanions : ∀ r, Shows R env.companions.server (store.roleKey (keyDigest key) r))
    (hcount : ∀ r, Shows R env.count.server (store.roleKey (keyDigest key) r)) :
    Respects R (store.remaining keyDigest env key : Db ν → _) := by
  intro db db' h
  obtain ⟨r, db₁, db₁', hrun, hrun', hrel⟩ := (withOpTimeout_respects store
    (hget_respects (hprobe .tb) "tokens") env.probe).runs h
  simp only [roleKey] at hrun hrun'
  simp only [remaining, hrun, hrun']
  rcases r with e | (_ | t)
  · exact ⟨rfl, hrel⟩
  · obtain ⟨r, db₂, db₂', hrun, hrun', hrel'⟩ := (withOpTimeout_respects store
      (companionQuery_respects env.reader (hcompanions .fwcur) (hcompanions .fwmax)
        (hcompanions .swmax))
      env.companions).runs hrel
    simp only [roleKey] at hrun hrun'
    simp only [hrun, hrun']
    rcases r with e | ⟨_ | windowId, fixedMax, slidingMax⟩
    · exact ⟨rfl, hrel'⟩
    · cases slidingMax with
      | none => exact ⟨rfl, hrel'⟩
      | some limit =>
        obtain ⟨r, db₃, db₃', hrun, hrun', hrel''⟩ := (withOpTimeout_respects store
          (zcard_respects (hcount .sw)) env.count).runs hrel'
        simp only [roleKey] at hrun hrun'
        simp only [hrun, hrun']
        cases r <;> exact ⟨rfl, hrel''⟩
    · have hid := companionQuery_windowId (withOpTimeout_ok (congrArg Prod.fst hrun)).1
      cases fixedMax with
      | some limit =>
        obtain ⟨r, db₃, db₃', hrun, hrun', hrel''⟩ := (withOpTimeout_respects store
          (counterQuery_respects env.reader (hcount (.fw ⟨windowId, hid⟩))) env.count).runs hrel'
        simp only [roleKey, counterKey] at hrun hrun'
        simp only [hrun, hrun']
        cases r <;> exact ⟨rfl, hrel''⟩
      | none =>
        cases slidingMax with
        | none => exact ⟨rfl, hrel'⟩
        | some limit =>
          obtain ⟨r, db₃, db₃', hrun, hrun', hrel''⟩ := (withOpTimeout_respects store
            (zcard_respects (hcount .sw)) env.count).runs hrel'
          simp only [roleKey] at hrun hrun'
          simp only [hrun, hrun']
          cases r <;> exact ⟨rfl, hrel''⟩
  · exact ⟨rfl, hrel⟩

end

end RedisStore

namespace FleetCall

/-- The readings of the server's clock, one for each operation that the call may
    run. -/
def servers (c : FleetCall ν) : List ℤ :=
  match c.op with
  | .call c => [c.env.server]
  | .remaining env _ => [env.probe.server, env.companions.server, env.count.server]

end FleetCall

/-- **What a call respects**: every relation that writes keep and on which its
    reads agree. -/
theorem fleetStep_respects {R : Db ν → Db ν → Prop} (hR : Kept R) {keyDigest : String → String}
    {c : FleetCall ν}
    (hshows : ∀ now ∈ c.servers, ∀ r, Shows R now (c.store.roleKey (keyDigest c.key) r)) :
    Respects R (fleetStep keyDigest c) := by
  obtain ⟨store, op⟩ := c
  cases op with
  | call call =>
    intro db db' h
    obtain ⟨hreply, hrel⟩ := RedisStore.serve_respects hR
      (fun r _ => hshows _ (by simp [FleetCall.servers]) r) db db' h
    exact ⟨congrArg FleetReply.served hreply, hrel⟩
  | remaining env key =>
    intro db db' h
    obtain ⟨hreply, hrel⟩ := RedisStore.remaining_respects
      (hshows env.probe.server (by simp [FleetCall.servers]))
      (hshows env.companions.server (by simp [FleetCall.servers]))
      (hshows env.count.server (by simp [FleetCall.servers])) db db' h
    exact ⟨congrArg FleetReply.left hreply, hrel⟩

end ArmatureRatelimit
