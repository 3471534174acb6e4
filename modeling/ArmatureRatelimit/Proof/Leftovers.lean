/-
  What a fleet leaves on its Redis server (`stores/redis.rs`).

  Every script whose deadline is accepted gives it to the keys that it writes
  before it ends (`fleetStep_expires`), so once the last of the deadlines has
  passed the server shows nothing, and later calls get the replies of an empty
  server (`redis_leavesNothing`).
-/
import ArmatureRatelimit.RedisFleet
import ArmatureRatelimit.Lib.Deadlines
import ArmatureRatelimit.Lib.Runs

open Lib Lib.Redis

namespace ArmatureRatelimit

variable {ν : Type} [F64 ν] {bound : ℤ}

/-! ## Scripts -/

namespace RedisStore

section
variable {server : ℤ} (hserver : server ≤ bound)
include hserver

theorem tokenBucketScript_expires {t : ℤ} {capacity refillRate : ν}
    (httl : F64.toInt? (bucketTtl capacity refillRate) = some t)
    (ht : server + 1000 * t ≤ bound) (hvalid : server + 1000 * t ≤ int64Max) (key : String)
    (now : ν) : Triple (ExpiresBy bound none) (tokenBucketScript server key capacity refillRate now)
      (fun _ => ExpiresBy bound none) (ExpiresBy bound none) := by
  unfold tokenBucketScript
  simp only [httl]
  refine .bind (hmget_expires _ _) fun data => ?_
  refine .ite (fun _ => ?_) fun _ => ?_
  · refine .bind (hmset_expires _) fun _ => ?_
    refine .bind (expire_expires hserver ht hvalid) fun _ => ?_
    exact .pure (fun _ => ExpiresBy bound none) _
  · refine .bind (hmset_expires _) fun _ => ?_
    refine .bind (expire_expires hserver ht hvalid) fun _ => ?_
    exact .pure (fun _ => ExpiresBy bound none) _

omit [F64 ν] in
theorem slidingWindowScript_expires {windowSecs : ℤ}
    (ht : server + 1000 * slidingTtl windowSecs ≤ bound)
    (hvalid : server + 1000 * slidingTtl windowSecs ≤ int64Max) (key maxkey seqkey : String)
    (maxRequests now cutoff : ℤ) : Triple (ExpiresBy (ν := ν) bound none)
      (slidingWindowScript server key maxkey seqkey maxRequests now cutoff windowSecs)
      (fun _ => ExpiresBy bound none) (ExpiresBy bound none) := by
  unfold slidingWindowScript
  refine .bind (setEx_expires ht _) fun _ => ?_
  refine .bind (zremrangebyscore_expires _ _) fun _ => ?_
  refine .bind (zcard_expires _) fun count => ?_
  refine .ite (fun _ => ?_) fun _ => .pure (fun _ => ExpiresBy bound none) _
  refine .bind incr_expires fun seq => ?_
  refine .bind (.conseq (expire_expires hserver ht hvalid) fun _ h => h.1) fun _ => ?_
  refine .bind (zadd_expires _ _) fun _ => ?_
  refine .bind (expire_expires hserver ht hvalid) fun _ => ?_
  exact .pure (fun _ => ExpiresBy bound none) _

omit [F64 ν] in
theorem fixedWindowScript_expires {ttl : ℤ} (ht : server + 1000 * luaInt ttl ≤ bound)
    (hvalid : server + 1000 * luaInt ttl ≤ int64Max) (key fwmax fwcur : String)
    (maxRequests windowId : ℤ) : Triple (ExpiresBy (ν := ν) bound none)
      (fixedWindowScript server key fwmax fwcur maxRequests windowId ttl)
      (fun _ => ExpiresBy bound none) (ExpiresBy bound none) := by
  have hone : luaInt 1 = 1 := luaInt_eq (by decide)
  unfold fixedWindowScript
  refine .bind incr_expires fun count => ?_
  refine .ite (fun _ => ?_) fun hcount => ?_
  · refine .bind (.conseq (expire_expires hserver ht hvalid) fun _ h => h.1) fun _ => ?_
    refine .bind (setEx_expires ht _) fun _ => ?_
    refine .bind (setEx_expires ht _) fun _ => ?_
    exact .pure (fun _ => ExpiresBy bound none) _
  · refine .conseq (.pure (fun _ => ExpiresBy bound none) _) ?_
    intro db h
    refine h.2 ?_
    rintro rfl
    exact hcount hone

end

/-! ## Calls -/

section
variable {keyDigest : String → String} {store : RedisStore}

omit [F64 ν] in
theorem withOpTimeout_expires {α : Type} {x : Script ν α}
    (hx : Triple (ExpiresBy bound none) x (fun _ => ExpiresBy bound none) (ExpiresBy bound none))
    (env : RedisEnv) {db : Db ν} (h : ExpiresBy bound none db) :
    ExpiresBy bound none (store.withOpTimeout env x db).2 :=
  withOpTimeout_inv h (hx.keeps db h) env

end

end RedisStore

/-- The time to live that a check gives its keys; a reset gives none. -/
def RedisOp.ttl? : RedisOp ν → Option (Option ℤ)
  | .tokenBucket _ capacity refillRate =>
    some (F64.toInt? (RedisStore.bucketTtl (F64.ofInt capacity) refillRate))
  | .slidingWindow _ _ window => some (some (RedisStore.slidingTtl (Duration.asSecs window)))
  | .fixedWindow _ _ window => some (some (RedisStore.luaInt (asI64 (fixedTtl window))))
  | .reset _ _ => none

/-- What the call writes is accepted by the server, and is gone after `bound`. -/
def FleetCall.LivesUntil (bound : ℤ) (c : FleetCall ν) : Prop :=
  ∀ env op ttl, c.op = .call ⟨env, op⟩ → op.ttl? = some ttl → env.server ≤ bound ∧
    ∃ t, ttl = some t ∧ env.server + 1000 * t ≤ bound ∧ env.server + 1000 * t ≤ int64Max

theorem fleetStep_expires {keyDigest : String → String} {c : FleetCall ν}
    (hc : c.LivesUntil bound) {db : Db ν} (h : ExpiresBy bound none db) :
    ExpiresBy bound none (fleetStep keyDigest c db).2 := by
  obtain ⟨store, op⟩ := c
  cases op with
  | remaining env key =>
    rw [fleetStep]
    simp only [RedisStore.remaining_snd]
    exact h
  | call call =>
    obtain ⟨env, op⟩ := call
    cases op with
    | reset key scan =>
      refine RedisStore.reset_inv (P := ExpiresBy bound none) ?_ fun _ _ _ h => h.removeAll _
      exact RedisStore.withOpTimeout_inv h (h.removeAll _) env
    | tokenBucket key capacity refillRate =>
      obtain ⟨hserver, t, httl, ht, hvalid⟩ := hc env _ _ rfl rfl
      simp only [fleetStep, RedisStore.serve, RedisStore.tokenBucketCheck]
      cases sinceEpoch env.unix with
      | none => exact h
      | some d =>
        exact RedisStore.withOpTimeout_expires
          (RedisStore.tokenBucketScript_expires hserver httl ht hvalid _ _) env h
    | slidingWindow key maxRequests window =>
      obtain ⟨hserver, t, httl, ht, hvalid⟩ := hc env _ _ rfl rfl
      obtain rfl := Option.some.inj httl
      simp only [fleetStep, RedisStore.serve, RedisStore.slidingWindowCheck]
      cases sinceEpoch env.unix with
      | none => exact h
      | some d =>
        simp only
        split_ifs
        · exact h
        · exact RedisStore.withOpTimeout_expires
            (RedisStore.slidingWindowScript_expires hserver ht hvalid _ _ _ _ _ _) env h
    | fixedWindow key maxRequests window =>
      obtain ⟨hserver, t, httl, ht, hvalid⟩ := hc env _ _ rfl rfl
      obtain rfl := Option.some.inj httl
      by_cases hunix : 0 ≤ env.unix
      · simp only [fleetStep, RedisStore.serve, RedisStore.fixedWindowCheck_eq hunix]
        exact RedisStore.withOpTimeout_expires
          (RedisStore.fixedWindowScript_expires hserver ht hvalid _ _ _ _ _) env h
      · simp only [fleetStep, RedisStore.serve, RedisStore.fixedWindowCheck, sinceEpoch, hunix,
          if_false]
        exact h

/-! ## Runs -/

/-- After the last deadline a call cannot tell the server from an empty one. -/
theorem fleetStep_sameFrom {keyDigest : String → String} {t : ℤ} {c : FleetCall ν}
    (hc : ∀ now ∈ c.servers, t ≤ now) : Respects (SameFrom t) (fleetStep keyDigest c) :=
  fleetStep_respects (sameFrom_kept t) fun now hnow _ => sameFrom_shows (hc now hnow) _

/-- **A fleet leaves nothing behind.**  Take calls of any instances, on a server
    all of whose keys expire by `bound`, where no check's keys outlive `bound`
    either.  After `bound` the server shows no key, and whatever the fleet does
    from then on gets the replies that it would get from an empty server. -/
theorem redis_leavesNothing (keyDigest : String → String) {start : Db ν}
    (hstart : ExpiresBy bound none start) {calls : List (FleetCall ν)}
    (hcalls : ∀ c ∈ calls, c.LivesUntil bound) :
    (∀ now, bound < now → ∀ key, find now key (run (fleetStep keyDigest) start calls) = none) ∧
    ∀ later : List (FleetCall ν), (∀ c ∈ later, ∀ now ∈ c.servers, bound < now) →
      outputs (fleetStep keyDigest) (run (fleetStep keyDigest) start calls) later =
        outputs (fleetStep keyDigest) ∅ later := by
  have hleft : ExpiresBy bound none (run (fleetStep keyDigest) start calls) :=
    run_inv hstart fun c hc _ h => fleetStep_expires (hcalls c hc) h
  refine ⟨fun now hnow key => hleft.expired hnow key, ?_⟩
  intro later hlater
  have hsame := hleft.sameFrom_empty (Int.lt_succ bound)
  generalize run (fleetStep keyDigest) start calls = db at hsame
  generalize (∅ : Db ν) = db' at hsame
  induction later generalizing db db' with
  | nil => rfl
  | cons c later ih =>
    have hrespects : Respects (SameFrom (bound + 1)) (fleetStep keyDigest c) :=
      fleetStep_sameFrom (hlater c (by simp))
    obtain ⟨hreply, hrel⟩ := hrespects db db' hsame
    simp only [outputs, trace, if_true] at ih ⊢
    rw [hreply, ih (fun c' hc' => hlater c' (by simp [hc'])) _ _ hrel]

/-- Checks of two clients. -/
def minuteCalls : List (FleetCall ℚ) :=
  [⟨⟨"app", 3000000000⟩, .call (minuteCheck "client")⟩,
    ⟨⟨"app", 3000000000⟩, .call (minuteCheck "visitor")⟩]

/-- A check of the first client by an instance whose clock has stopped, when the
    counters have expired. -/
def lateCheck : FleetCall ℚ :=
  ⟨⟨"app", 3000000000⟩, .call ⟨⟨1700000000000000000, 1700000070001, .answered 0⟩,
    .fixedWindow "client" 10 (Duration.fromSecs 60)⟩⟩

theorem redis_leavesNothing_minute :
    (∀ key, find 1700000070001 key
      (run (fleetStep (keyDigest sampleSha256)) ∅ minuteCalls) = none) ∧
    outputs (fleetStep (keyDigest sampleSha256))
        (run (fleetStep (keyDigest sampleSha256)) ∅ minuteCalls) [lateCheck] =
      outputs (fleetStep (keyDigest sampleSha256)) ∅ [lateCheck] := by
  have hlives : ∀ c ∈ minuteCalls, c.LivesUntil 1700000070000 := by
    have hcheck : ∀ key, FleetCall.LivesUntil 1700000070000
        (⟨⟨"app", 3000000000⟩, .call (minuteCheck key)⟩ : FleetCall ℚ) := by
      rintro key env op ttl ⟨⟩ httl
      obtain rfl := Option.some.inj httl
      exact ⟨by decide, _, rfl, by decide +kernel, by decide +kernel⟩
    simp only [minuteCalls, List.forall_mem_cons]
    exact ⟨hcheck _, hcheck _, by simp⟩
  obtain ⟨hgone, hlater⟩ := redis_leavesNothing (keyDigest sampleSha256)
    (ExpiresBy.empty 1700000070000) hlives
  refine ⟨hgone _ (by decide), hlater _ ?_⟩
  simp [lateCheck, FleetCall.servers]

end ArmatureRatelimit
