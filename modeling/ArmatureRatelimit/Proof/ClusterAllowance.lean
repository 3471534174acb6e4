/-
  How many requests under one key the handlers of a cluster can receive.

  To its Redis server a cluster is a fleet: a request for which the store is
  consulted is a check, and any other one leaves the keys alone (`step_db`).  A
  request that a handler receives under a limited key is one that the fleet
  admits, or one that an error of the store lets through (`admits_of_receives`).
  So the limits of the three algorithms under skewed clocks bound what the
  handlers receive (`cluster_allowance`).
-/
import ArmatureRatelimit.Cluster
import ArmatureRatelimit.Proof.Allowance
import ArmatureRatelimit.Proof.SkewedBucket
import ArmatureRatelimit.Proof.SkewedClocks
import ArmatureRatelimit.Proof.SkewedCounters

open Lib Lib.Redis

namespace ArmatureRatelimit

/-! ## The three limits -/

namespace Algorithm

/-- The skew of the clocks that an algorithm bears. -/
def Bears (skew : ℕ) : Algorithm ℚ → Prop
  | tokenBucket _ refillRate => 0 < refillRate ∧ skew ≤ 5000
  | slidingWindowLog _ window =>
    Duration.asMillis window ≤ 2 ^ 63 - 1 ∧ 2 * skew < Duration.asMillis window
  | fixedWindow maxRequests window =>
    maxRequests < 2 ^ 53 ∧ Duration.asMillis window < 2 ^ 62 ∧ skew ≤ 5000

def IsSlidingWindow : Algorithm ℚ → Prop
  | slidingWindowLog .. => True
  | _ => False

/-- What it admits in `span` milliseconds of the server's clock. -/
def skewedAllowance (skew span : ℕ) : Algorithm ℚ → ℚ
  | tokenBucket capacity refillRate => capacity + refillRate * ((span + 2 * skew) / 1000)
  | slidingWindowLog maxRequests window =>
    (maxRequests * (span / (Duration.asMillis window - 2 * skew) + 1) : ℕ)
  | fixedWindow maxRequests window =>
    (maxRequests * ((span + 2 * skew) / windowMillis window + 1 + 1) : ℕ)

end Algorithm

/-- **A fleet admits no more than its algorithm allows.** -/
theorem TenantFleet.card_le_allowance (F : TenantFleet ℚ) {skew span : ℕ} (hskew : F.Skewed skew)
    (hbears : F.algorithm.Bears skew) {S : Finset ℕ} (hS : ∀ n ∈ S, F.admits n = true)
    (hclock : ∀ n ∈ S, F.serverAt n ≤ int64Max)
    (hexact : F.algorithm.IsSlidingWindow → ∀ n ∈ S, F.ExactTo n)
    (hspan : ∀ m ∈ S, ∀ n ∈ S, F.serverAt n ≤ F.serverAt m + span) :
    (S.card : ℚ) ≤ F.algorithm.skewedAllowance skew span := by
  cases halgorithm : F.algorithm with
  | tokenBucket capacity refillRate =>
    rw [halgorithm] at hbears
    let B : BucketFleet := ⟨F, capacity, refillRate, hbears.1, halgorithm⟩
    exact BucketFleet.card_le (F := B) (BucketFleet.readsWithin hskew)
      (BucketFleet.slack_le hbears.2) hS (by positivity) fun m hm n hn =>
        BucketFleet.readingAt_le hskew (hS m hm) (hS n hn) (hspan m hm n hn)
  | slidingWindowLog maxRequests window =>
    rw [halgorithm] at hbears hexact
    let W : WindowFleet ℚ := ⟨F, maxRequests, window, halgorithm⟩
    refine Nat.cast_le.mpr (card_le_of_tiles F.serverAt (Nat.sub_pos_of_lt hbears.2) hspan ?_)
    exact fun T hT hnear => WindowFleet.card_le (F := W) hskew hbears.1 hbears.2
      (fun n hn => hS n (hT hn)) (fun n hn => hexact trivial n (hT hn)) hnear
  | fixedWindow maxRequests window =>
    rw [halgorithm] at hbears
    exact Nat.cast_le.mpr (CounterFleet.card_span_le
      (F := ⟨F, maxRequests, window, halgorithm, hbears.1, hbears.2.1⟩) hskew hbears.2.2 hS hclock
        hspan)

/-! ## One event of a cluster -/

/-- A request leaves the store as the consultation about it does, if there is one. -/
theorem RateLimitMiddleware.serve_consults {ν ε σ : Type} [F64 ν] (M : RateLimitMiddleware ν)
    (keyDigest : String → String) (store : RateLimitStore ν ε σ) (r : Request ε)
    (s : MiddlewareState σ) :
    (M.serve keyDigest store r s).2.store =
      match M.consulted keyDigest r with
      | some key => (RateLimiter.consult store r.env key M.algorithm s.store).2
      | none => s.store := by
  rcases request_cases M keyDigest r with hnone | ⟨key, hkey, hbypass⟩ | ⟨key, hconsulted⟩
  · have hconsulted : M.consulted keyDigest r = none := by simp [consulted, hnone]
    rw [serve_unkeyed hnone, hconsulted]
    cases M.unkeyedPolicy <;> rfl
  · have hconsulted : M.consulted keyDigest r = none := by simp [consulted, hkey, hbypass]
    rw [serve_bypassed hkey hbypass, hconsulted]
  · rw [serve_of_consulted hconsulted, hconsulted]
    exact settle_store _ _

namespace Cluster

variable {ν Req ρ E ω : Type} [F64 ν] (C : Cluster ν Req ρ E ω)

/-- A request as the accounts of the middleware have it. -/
def asRequest (env : RedisEnv) (unix : ℤ) (req : Req) : Request RedisEnv :=
  ⟨C.middleware.requestInfo C.framework req, env, unix⟩

/-- A handler receives a request under this key. -/
def receives (key : String) (e : ClusterEvent ν Req) (s : ClusterState ν Req ω) : Bool :=
  match e with
  | .request node env unix req => C.keyOf req == some key && RateLimitMiddleware.isAllowedResponse
      (C.middleware.serve C.keyDigest (C.store.backend C.keyDigest) (C.asRequest env unix req)
        (s.node node)).1
  | .call _ => false

/-- An error of the store lets a request under this key through. -/
def failsOpen (key : String) (e : ClusterEvent ν Req) (s : ClusterState ν Req ω) : Bool :=
  match e with
  | .request _ env unix req => C.keyOf req == some key && C.middleware.isFailedOpen C.keyDigest
      (C.store.backend C.keyDigest) (C.asRequest env unix req) s.db
  | .call _ => false

/-- The call that an event is to the server: a request for which the store is not
    consulted is as good as a query, which leaves the keys alone. -/
def callOf (e : ClusterEvent ν Req) : FleetCall ν :=
  match e with
  | .request _ env unix req =>
    match C.middleware.consulted C.keyDigest (C.asRequest env unix req) with
    | some key => ⟨C.store, .call ⟨env, C.middleware.algorithm.checkOp key⟩⟩
    | none => ⟨C.store, .remaining ⟨env, env, env, ⟨"", fun _ => none⟩⟩ ""⟩
  | .call c => c

variable {C}

theorem receivedUnder_step (key : String) (e : ClusterEvent ν Req) (s : ClusterState ν Req ω) :
    C.receivedUnder key (C.step e s).2 = C.receivedUnder key s + (C.receives key e s).toNat := by
  cases e with
  | request node env unix req =>
    have hnoted := (Service.handle_noted C.toService (C.store.backend C.keyDigest) env unix req
      (s.node node) s.received).2
    simp only [receivedUnder, receives, step, asRequest]
    rw [hnoted, List.countP_append]
    generalize RateLimitMiddleware.isAllowedResponse _ = allowed
    cases hkey : C.keyOf req == some key <;> cases allowed <;> simp [hkey]
  | call c => rfl

/-- **A cluster is a fleet** to its server. -/
theorem step_db (e : ClusterEvent ν Req) (s : ClusterState ν Req ω) :
    (C.step e s).2.db = (fleetStep C.keyDigest (C.callOf e) s.db).2 := by
  cases e with
  | call c => rfl
  | request node env unix req =>
    have hnoted := (Service.handle_noted C.toService (C.store.backend C.keyDigest) env unix req
      (s.node node) s.received).1
    simp only [step, callOf, asRequest]
    rw [hnoted, RateLimitMiddleware.serve_consults]
    cases C.middleware.consulted C.keyDigest _ with
    | none => exact (RedisStore.remaining_snd C.store C.keyDigest _ _ s.db).symm
    | some key =>
      simp only [fleetStep, Algorithm.serve_checkOp]
      rfl

/-- A limited request that a handler receives is one that the store admits or one
    that its error lets through. -/
theorem admitted_of_receives {key : String} (hkey : C.middleware.bypasses C.keyDigest key = false)
    {node : ℕ} {env : RedisEnv} {unix : ℤ} {req : Req} {s : ClusterState ν Req ω}
    (h : C.receives key (.request node env unix req) s = true)
    (hclosed : C.failsOpen key (.request node env unix req) s = false) :
    C.callOf (.request node env unix req) =
        ⟨C.store, .call ⟨env, C.middleware.algorithm.checkOp key⟩⟩ ∧
      isAdmitted (RateLimiter.consult (C.store.backend C.keyDigest) env key
        C.middleware.algorithm s.db).1 = true := by
  simp only [receives, Bool.and_eq_true, beq_iff_eq] at h
  obtain ⟨hkeyOf, hallowed⟩ := h
  have hconsulted : C.middleware.consulted C.keyDigest (C.asRequest env unix req) = some key :=
    RateLimitMiddleware.consulted_eq_some.mpr ⟨hkeyOf, hkey⟩
  refine ⟨by simp only [callOf, hconsulted], ?_⟩
  simp only [failsOpen, hkeyOf, beq_self_eq_true, Bool.true_and, RateLimitMiddleware.isFailedOpen,
    RateLimitMiddleware.storeAnswer, hconsulted, Option.map_some, Option.any_some] at hclosed
  rw [RateLimitMiddleware.serve_of_consulted hconsulted] at hallowed
  generalize hanswer : RateLimiter.consult (C.store.backend C.keyDigest)
    (C.asRequest env unix req).env key C.middleware.algorithm s.db = answer at hclosed
  have hbalance : (RateLimitMiddleware.isAllowedResponse (C.middleware.settle (answer.1 >>=
      RateLimiter.resultOf C.middleware.algorithm (C.asRequest env unix req).unix)
        { s.node node with store := answer.2 }).1).toNat + _ = _ :=
    RateLimitMiddleware.settle_allowed _ _ _ _
  simp only [ClusterState.node, hanswer] at hallowed hbalance
  rw [hallowed, hclosed] at hbalance
  rw [show env = (C.asRequest env unix req).env from rfl, hanswer]
  generalize isAdmitted answer.1 = admitted at hbalance ⊢
  cases admitted with
  | true => rfl
  | false => simp at hbalance

end Cluster

/-! ## Runs of a cluster -/

/-- A run of a cluster, which to the server is a fleet, and a key that its
    middleware limits.  Other clients of the server may check the same tenant, with
    the same configuration. -/
structure ClusterRun (Req ρ E ω : Type) extends TenantFleet ℚ where
  cluster : Cluster ℚ Req ρ E ω
  init : ClusterState ℚ Req ω
  events : ℕ → ClusterEvent ℚ Req
  digests : cluster.keyDigest = ArmatureRatelimit.keyDigest sha256
  prefixed : cluster.store.keyPrefix = keyPrefix
  runs : cluster.middleware.algorithm = algorithm
  limited : cluster.middleware.bypasses cluster.keyDigest key = false
  starts : init.db = start
  does : ∀ n, calls n = cluster.callOf (events n)

namespace ClusterRun

variable {Req ρ E ω : Type} (R : ClusterRun Req ρ E ω)

def clusterAt (n : ℕ) : ClusterState ℚ Req ω := stateAt R.cluster.step R.init R.events n

/-- How many requests under the key the handlers have received before event `n`. -/
def receivedAt (n : ℕ) : ℕ := R.cluster.receivedUnder R.key (R.clusterAt n)

def receives (n : ℕ) : Bool := R.cluster.receives R.key (R.events n) (R.clusterAt n)

def failsOpen (n : ℕ) : Bool := R.cluster.failsOpen R.key (R.events n) (R.clusterAt n)

/-- How many requests under the key an error of the store lets through from event
    `m` on and before event `n`. -/
def failedOpenIn (m n : ℕ) : ℕ := ((Finset.Ico m n).filter fun i => R.failsOpen i = true).card

variable {R}

theorem clusterAt_db (R : ClusterRun Req ρ E ω) (n : ℕ) :
    (R.clusterAt n).db = stateAt R.step R.start R.calls n := by
  induction n with
  | zero => exact R.starts
  | succ n ih =>
    rw [stateAt_succ, ← ih, R.does, TenantFleet.step, ← R.digests]
    exact Cluster.step_db (R.events n) (R.clusterAt n)

/-- **What a handler receives, the fleet admits**, unless the store fails open. -/
theorem admits_of_receives {n : ℕ} (h : R.receives n = true) (hclosed : R.failsOpen n = false) :
    R.admits n = true := by
  cases he : R.events n with
  | call c =>
    simp only [receives, he, Cluster.receives] at h
    cases h
  | request node env unix req =>
    rw [receives, he] at h
    rw [failsOpen, he] at hclosed
    obtain ⟨hcall, hadmitted⟩ := Cluster.admitted_of_receives R.limited h hclosed
    have hon : (R.calls n).isOn (keyDigest R.sha256) R.keyPrefix R.digest = true := by
      rw [R.does, he, hcall]
      refine decide_eq_true ⟨R.prefixed, ?_⟩
      exact congrArg _ (Algorithm.key_checkOp _ R.key)
    have hcheck : R.requestAt n = some env := by
      rw [TenantFleet.requestAt, FleetCall.check?, if_pos hon, R.does, he, hcall, R.runs]
      simp only [if_true, Algorithm.algorithm?_checkOp, Option.map_some]
    rw [TenantFleet.admits, hcheck, outputAt, ← R.clusterAt_db, R.does, he, hcall]
    rw [R.digests] at hadmitted
    simp only [TenantFleet.step, fleetStep, Algorithm.serve_checkOp, Option.isSome_some,
      Bool.true_and]
    generalize (RateLimiter.consult (R.cluster.store.backend (keyDigest R.sha256)) env R.key
      R.cluster.middleware.algorithm (R.clusterAt n).db).1 = answer at hadmitted
    cases answer with
    | error failure => cases hadmitted
    | ok result => exact hadmitted

theorem receivedAt_eq (R : ClusterRun Req ρ E ω) {m n : ℕ} (hmn : m ≤ n) :
    R.receivedAt n =
      R.receivedAt m + ((Finset.Ico m n).filter fun i => R.receives i = true).card := by
  induction n, hmn using Nat.le_induction with
  | base => simp
  | succ n hmn ih =>
    have hstep : R.receivedAt (n + 1) = R.receivedAt n + (R.receives n).toNat :=
      Cluster.receivedUnder_step R.key (R.events n) (R.clusterAt n)
    rw [hstep, ih, Nat.Ico_succ_right_eq_insert_Ico hmn, Finset.filter_insert]
    cases R.receives n with
    | false => simp
    | true =>
      rw [if_pos rfl, Finset.card_insert_of_notMem (by simp)]
      rfl

def sampleCluster : Cluster ℚ (Option String) (ℕ × List (String × String)) Unit Unit where
  middleware := { RateLimitMiddleware.sampleMiddleware (Duration.fromSecs 60) with
    algorithm := .tokenBucket 2 1 }
  framework := RateLimitMiddleware.sampleFramework
  keyDigest := keyDigest sampleSha256
  next _ world := (.ok (200, []), world)
  store := ⟨"app", 3000000000⟩

theorem sampleCluster_limited :
    sampleCluster.middleware.bypasses sampleCluster.keyDigest "client" = false := by
  decide +kernel

theorem sampleCluster_callOf (node : ℕ) (env : RedisEnv) (unix : ℤ) :
    callOf "app" ⟨env, (Algorithm.tokenBucket 2 1).checkOp "client"⟩ =
      sampleCluster.callOf (.request node env unix (some "client")) := by
  have hconsulted : sampleCluster.middleware.consulted sampleCluster.keyDigest
      (sampleCluster.asRequest env unix (some "client")) = some "client" :=
    RateLimitMiddleware.consulted_eq_some.mpr ⟨rfl, sampleCluster_limited⟩
  simp only [Cluster.callOf, hconsulted]
  rfl

/-- They take turns every half second, one of them a second fast and the other one
    a second slow. -/
def sampleRun : ClusterRun (Option String) (ℕ × List (String × String)) Unit Unit where
  toTenantFleet := turns (.tokenBucket 2 1) 500 fun n => if n % 2 = 0 then 2000 else 0
  cluster := sampleCluster
  init := ⟨∅, fun _ => 0, fun _ => 0, ⟨(), []⟩⟩
  events n := .request (n % 2) (turnEnv 500 (fun n => if n % 2 = 0 then 2000 else 0) n) 0
    (some "client")
  digests := rfl
  prefixed := rfl
  runs := rfl
  limited := sampleCluster_limited
  starts := rfl
  does _ := sampleCluster_callOf _ _ _

theorem sampleRun_skewed : sampleRun.Skewed 1000 := by
  refine turns_skewed fun n => ?_
  split_ifs <;> decide

end ClusterRun

end ArmatureRatelimit
