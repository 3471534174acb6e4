/-
  A tenant among the calls of a fleet, and the checks of it by one algorithm
  (`stores/redis.rs`).

  A check is that of the store on what it finds (`step_request`).  Every other
  call, of whatever tenant and whatever kind, leaves alone the keys in which these
  checks keep their state (`other_leaves`).
-/
import ArmatureRatelimit.Proof.Tenants
import ArmatureRatelimit.Proof.Accounting

open Lib Lib.Redis

namespace ArmatureRatelimit

/-! ## Checks by an algorithm -/

namespace Algorithm

variable {ν : Type}

/-- The operation of a check. -/
def checkOp : Algorithm ν → String → RedisOp ν
  | tokenBucket capacity refillRate, key => .tokenBucket key capacity refillRate
  | slidingWindowLog maxRequests window, key => .slidingWindow key maxRequests window
  | fixedWindow maxRequests window, key => .fixedWindow key maxRequests window

/-- The roles of the keys in which its checks keep their state. -/
def Keeps : Algorithm ν → KeyRole → Prop
  | tokenBucket .., r => r = .tb
  | slidingWindowLog .., r => r = .sw ∨ r = .swseq
  | fixedWindow .., r => ∃ q, r = .fw q

theorem key_checkOp (algorithm : Algorithm ν) (key : String) :
    (algorithm.checkOp key).key = key := by
  cases algorithm <;> rfl

theorem serve_checkOp [F64 ν] (algorithm : Algorithm ν) (keyDigest : String → String)
    (store : RedisStore) (env : RedisEnv) (key : String) (db : Db ν) :
    store.serve keyDigest ⟨env, algorithm.checkOp key⟩ db =
      ((RateLimiter.consult (store.backend keyDigest) env key algorithm db).1.map some,
        (RateLimiter.consult (store.backend keyDigest) env key algorithm db).2) := by
  cases algorithm <;> rfl

end Algorithm

/-- The algorithm of a check. -/
def RedisOp.algorithm? {ν : Type} : RedisOp ν → Option (Algorithm ν)
  | .tokenBucket _ capacity refillRate => some (.tokenBucket capacity refillRate)
  | .slidingWindow _ maxRequests window => some (.slidingWindowLog maxRequests window)
  | .fixedWindow _ maxRequests window => some (.fixedWindow maxRequests window)
  | .reset .. => none

theorem RedisOp.eq_checkOp {ν : Type} {op : RedisOp ν} {algorithm : Algorithm ν}
    (h : op.algorithm? = some algorithm) : op = algorithm.checkOp op.key := by
  cases op with
  | reset key scan => cases h
  | tokenBucket | slidingWindow | fixedWindow =>
    obtain rfl := Option.some.inj h
    rfl

/-- A call that may write to the state of an algorithm is a check of its kind. -/
theorem RedisCall.isCheck_of_keeps {ν : Type} {algorithm : Algorithm ν} {call : RedisCall ν}
    {r : KeyRole} (hr : algorithm.Keeps r) (hmem : r ∈ call.roles) (key : String) :
    call.op.kind = (algorithm.checkOp key).kind ∧ ∃ a, call.op.algorithm? = some a := by
  obtain ⟨env, op⟩ := call
  cases op with
  | tokenBucket k capacity refillRate =>
    obtain rfl : r = .tb := by simpa [roles] using hmem
    refine ⟨?_, _, rfl⟩
    cases algorithm with
    | tokenBucket => rfl
    | slidingWindowLog | fixedWindow => simp [Algorithm.Keeps] at hr
  | slidingWindow k maxRequests window =>
    refine ⟨?_, _, rfl⟩
    cases algorithm with
    | slidingWindowLog => rfl
    | tokenBucket =>
      obtain rfl := hr
      simp [roles] at hmem
    | fixedWindow =>
      obtain ⟨q, rfl⟩ := hr
      simp [roles] at hmem
  | fixedWindow k maxRequests window =>
    refine ⟨?_, _, rfl⟩
    cases algorithm with
    | fixedWindow => rfl
    | tokenBucket =>
      obtain rfl := hr
      simp [roles] at hmem
    | slidingWindowLog => rcases hr with rfl | rfl <;> simp [roles] at hmem
  | reset k scan => simp [roles] at hmem

/-- The check of a tenant, by an algorithm of this kind, that a call is. -/
def FleetCall.check? {ν : Type} (keyDigest : String → String) (keyPrefix digest : String)
    (kind : RedisOp.Kind) (c : FleetCall ν) : Option (RedisEnv × Algorithm ν) :=
  if c.isOn keyDigest keyPrefix digest then
    match c.op with
    | .call ⟨env, op⟩ => if op.kind = kind then op.algorithm?.map (env, ·) else none
    | .remaining .. => none
  else none

theorem FleetCall.check?_eq_some {ν : Type} {keyDigest : String → String}
    {keyPrefix digest : String} {kind : RedisOp.Kind} {c : FleetCall ν}
    {q : RedisEnv × Algorithm ν} (h : c.check? keyDigest keyPrefix digest kind = some q) :
    c.isOn keyDigest keyPrefix digest = true ∧
      ∃ key, c.op = .call ⟨q.1, q.2.checkOp key⟩ := by
  unfold check? at h
  split_ifs at h with hon
  refine ⟨hon, ?_⟩
  obtain ⟨store, op⟩ := c
  cases op with
  | remaining env key => cases h
  | call call =>
    obtain ⟨env, op⟩ := call
    simp only at h
    split_ifs at h with hkind
    obtain ⟨algorithm, halgorithm, rfl⟩ := Option.map_eq_some_iff.mp h
    refine ⟨op.key, ?_⟩
    rw [← RedisOp.eq_checkOp halgorithm]

/-! ## Fleets -/

/-- Calls of a fleet, in the order in which the server executes them.  The checks
    of one tenant by an algorithm of one kind have one configuration; the tenant
    has no state for them at the start, and is not reset. -/
structure TenantFleet (ν : Type) where
  sha256 : String → Vector (BitVec 8) 32
  le : UInt8 → UInt8 → Bool
  keyPrefix : String
  key : String
  algorithm : Algorithm ν
  start : Db ν
  calls : ℕ → FleetCall ν
  plain : PlainPrefix keyPrefix
  clean : ∀ n, (calls n).CleanReset sha256 le
  unreset : ∀ n, ¬ (calls n).Resets (keyDigest sha256) keyPrefix (keyDigest sha256 key)
  missing : ∀ r, algorithm.Keeps r →
    start.lookup (RedisStore.roleKey ⟨keyPrefix, 0⟩ (keyDigest sha256 key) r) = none
  config : ∀ n q, (calls n).check? (keyDigest sha256) keyPrefix (keyDigest sha256 key)
    (algorithm.checkOp key).kind = some q → q.2 = algorithm
  inOrder : ∀ i j q q', i ≤ j →
    (calls i).check? (keyDigest sha256) keyPrefix (keyDigest sha256 key)
      (algorithm.checkOp key).kind = some q →
    (calls j).check? (keyDigest sha256) keyPrefix (keyDigest sha256 key)
      (algorithm.checkOp key).kind = some q' → q.1.server ≤ q'.1.server

namespace TenantFleet

variable {ν : Type} [F64 ν]

section
variable (F : TenantFleet ν)

def step (c : FleetCall ν) (db : Db ν) : FleetReply × Db ν := fleetStep (keyDigest F.sha256) c db

def digest : String := keyDigest F.sha256 F.key

/-- The tenant's key in a role. -/
def name (r : KeyRole) : String := RedisStore.roleKey ⟨F.keyPrefix, 0⟩ F.digest r

/-- What the check of the tenant that call `n` is reads. -/
def requestAt (n : ℕ) : Option RedisEnv :=
  ((F.calls n).check? (keyDigest F.sha256) F.keyPrefix F.digest
    (F.algorithm.checkOp F.key).kind).map Prod.fst

/-- The server's clock at check `n`. -/
def serverAt (n : ℕ) : ℤ := ((F.requestAt n).map fun env => env.server).getD 0

/-- Call `n` is a check of the tenant that its caller sees admitted. -/
def admits (n : ℕ) : Bool :=
  (F.requestAt n).isSome &&
    match outputAt F.step F.start F.calls n with
    | .served (.ok (some (allowed, _))) => allowed
    | _ => false

/-- The clocks of the instances are within `skew` milliseconds of the server's. -/
def Skewed (skew : ℕ) : Prop :=
  ∀ n env, F.requestAt n = some env →
    |(env.unix.toNat : ℤ) - 1000000 * env.server| ≤ 1000000 * skew

/-- Up to call `n` the checks read a clock in the range of the doubles, and find
    the counter of the members in the range of their texts. -/
def ExactTo (n : ℕ) : Prop :=
  ∀ k ≤ n, ∀ env, F.requestAt k = some env → Duration.asMillis env.unix.toNat < 2 ^ 53 ∧
    integerAt env.server (F.name .swseq) (stateAt F.step F.start F.calls k) < 10 ^ 14

instance (n : ℕ) : Decidable (F.ExactTo n) :=
  inferInstanceAs (Decidable (∀ k ≤ n, ∀ env ∈ F.requestAt k, _ ∧ _))

end

variable {F : TenantFleet ν}

omit [F64 ν] in
theorem requestAt_eq_some {n : ℕ} {env : RedisEnv} (hq : F.requestAt n = some env) :
    (F.calls n).check? (keyDigest F.sha256) F.keyPrefix F.digest
      (F.algorithm.checkOp F.key).kind = some (env, F.algorithm) := by
  obtain ⟨⟨env', algorithm⟩, hcheck, rfl⟩ := Option.map_eq_some_iff.mp hq
  obtain rfl : algorithm = F.algorithm := F.config n _ hcheck
  exact hcheck

omit [F64 ν] in
theorem server_mono {i j : ℕ} {env env' : RedisEnv} (hij : i ≤ j)
    (hi : F.requestAt i = some env) (hj : F.requestAt j = some env') : env.server ≤ env'.server :=
  F.inOrder i j _ _ hij (requestAt_eq_some hi) (requestAt_eq_some hj)

omit [F64 ν] in
theorem serverAt_eq {n : ℕ} {env : RedisEnv} (hq : F.requestAt n = some env) :
    F.serverAt n = env.server := by
  rw [serverAt, hq, Option.map_some, Option.getD_some]

theorem requestAt_of_admits {n : ℕ} (h : F.admits n = true) : ∃ env, F.requestAt n = some env := by
  rw [admits, Bool.and_eq_true] at h
  exact Option.isSome_iff_exists.mp h.1

omit [F64 ν] in
/-- In the whole milliseconds that an instance may send, too. -/
theorem Skewed.millis {skew : ℕ} (hskew : F.Skewed skew) {n : ℕ} {env : RedisEnv}
    (hq : F.requestAt n = some env) :
    |(Duration.asMillis env.unix.toNat : ℤ) - env.server| ≤ skew := by
  have hnear := abs_le.mp (hskew n env hq)
  rw [abs_le, Duration.asMillis]
  omega

/-- **A check of the tenant**, as the store of its instance makes it. -/
theorem step_request (F : TenantFleet ν) {n : ℕ} {env : RedisEnv}
    (hq : F.requestAt n = some env) : ∃ timeout key, keyDigest F.sha256 key = F.digest ∧
      let r := RateLimiter.consult (RedisStore.backend (keyDigest F.sha256) ⟨F.keyPrefix, timeout⟩)
        env key F.algorithm (stateAt F.step F.start F.calls n)
      stateAt F.step F.start F.calls (n + 1) = r.2 ∧ F.admits n = isAdmitted r.1 := by
  obtain ⟨hon, key, hop⟩ := FleetCall.check?_eq_some (requestAt_eq_some hq)
  rw [admits, outputAt, stateAt_succ, hq]
  generalize stateAt F.step F.start F.calls n = db
  generalize F.calls n = c at hon hop
  obtain ⟨⟨keyPrefix, timeout⟩, op⟩ := c
  obtain ⟨rfl, hdigest⟩ := of_decide_eq_true hon
  simp only at hop
  subst hop
  have hkey : keyDigest F.sha256 key = F.digest := by
    rw [← hdigest]
    exact congrArg _ (Algorithm.key_checkOp F.algorithm key).symm
  refine ⟨timeout, key, hkey, ?_⟩
  simp only [step, fleetStep, Algorithm.serve_checkOp, Option.isSome_some, Bool.true_and]
  refine ⟨trivial, ?_⟩
  cases (RateLimiter.consult (RedisStore.backend (keyDigest F.sha256) ⟨F.keyPrefix, timeout⟩) env
    key F.algorithm db).1 with
  | error failure => rfl
  | ok result => rfl

/-- Another call leaves the state of the tenant as it is. -/
theorem other_leaves (F : TenantFleet ν) {n : ℕ} (hn : F.requestAt n = none) {r : KeyRole}
    (hr : F.algorithm.Keeps r) (db : Db ν) :
    (F.step (F.calls n) db).2.lookup (F.name r) = db.lookup (F.name r) := by
  refine fleetStep_leaves_role F.plain (F.clean n) (F.unreset n) ?_ db
  rintro hon ⟨env, op⟩ hop hmem
  have hon' : (F.calls n).isOn (keyDigest F.sha256) F.keyPrefix F.digest = true := hon
  obtain ⟨hkind, algorithm, halgorithm⟩ := RedisCall.isCheck_of_keeps hr hmem F.key
  simp only at hkind halgorithm
  simp [requestAt, FleetCall.check?, hon', hop, hkind, halgorithm] at hn

end TenantFleet

/-! ## Turns -/

theorem Algorithm.algorithm?_checkOp {ν : Type} (algorithm : Algorithm ν) (key : String) :
    (algorithm.checkOp key).algorithm? = some algorithm := by
  cases algorithm <;> rfl

theorem Algorithm.checkOp_ne_reset {ν : Type} (algorithm : Algorithm ν) (key k : String)
    (scan : String → List SweepTurn) : algorithm.checkOp key ≠ .reset k scan := by
  cases algorithm <;> simp [Algorithm.checkOp]

section
variable {keyPrefix : String} {env : RedisEnv} {algorithm : Algorithm ℚ}

theorem callOf_clean (sha256 : String → Vector (BitVec 8) 32) (le : UInt8 → UInt8 → Bool) :
    (callOf keyPrefix ⟨env, algorithm.checkOp "client"⟩).CleanReset sha256 le := by
  cases algorithm <;> trivial

theorem callOf_unreset (keyDigest : String → String) (digest : String) :
    ¬ (callOf keyPrefix ⟨env, algorithm.checkOp "client"⟩).Resets keyDigest keyPrefix digest := by
  rintro ⟨-, env', key, scan, hop⟩
  obtain ⟨-, hreset⟩ := RedisCall.mk.inj (FleetOp.call.inj hop)
  exact Algorithm.checkOp_ne_reset _ _ _ _ hreset

theorem callOf_check? {keyDigest : String → String} {digest : String} {kind : RedisOp.Kind}
    {q : RedisEnv × Algorithm ℚ}
    (h : (callOf keyPrefix ⟨env, algorithm.checkOp "client"⟩).check? keyDigest keyPrefix digest
      kind = some q) : q = (env, algorithm) := by
  simp only [FleetCall.check?, callOf, Algorithm.algorithm?_checkOp] at h
  split_ifs at h
  exact (Option.some.inj h).symm

end

/-- The readings of instances that take turns every so many milliseconds.  The
    server's clock shows a second more; `early` says by how much the reading of an
    instance is ahead of its turn, so that a second is no skew. -/
def turnEnv (every : ℕ) (early : ℕ → ℕ) (n : ℕ) : RedisEnv :=
  ⟨Duration.fromMillis (every * n + early n), every * n + 1000, .answered 0⟩

theorem turnEnv_mono {every i j : ℕ} (early : ℕ → ℕ) (hij : i ≤ j) :
    (turnEnv every early i).server ≤ (turnEnv every early j).server := by
  have hle : (every : ℤ) * i ≤ every * j := by exact_mod_cast Nat.mul_le_mul_left every hij
  simp only [turnEnv]
  linarith

/-- Their checks of a client. -/
def turns (algorithm : Algorithm ℚ) (every : ℕ) (early : ℕ → ℕ) : TenantFleet ℚ where
  sha256 := sampleSha256
  le := unsignedLe
  keyPrefix := "app"
  key := "client"
  algorithm := algorithm
  start := ∅
  calls n := callOf "app" ⟨turnEnv every early n, algorithm.checkOp "client"⟩
  plain := plainPrefix_app
  clean _ := callOf_clean _ _
  unreset _ := callOf_unreset _ _
  missing _ _ := rfl
  config _ _ h := congrArg Prod.snd (callOf_check? h)
  inOrder i j _ _ hij h h' := by
    rw [callOf_check? h, callOf_check? h']
    exact turnEnv_mono early hij

theorem turns_skewed {algorithm : Algorithm ℚ} {every : ℕ} {early : ℕ → ℕ} {skew : ℕ}
    (h : ∀ n, |(early n : ℤ) - 1000| ≤ skew) : (turns algorithm every early).Skewed skew := by
  intro n env hq
  obtain rfl : env = turnEnv every early n :=
    congrArg Prod.fst (callOf_check? (TenantFleet.requestAt_eq_some hq))
  have hnear := abs_le.mp (h n)
  rw [abs_le, turnEnv, Int.toNat_natCast, Duration.fromMillis]
  push_cast
  constructor <;> linarith

end ArmatureRatelimit
