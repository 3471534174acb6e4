/-
  The tenants of a Redis server do not affect each other (`stores/redis.rs`).

  Seen from one tenant, a fleet is its own calls on its own names
  (`tenantProjection`): what other prefixes and other rate-limit keys do, resets
  and their sweeps included, goes unnoticed.  A reset of the tenant that
  completes makes it a new tenant.
-/
import ArmatureRatelimit.RedisFleet

open Lib Lib.Redis

namespace ArmatureRatelimit

variable {ν : Type} [F64 ν] {sha256 : String → Vector (BitVec 8) 32}
  {le : UInt8 → UInt8 → Bool} {keyPrefix key : String}

/-! ## One call -/

/-- A call of the tenant reads and writes under its names. -/
theorem fleetStep_local {digest : String} {c : FleetCall ν}
    (hon : c.isOn (keyDigest sha256) keyPrefix digest = true) :
    Respects (Agree (TenantName keyPrefix digest)) (fleetStep (keyDigest sha256) c) := by
  obtain ⟨hpre, rfl⟩ := of_decide_eq_true hon
  exact fleetStep_respects (agree_kept _) fun now _ r =>
    agree_shows (tenantName_roleKey hpre _ r) now

/-- A name of the tenant is built by no other tenant. -/
theorem isOn_of_roleKey {store : RedisStore} {k : String} {r r' : KeyRole}
    (h : RedisStore.roleKey ⟨keyPrefix, 0⟩ (keyDigest sha256 key) r =
      store.roleKey (keyDigest sha256 k) r') :
    store.keyPrefix = keyPrefix ∧ keyDigest sha256 k = keyDigest sha256 key := by
  obtain ⟨hpre, hdigest, -⟩ := roleKey_inj h
  exact ⟨hpre.symm, hdigest.symm⟩

/-- The pattern of another tenant does not match the names. -/
theorem sweepPattern_ignores (hplain : PlainPrefix keyPrefix) {store : RedisStore} {k : String}
    (hexact : ExactPrefix sha256 le store.keyPrefix)
    (hoff : ¬ (store.keyPrefix = keyPrefix ∧ keyDigest sha256 k = keyDigest sha256 key))
    (r : KeyRole) : globMatch le (store.sweepPattern (keyDigest sha256) k)
      (RedisStore.roleKey ⟨keyPrefix, 0⟩ (keyDigest sha256 key) r) = false := by
  by_cases hpre : store.keyPrefix = keyPrefix
  · have hdigest : keyDigest sha256 key ≠ keyDigest sha256 k := fun heq =>
      hoff ⟨hpre, heq.symm⟩
    have hname : RedisStore.roleKey ⟨keyPrefix, 0⟩ (keyDigest sha256 key) r =
        store.roleKey (keyDigest sha256 key) r := by
      subst hpre
      cases r <;> rfl
    rw [hname]
    exact hexact.ignores_others r hdigest
  · exact @ExactPrefix.ignores_foreign _ _ _ hexact ⟨keyPrefix, 0⟩ _ _ r hplain
      fun heq => hpre heq.symm

/-- **Calls of other tenants leave the names alone.** -/
theorem fleetStep_leaves (hplain : PlainPrefix keyPrefix) {c : FleetCall ν}
    (hclean : c.CleanReset sha256 le)
    (hoff : c.isOn (keyDigest sha256) keyPrefix (keyDigest sha256 key) = false) {name : String}
    (hname : TenantName keyPrefix (keyDigest sha256 key) name) (db : Db ν) :
    (fleetStep (keyDigest sha256) c db).2.lookup name = db.lookup name := by
  obtain ⟨store, op⟩ := c
  obtain ⟨r, rfl⟩ := hname
  have hother := of_decide_eq_false hoff
  cases op with
  | remaining env k =>
    rw [fleetStep]
    simp only [RedisStore.remaining_snd]
  | call call =>
    obtain ⟨env, op⟩ := call
    cases op with
    | reset k scan =>
      obtain ⟨hexact, hmatching⟩ := hclean
      refine RedisStore.reset_leaves env ?_ ?_ db
      · intro hfixed
        obtain ⟨hpre, hdigest⟩ := mem_fixedKeys hfixed
        exact hother ⟨hpre.symm, hdigest.symm⟩
      · intro turn hturn hmem
        have hmatch := hmatching turn hturn _ hmem
        have hnot := sweepPattern_ignores hplain hexact hother r
        exact absurd (hnot.symm.trans hmatch) Bool.false_ne_true
    | tokenBucket | slidingWindow | fixedWindow =>
      refine RedisStore.serve_leaves rfl ?_ db
      intro hmem
      obtain ⟨r', -, heq⟩ := List.mem_map.mp hmem
      exact hother (isOn_of_roleKey heq.symm)

omit [F64 ν] in
/-- The call resets the tenant. -/
def FleetCall.Resets (keyDigest : String → String) (keyPrefix digest : String)
    (c : FleetCall ν) : Prop :=
  c.isOn keyDigest keyPrefix digest = true ∧ ∃ env key scan, c.op = .call ⟨env, .reset key scan⟩

/-- **Calls that are no reset of the tenant** leave a name of it alone, but for
    its own checks in that role. -/
theorem fleetStep_leaves_role (hplain : PlainPrefix keyPrefix) {c : FleetCall ν}
    (hclean : c.CleanReset sha256 le)
    (hunreset : ¬ c.Resets (keyDigest sha256) keyPrefix (keyDigest sha256 key)) {r : KeyRole}
    (hrole : c.isOn (keyDigest sha256) keyPrefix (keyDigest sha256 key) = true →
      ∀ call, c.op = .call call → r ∉ call.roles) (db : Db ν) :
    (fleetStep (keyDigest sha256) c db).2.lookup
        (RedisStore.roleKey ⟨keyPrefix, 0⟩ (keyDigest sha256 key) r) =
      db.lookup (RedisStore.roleKey ⟨keyPrefix, 0⟩ (keyDigest sha256 key) r) := by
  cases hon : c.isOn (keyDigest sha256) keyPrefix (keyDigest sha256 key) with
  | false => exact fleetStep_leaves hplain hclean hon ⟨r, rfl⟩ db
  | true =>
    replace hrole := hrole hon
    unfold FleetCall.Resets at hunreset
    simp only [hon, true_and] at hunreset
    obtain ⟨⟨keyPrefix', timeout⟩, op⟩ := c
    obtain ⟨rfl, hdigest⟩ := of_decide_eq_true hon
    have hkey : ∀ k, RedisStore.roleKey ⟨keyPrefix', 0⟩ k r =
        RedisStore.roleKey ⟨keyPrefix', timeout⟩ k r := by
      intro k
      cases r <;> rfl
    rw [hkey]
    cases op with
    | remaining env key => rw [fleetStep, RedisStore.remaining_snd]
    | call call =>
      obtain ⟨env, op⟩ := call
      cases op with
      | reset key scan => exact absurd ⟨env, key, scan, rfl⟩ hunreset
      | tokenBucket | slidingWindow | fixedWindow =>
        refine RedisStore.serve_leaves rfl ?_ db
        intro hmem
        obtain ⟨r', hr', heq⟩ := List.mem_map.mp hmem
        obtain ⟨-, rfl⟩ := RedisStore.roleKey_digest_inj heq
        exact hrole _ rfl hr'

/-! ## One tenant -/

/-- **A fleet as one tenant sees it.** -/
theorem tenantProjection (hplain : PlainPrefix keyPrefix) (key : String) :
    Projection (fleetStep (ν := ν) (keyDigest sha256)) (fleetStep (keyDigest sha256))
      (Option.guard fun c => c.isOn (keyDigest sha256) keyPrefix (keyDigest sha256 key))
      (fun c _ => c.CleanReset sha256 le)
      (Agree (TenantName keyPrefix (keyDigest sha256 key))) where
  seen := by
    intro c c' db db' hc _ h
    obtain ⟨rfl, hon⟩ := Option.guard_eq_some_iff.mp hc
    exact fleetStep_local hon db db' h
  unseen := by
    intro c db db' hc hclean h name hname
    have hoff : c.isOn (keyDigest sha256) keyPrefix (keyDigest sha256 key) = false := by
      simpa [Option.guard] using hc
    rw [fleetStep_leaves hplain hclean hoff hname]
    exact h name hname

/-- The replies to the calls of a tenant. -/
def tenantReplies (sha256 : String → Vector (BitVec 8) 32) (keyPrefix key : String) (db : Db ν)
    (calls : List (FleetCall ν)) : List FleetReply :=
  trace (fleetStep (keyDigest sha256))
    (fun c => c.isOn (keyDigest sha256) keyPrefix (keyDigest sha256 key)) db calls

/-- The replies are those of the tenant's own calls, on what it has stored. -/
theorem tenantReplies_eq (hplain : PlainPrefix keyPrefix) {db own : Db ν}
    (hagree : Agree (TenantName keyPrefix (keyDigest sha256 key)) db own)
    {calls : List (FleetCall ν)} (hclean : ∀ c ∈ calls, c.CleanReset sha256 le) :
    tenantReplies sha256 keyPrefix key db calls = trace (fleetStep (keyDigest sha256))
      (fun _ => true) own
      (calls.filter fun c => c.isOn (keyDigest sha256) keyPrefix (keyDigest sha256 key)) := by
  have hpart := @Projection.trace_eq _ _ _ _ _ _ _ _ _ _
    (@tenantProjection ν _ sha256 le _ hplain key) (fun _ => true) _ _ _
    (allowed_iff_forall.mpr hclean) hagree
  rw [List.filterMap_eq_filter] at hpart
  rw [tenantReplies, ← hpart]
  refine trace_congr fun c _ => ?_
  cases hc : c.isOn (keyDigest sha256) keyPrefix (keyDigest sha256 key) <;> simp [Option.guard, hc]

/-- **Tenants are isolated.**  Take two runs of any fleets, on servers that hold
    the same under the names of a tenant.  If they contain the same calls of the
    tenant, whose instances get the same environments, these calls get the same
    replies, whatever the calls of other prefixes and other rate-limit keys are
    and in whatever order they come. -/
theorem redis_tenantIsolation (hplain : PlainPrefix keyPrefix) (key : String) {db db' : Db ν}
    (hagree : Agree (TenantName keyPrefix (keyDigest sha256 key)) db db')
    {calls calls' : List (FleetCall ν)} (hclean : ∀ c ∈ calls, c.CleanReset sha256 le)
    (hclean' : ∀ c ∈ calls', c.CleanReset sha256 le)
    (hown : (calls.filter fun c => c.isOn (keyDigest sha256) keyPrefix (keyDigest sha256 key)) =
      calls'.filter fun c => c.isOn (keyDigest sha256) keyPrefix (keyDigest sha256 key)) :
    tenantReplies sha256 keyPrefix key db calls =
      tenantReplies sha256 keyPrefix key db' calls' := by
  rw [tenantReplies_eq hplain hagree hclean, tenantReplies_eq hplain (fun _ _ => rfl) hclean', hown]

/-! ## Resets -/

omit [F64 ν] in
/-- A reset that completes leaves nothing under the names of its tenant. -/
theorem agree_empty_of_reset {store : RedisStore} {env : RedisEnv}
    {scan : String → List SweepTurn} {db : Db ν} (hexact : ExactPrefix sha256 le store.keyPrefix)
    (hscan : FullScan le (store.sweepPattern (keyDigest sha256) key)
      (scan (store.sweepPattern (keyDigest sha256) key))
      (db.removeAll (store.fixedKeys (keyDigest sha256) key)))
    (hok : (store.reset (keyDigest sha256) env scan key db).1 = .ok ()) :
    Agree (TenantName store.keyPrefix (keyDigest sha256 key))
      (store.reset (keyDigest sha256) env scan key db).2 ∅ := by
  rintro name ⟨r, rfl⟩
  have hgone := (hexact.resetExact key env scan db hscan hok).own r
  have hname : RedisStore.roleKey ⟨store.keyPrefix, 0⟩ (keyDigest sha256 key) r =
      store.roleKey (keyDigest sha256 key) r := by
    cases r <;> rfl
  rw [hname, hgone]
  rfl

/-- **A reset is a new start.**  After a reset that completes, in whatever state
    it finds the server, the calls of its tenant get the replies that they would
    get from an empty server, without the calls of any other tenant. -/
theorem redis_reset_restarts {store : RedisStore} {env : RedisEnv}
    {scan : String → List SweepTurn} {db : Db ν} (hplain : PlainPrefix store.keyPrefix)
    (hscan : FullScan le (store.sweepPattern (keyDigest sha256) key)
      (scan (store.sweepPattern (keyDigest sha256) key))
      (db.removeAll (store.fixedKeys (keyDigest sha256) key)))
    (hok : (store.reset (keyDigest sha256) env scan key db).1 = .ok ())
    {calls : List (FleetCall ν)} (hclean : ∀ c ∈ calls, c.CleanReset sha256 le) :
    tenantReplies sha256 store.keyPrefix key (store.reset (keyDigest sha256) env scan key db).2
        calls =
      outputs (fleetStep (keyDigest sha256)) ∅ (calls.filter fun c =>
        c.isOn (keyDigest sha256) store.keyPrefix (keyDigest sha256 key)) :=
  tenantReplies_eq hplain (agree_empty_of_reset hplain.exact hscan hok) hclean

/-! ## Two prefixes -/

/-- A call under a prefix. -/
def callOf (keyPrefix : String) (c : RedisCall ℚ) : FleetCall ℚ :=
  ⟨⟨keyPrefix, 3000000000⟩, .call c⟩

/-- A reset, of a server that holds `db`. -/
def resetOf (keyPrefix key : String) (db : Db ℚ) : FleetCall ℚ :=
  callOf keyPrefix ⟨⟨1700000000000000000, 1700000000000, .answered 0⟩,
    .reset key (scanAtOnce unsignedLe db)⟩

theorem resetOf_clean (key : String) (db : Db ℚ) :
    (resetOf "app" key db).CleanReset sampleSha256 unsignedLe :=
  ⟨plainPrefix_app.exact, (scanAtOnce_full unsignedLe _ fun _ h => h).matching⟩

/-- The server after a check of the key, with two checks per minute used. -/
def afterCheck (key : String) : Db ℚ :=
  (fleetStep (keyDigest sampleSha256) (callOf "app" (minuteCheck key)) ∅).2

theorem callOf_isOn (keyPrefix : String) (c : RedisCall ℚ) :
    (callOf keyPrefix c).isOn (keyDigest sampleSha256) "app" (keyDigest sampleSha256 "client") =
      decide (keyPrefix = "app" ∧
        keyDigest sampleSha256 c.op.key = keyDigest sampleSha256 "client") := rfl

theorem visitor_ne_client :
    ¬ keyDigest sampleSha256 "visitor" = keyDigest sampleSha256 "client" := by
  decide

/-- A client among a limiter with another prefix and a visitor whose limits are
    reset. -/
theorem redis_tenantIsolation_visitor :
    tenantReplies sampleSha256 "app" "client" ∅
        [callOf "app:fw" (minuteCheck "client"), callOf "app" (minuteCheck "client"),
          resetOf "app" "visitor" (afterCheck "visitor"), callOf "app" (minuteCheck "client")] =
      tenantReplies sampleSha256 "app" "client" (∅ : Db ℚ)
        [callOf "app" (minuteCheck "client"), callOf "app" (minuteCheck "client")] := by
  refine @redis_tenantIsolation ℚ _ sampleSha256 unsignedLe _ plainPrefix_app "client" _ _
    (fun _ _ => rfl) _ _ ?_ ?_ ?_
  · simp only [List.forall_mem_cons]
    exact ⟨trivial, trivial, resetOf_clean "visitor" _, trivial, by simp⟩
  · simp only [List.forall_mem_cons]
    exact ⟨trivial, trivial, by simp⟩
  · simp [resetOf, callOf_isOn, minuteCheck, RedisOp.key, visitor_ne_client]

/-- A reset of a client after its first check, and the next check. -/
theorem redis_reset_restarts_client :
    tenantReplies sampleSha256 "app" "client"
        (RedisStore.reset (keyDigest sampleSha256) ⟨"app", 3000000000⟩ ⟨0, 0, .answered 0⟩
          (scanAtOnce unsignedLe (afterCheck "client")) "client" (afterCheck "client")).2
        [callOf "app" (minuteCheck "visitor"), callOf "app" (minuteCheck "client")] =
      outputs (fleetStep (keyDigest sampleSha256)) (∅ : Db ℚ)
        [callOf "app" (minuteCheck "client")] := by
  have hthere : ∀ keys k, ((afterCheck "client").removeAll keys).lookup k ≠ none →
      (afterCheck "client").lookup k ≠ none := by
    intro keys k hk hnone
    rw [KeyMap.lookup_removeAll, hnone, ite_self] at hk
    exact hk rfl
  have hclean : ∀ c ∈ [callOf "app" (minuteCheck "visitor"), callOf "app" (minuteCheck "client")],
      c.CleanReset sampleSha256 unsignedLe := by
    simp only [List.forall_mem_cons]
    exact ⟨trivial, trivial, by simp⟩
  have hrestarts := @redis_reset_restarts ℚ _ sampleSha256 unsignedLe "client"
    ⟨"app", 3000000000⟩ ⟨0, 0, .answered 0⟩ (scanAtOnce unsignedLe (afterCheck "client"))
    (afterCheck "client") plainPrefix_app
    (scanAtOnce_full unsignedLe _ (hthere _)) (reset_completes "client" _ 0 0) _ hclean
  rw [hrestarts]
  simp [callOf_isOn, minuteCheck, RedisOp.key, visitor_ne_client]

end ArmatureRatelimit
