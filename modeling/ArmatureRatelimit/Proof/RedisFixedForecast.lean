/-
  `remaining` of the fixed windows of the Redis store (`stores/redis.rs`).

  The query follows the pointer `fwcur`, which the first check of a window
  writes together with the limit and the count of the window, all under one
  deadline (`Pointing`).  The companions outlive the window by more than ten
  seconds, and the query does not look at the clock, so it goes on reporting
  what the old window has left, while the next check starts a new one.  It
  foretells that check exactly in the window that the pointer names
  (`redisFixed_remaining_iff`).
-/
import ArmatureRatelimit.Proof.RedisForecast

open Lib Lib.Redis

namespace ArmatureRatelimit

open RedisStore

variable {ν : Type}

/-! ## Counts -/

/-- What is told of the count after `c` is right: it is itself while it is within
    the limit, and beyond the limit from there on. -/
structure CountDecides (maxRequests : ℕ) (c : ℤ) : Prop where
  lt : c < int64Max
  within : c < maxRequests → luaInt (c + 1) = c + 1
  beyond : (maxRequests : ℤ) ≤ c → (maxRequests : ℤ) < luaInt (c + 1)

theorem countDecides_of_lt {maxRequests : ℕ} (hmax : maxRequests < 2 ^ 53) {c : ℤ} (h0 : 0 ≤ c)
    (h : c < int64Max) : CountDecides maxRequests c := by
  refine ⟨h, fun hc => luaInt_eq (by omega), fun hc => ?_⟩
  by_cases hsmall : c + 1 < 2 ^ 53
  · rw [luaInt_eq (by omega)]
    omega
  · have := le_luaInt (n := c + 1) (by omega)
    omega

theorem fixedDecision_eq (maxRequests : ℕ) (result : ℤ) :
    fixedDecision maxRequests result = answerOf (maxRequests + 1 - asU64 result) := by
  unfold fixedDecision answerOf
  by_cases h : asU64 result ≤ maxRequests
  · rw [if_pos h, if_pos (by omega)]
    congr 1
    omega
  · rw [if_neg h, if_neg (by omega)]

theorem fixedDecision_foretells {maxRequests c : ℕ} (hc : (c : ℤ) < int64Max) :
    Foretells (maxRequests - c) (.ok (fixedDecision maxRequests (luaInt ((c + 1 : ℕ) : ℤ)))) ↔
      CountDecides maxRequests c := by
  have hpush : ((c + 1 : ℕ) : ℤ) = (c : ℤ) + 1 := by push_cast; rfl
  obtain ⟨k, hk, hread⟩ : ∃ k : ℕ, luaInt ((c : ℤ) + 1) = k ∧ asU64 (k : ℤ) = k := by
    by_cases hsmall : (c : ℤ) + 1 < 2 ^ 53
    · exact ⟨c + 1, by rw [luaInt_eq (by omega), hpush], asU64_of_lt (by omega)⟩
    · have hlow := le_luaInt (n := (c : ℤ) + 1) (by omega)
      have hhigh := luaInt_le (n := (c : ℤ) + 1) (by omega) (by omega)
      refine ⟨(luaInt ((c : ℤ) + 1)).toNat, by omega, asU64_of_lt (by omega)⟩
  rw [fixedDecision_eq, foretells_answerOf, hpush, hk, hread]
  constructor
  · intro heq
    refine ⟨hc, fun hlt => ?_, fun hle => ?_⟩
    · rw [hk]
      omega
    · rw [hk]
      omega
  · rintro ⟨-, hwithin, hbeyond⟩
    rw [hk] at hwithin hbeyond
    omega

/-! ## The pointer of a key -/

/-- The window of a reading. -/
def windowAt (window : ℕ) (unix : ℤ) : Fin (2 ^ 64) :=
  ⟨windowIdAt window unix, windowIdAt_lt window unix⟩

/-- What the entries of a key hold: nothing, or the limit, the window of the
    last check and its count under one deadline, and no count of a later
    window. -/
inductive Pointing (maxRequests window : ℕ) (env : RedisEnv) (es : KeyRole → Option (Entry ν)) :
    Prop
  | fresh (cur : es .fwcur = none) (counts : ∀ q, es (.fw q) = none)
  | present {q : Fin (2 ^ 64)} {c : ℕ} {d : ℤ}
      (cur : es .fwcur = some ⟨.int (q : ℕ), some d⟩)
      (limit : es .fwmax = some ⟨.int maxRequests, some d⟩)
      (count : es (.fw q) = some ⟨.int c, some d⟩)
      (pos : 0 < c) (le : (c : ℤ) ≤ int64Max) (deadline_le : d ≤ int64Max)
      (started : 0 ≤ env.unix)
      (reached : (q : ℕ) * windowMillis window ≤ Duration.asMillis env.unix.toNat)
      (later : ∀ q', q < q' → es (.fw q') = none)

section
variable {maxRequests window : ℕ} {env env' : RedisEnv} {es : KeyRole → Option (Entry ν)}

theorem Pointing.mono (h : Pointing maxRequests window env es) (hle : env.Before env') :
    Pointing maxRequests window env' es := by
  cases h with
  | fresh cur counts => exact .fresh cur counts
  | present cur limit count pos le deadline_le started reached later =>
    refine .present cur limit count pos le deadline_le (started.trans hle.unix) ?_ later
    exact reached.trans (Nat.div_le_div_right (Int.toNat_le_toNat hle.unix))

/-- A reading on the server's clock is in the range of a `u64`. -/
theorem asU64_reading (hread : env.ReadFirst) (hserver : env.server ≤ int64Max) :
    asU64 (Duration.asMillis env.unix.toNat) = Duration.asMillis env.unix.toNat := by
  unfold RedisEnv.ReadFirst at hread
  unfold int64Max at hserver
  refine asU64_of_lt ?_
  unfold Duration.asMillis
  omega

/-- A window that a reading has reached is not after the window of the reading. -/
theorem le_windowAt (hread : env.ReadFirst) (hserver : env.server ≤ int64Max)
    {q : Fin (2 ^ 64)}
    (h : (q : ℕ) * windowMillis window ≤ Duration.asMillis env.unix.toNat) :
    q ≤ windowAt window env.unix := by
  have hpos : 0 < windowMillis window := lt_max_of_lt_right one_pos
  show (q : ℕ) ≤ windowIdAt window env.unix
  rw [windowIdAt, asU64_reading hread hserver]
  exact (Nat.le_div_iff_mul_le hpos).mpr h

theorem windowAt_reached (hread : env.ReadFirst) (hserver : env.server ≤ int64Max) :
    (windowAt window env.unix : ℕ) * windowMillis window ≤
      Duration.asMillis env.unix.toNat := by
  show windowIdAt window env.unix * windowMillis window ≤ _
  rw [windowIdAt, asU64_reading hread hserver]
  exact Nat.div_mul_le_self _ _

end

/-! ## One execution -/

section
variable {store : RedisStore} {keyDigest : String → String} {digest : String}
  {maxRequests window : ℕ} {env : RedisEnv} {db : Db ν}

theorem entriesOf_insert (store : RedisStore) (digest : String) (r : KeyRole) (e : Entry ν)
    (db : Db ν) : store.entriesOf digest (db.insert (store.roleKey digest r) e) =
      Function.update (store.entriesOf digest db) r (some e) := by
  funext r'
  by_cases hr : r' = r
  · rw [hr, Function.update_self]
    exact AList.lookup_insert _
  · rw [Function.update_of_ne hr]
    exact AList.lookup_insert_ne fun h => hr (roleKey_digest_inj h).2

/-- A later check of a window counts, or fails with a full counter. -/
theorem checkScript_next {c : ℕ} {d : Option ℤ} (hpos : 0 < c)
    (hcount : intAt env.server (store.roleKey digest (.fw (windowAt window env.unix))) db =
      some ((c : ℤ), d)) (maxRequests : ℕ) :
    ((c : ℤ) < int64Max → store.checkScript digest maxRequests window env db =
      (.ok (luaInt ((c + 1 : ℕ) : ℤ)), db.insert
        (store.roleKey digest (.fw (windowAt window env.unix))) ⟨.int ((c + 1 : ℕ) : ℤ), d⟩)) ∧
    ((c : ℤ) = int64Max → ∃ msg, store.checkScript digest maxRequests window env db =
      (.error msg, db)) := by
  constructor
  · exact fun hlt => fixedWindowScript_next hpos hlt hcount maxRequests _
  · intro hfull
    rw [hfull] at hcount
    obtain ⟨msg, hmsg⟩ := incr_overflow hcount
    exact ⟨msg, Script.bind_error hmsg _⟩

theorem checkScript_eq (store : RedisStore) (digest : String) (maxRequests window : ℕ)
    (env : RedisEnv) : (store.checkScript digest maxRequests window env : Script ν ℤ) =
      fixedWindowScript env.server (store.roleKey digest (.fw (windowAt window env.unix)))
        (store.roleKey digest .fwmax) (store.roleKey digest .fwcur) maxRequests
        (windowAt window env.unix : ℕ) (fixedTtl window) := by
  unfold checkScript
  rw [asI64_fixedTtl]
  rfl

/-- The first check of a window writes all three keys. -/
theorem checkScript_first
    (hfind : find env.server (store.roleKey digest (.fw (windowAt window env.unix))) db = none)
    (haccepted : env.server + 1000 * luaInt (fixedTtl window) ≤ int64Max) (maxRequests : ℕ) :
    ∃ db', store.checkScript digest maxRequests window env db = (.ok 1, db') ∧
      store.entriesOf digest db' = Function.update (Function.update (Function.update
        (store.entriesOf digest db)
        (.fw (windowAt window env.unix))
          (some ⟨.int 1, some (env.server + 1000 * luaInt (fixedTtl window))⟩))
        .fwmax (some ⟨.int maxRequests, some (env.server + 1000 * luaInt (fixedTtl window))⟩))
        .fwcur (some ⟨.int (windowAt window env.unix : ℕ),
          some (env.server + 1000 * luaInt (fixedTtl window))⟩) := by
  rw [checkScript_eq]
  refine ⟨_, fixedWindowScript_first hfind (luaInt_fixedTtl_pos window) haccepted _ _, ?_⟩
  rw [entriesOf_insert, entriesOf_insert, entriesOf_insert, entriesOf_insert,
    Function.update_idem]

theorem checkScript_refused
    (hfind : find env.server (store.roleKey digest (.fw (windowAt window env.unix))) db = none)
    (hinvalid : int64Max < env.server + 1000 * luaInt (fixedTtl window)) (maxRequests : ℕ) :
    ∃ msg, (store.checkScript digest maxRequests window env db).1 = .error msg := by
  rw [checkScript_eq]
  exact fixedWindowScript_refused hfind hinvalid _ _

/-- The first check of a window sets the pointer. -/
theorem Pointing.script_first (hread : env.ReadFirst) (hunix : 0 ≤ env.unix)
    (haccepted : env.server + 1000 * luaInt (fixedTtl window) ≤ int64Max)
    (h : Pointing maxRequests window env (store.entriesOf digest db))
    (hfind : find env.server (store.roleKey digest (.fw (windowAt window env.unix))) db = none) :
    Pointing maxRequests window env
      (store.entriesOf digest (store.checkScript digest maxRequests window env db).2) := by
  have httl := luaInt_fixedTtl_pos window
  have hserver : env.server ≤ int64Max := by omega
  have hlater : ∀ q', windowAt window env.unix < q' →
      store.entriesOf digest db (.fw q') = none := by
    intro q' hq'
    cases h with
    | fresh cur counts => exact counts q'
    | present cur limit count pos le deadline_le started reached later =>
      exact later q' ((le_windowAt hread hserver reached).trans_lt hq')
  obtain ⟨db', hrun, hes⟩ := checkScript_first hfind haccepted maxRequests
  rw [hrun, hes]
  refine .present (q := windowAt window env.unix) (c := 1) ?_ ?_ ?_ one_pos (by decide) haccepted
    hunix (windowAt_reached hread hserver) ?_
  · rw [Function.update_self]
  · rw [Function.update_of_ne (by simp), Function.update_self]
  · rw [Function.update_of_ne (by simp), Function.update_of_ne (by simp), Function.update_self]
    rfl
  · intro q' hq'
    rw [Function.update_of_ne (by simp), Function.update_of_ne (by simp),
      Function.update_of_ne (by simp [hq'.ne']), hlater q' hq']

/-- A further check of the window counts up where the pointer is. -/
theorem Pointing.script_next (hread : env.ReadFirst) (hserver : env.server ≤ int64Max)
    (h : Pointing maxRequests window env (store.entriesOf digest db)) {e : Entry ν}
    (hfind : find env.server (store.roleKey digest (.fw (windowAt window env.unix))) db = some e) :
    Pointing maxRequests window env
      (store.entriesOf digest (store.checkScript digest maxRequests window env db).2) := by
  obtain ⟨he, hlive⟩ := Option.filter_eq_some_iff.mp hfind
  change store.entriesOf digest db (.fw (windowAt window env.unix)) = some e at he
  cases h with
  | fresh cur counts => exact absurd (he.symm.trans (counts _)) (by simp)
  | @present q c d cur limit count pos le deadline_le started reached later =>
    -- the counter that is there is the one of the pointer
    obtain rfl : q = windowAt window env.unix := by
      refine le_antisymm (le_windowAt hread hserver reached) (not_lt.mp fun hlt => ?_)
      exact absurd (he.symm.trans (later _ hlt)) (by simp)
    obtain rfl := Option.some.inj (he.symm.trans count)
    have hview : intAt env.server (store.roleKey digest (.fw (windowAt window env.unix))) db =
        some ((c : ℤ), some d) := viewAt_some hfind rfl
    obtain ⟨hnext, hfull⟩ := checkScript_next pos hview maxRequests
    rcases le.lt_or_eq with hlt | heq
    · rw [hnext hlt, entriesOf_insert]
      refine .present (q := windowAt window env.unix) (c := c + 1) ?_ ?_ ?_ c.succ_pos (by omega)
        deadline_le started reached ?_
      · rw [Function.update_of_ne (by simp), cur]
      · rw [Function.update_of_ne (by simp), limit]
      · rw [Function.update_self]
      · intro q' hq'
        rw [Function.update_of_ne (by simp [hq'.ne']), later q' hq']
    · obtain ⟨msg, hmsg⟩ := hfull heq
      rw [hmsg]
      exact .present cur limit count pos le deadline_le started reached later

/-- What a check leaves of a pointing key, if the server accepts its deadline. -/
theorem Pointing.script (hread : env.ReadFirst) (hunix : 0 ≤ env.unix)
    (haccepted : env.server + 1000 * luaInt (fixedTtl window) ≤ int64Max)
    (h : Pointing maxRequests window env (store.entriesOf digest db)) :
    Pointing maxRequests window env
      (store.entriesOf digest (store.checkScript digest maxRequests window env db).2) := by
  have httl := luaInt_fixedTtl_pos window
  cases hfind : find env.server (store.roleKey digest (.fw (windowAt window env.unix))) db with
  | none => exact h.script_first hread hunix haccepted hfind
  | some e => exact h.script_next hread (by omega) hfind

end

/-! ## Runs -/

section
variable [F64 ν] {store : RedisStore} {keyDigest : String → String} {key : String}
  {maxRequests window : ℕ} {start : Db ν} {calls : List (RedisCall ν)} {env : RedisEnv}

theorem RedisKeyRun.pointing
    (h : RedisKeyRun store keyDigest key (.fixedWindow · maxRequests window) start calls env)
    (haccepted : ∀ c ∈ calls, keyDigest c.op.key = keyDigest key →
      c.env.server + 1000 * luaInt (fixedTtl window) ≤ int64Max) :
    Pointing maxRequests window env
      (store.entriesOf (keyDigest key) (run (store.serve keyDigest) start calls)) := by
  refine h.inv (P := Pointing maxRequests window) (fun _ _ _ hle hP => hP.mono hle)
    (fun _ => .fresh rfl fun _ => rfl) ?_
  intro env k hc hdigest db hP
  by_cases hunix : 0 ≤ env.unix
  · simp only [serve]
    rw [fixedWindowCheck_eq hunix, hdigest]
    exact withOpTimeout_inv (P := fun db : Db ν =>
      Pointing maxRequests window env (store.entriesOf (keyDigest key) db)) hP
      (hP.script (h.readFirst _ hc) hunix (haccepted _ hc hdigest)) env
  · -- a reading before the epoch is a panic
    simpa only [serve, fixedWindowCheck, sinceEpoch, hunix, if_false] using hP

omit [F64 ν] in
/-- What a check that is answered decides. -/
theorem fixedWindowCheck_answered (henv : env.AnsweredAt store env.server) (hunix : 0 ≤ env.unix)
    (db : Db ν) : (store.fixedWindowCheck keyDigest env key maxRequests window db).1 =
      ((store.checkScript (keyDigest key) maxRequests window env db).1.mapError
        fun msg => .err (.storeError msg)).map (fixedDecision maxRequests) := by
  obtain ⟨took, htook, hanswered⟩ := henv.answered
  rw [fixedWindowCheck_eq hunix]
  simp only
  rw [withOpTimeout_answered hanswered htook]

omit [F64 ν] in
/-- A further check of the window in which the query counts. -/
theorem foretells_next (henv : env.AnsweredAt store env.server) (hunix : 0 ≤ env.unix) {db : Db ν}
    {c : ℕ} {d : Option ℤ} (hpos : 0 < c) (hle : (c : ℤ) ≤ int64Max)
    (hcount : intAt env.server
      (store.roleKey (keyDigest key) (.fw (windowAt window env.unix))) db = some ((c : ℤ), d)) :
    Foretells (maxRequests - c) (store.fixedWindowCheck keyDigest env key maxRequests window db).1 ↔
      CountDecides maxRequests c := by
  obtain ⟨hnext, hfull⟩ := checkScript_next hpos hcount maxRequests
  rw [fixedWindowCheck_answered henv hunix]
  rcases hle.lt_or_eq with hlt | heq
  · rw [hnext hlt, ← fixedDecision_foretells hlt]
    rfl
  · obtain ⟨msg, hmsg⟩ := hfull heq
    rw [hmsg]
    exact iff_of_false (not_foretells_error _) fun hdecides => absurd heq hdecides.lt.ne

omit [F64 ν] in
/-- The first check of a window has the whole limit, and the query has counted. -/
theorem not_foretells_first (henv : env.AnsweredAt store env.server) (hunix : 0 ≤ env.unix)
    {db : Db ν} (hlimit : 1 ≤ maxRequests) {c : ℕ} (hpos : 0 < c)
    (hfind : find env.server
      (store.roleKey (keyDigest key) (.fw (windowAt window env.unix))) db = none) :
    ¬ Foretells (maxRequests - c)
      (store.fixedWindowCheck keyDigest env key maxRequests window db).1 := by
  rw [fixedWindowCheck_answered henv hunix]
  by_cases hvalid : env.server + 1000 * luaInt (fixedTtl window) ≤ int64Max
  · obtain ⟨db', hrun, -⟩ := checkScript_first hfind hvalid maxRequests
    have hone : fixedDecision maxRequests 1 = answerOf maxRequests := fixedDecision_eq _ 1
    rw [hrun]
    show ¬ Foretells (maxRequests - c) (.ok (fixedDecision maxRequests 1))
    rw [hone, foretells_answerOf]
    omega
  · obtain ⟨msg, hmsg⟩ := checkScript_refused hfind (not_le.mp hvalid) maxRequests
    rw [hmsg]
    exact not_foretells_error _

/-- **What a query tells about a fixed window.**  While the companions of a key
    are there, a query foretells the check at the same moment exactly if the
    pointer names the window of the check, and the next count is not rounded
    across the limit. -/
theorem redisFixed_remaining_iff (hpos : 1 ≤ maxRequests) (hlimit : maxRequests ≤ u64Max)
    (h : RedisKeyRun store keyDigest key (.fixedWindow · maxRequests window) start calls env)
    (haccepted : ∀ c ∈ calls, keyDigest c.op.key = keyDigest key →
      c.env.server + 1000 * luaInt (fixedTtl window) ≤ int64Max)
    {query : QueryEnv} (hquery : query.AnsweredAt store env.server)
    (henv : env.AnsweredAt store env.server) {pointer : Entry ν}
    (hpointer : find env.server (store.key ("fwcur:" ++ keyDigest key))
      (run (store.serve keyDigest) start calls) = some pointer) :
    QueryForetells
        (store.remaining keyDigest query key (run (store.serve keyDigest) start calls))
        (store.fixedWindowCheck keyDigest env key maxRequests window) ↔
      pointer.value = .int (windowIdAt window env.unix) ∧
        CountDecides maxRequests (integerAt env.server
          (store.counterKey (keyDigest key) (windowIdAt window env.unix))
          (run (store.serve keyDigest) start calls)) := by
  have hpointing := h.pointing haccepted
  have htb := h.missing (r := .tb) fun env k => by simp [RedisCall.roles]
  have hswmax := h.missing (r := .swmax) fun env k => by simp [RedisCall.roles]
  have hread := h.last_readFirst
  generalize run (store.serve keyDigest) start calls = db at *
  obtain ⟨hstored, hlive⟩ := Option.filter_eq_some_iff.mp hpointer
  cases hpointing with
  | fresh cur counts => exact absurd (hstored.symm.trans cur) (by simp)
  | @present q c d cur limit count pos le deadline_le started reached later =>
    obtain rfl := Option.some.inj (hstored.symm.trans cur)
    have hserver : env.server ≤ d := of_decide_eq_true hlive
    have hview : intAt env.server (store.roleKey (keyDigest key) (.fw q)) db =
        some ((c : ℤ), some d) := viewAt_some (find_of_live count hlive) rfl
    have hremaining : store.remaining keyDigest query key db = (.ok (maxRequests - c), db) := by
      refine remaining_fixed hquery (find_of_missing htb) hlimit ?_ hpointer
        (find_of_live limit hlive) (find_of_missing hswmax) hview
      unfold int64Max at le
      unfold u64Max
      omega
    rw [queryForetells_iff hremaining]
    by_cases hq : q = windowAt window env.unix
    · subst hq
      have hsame : (Value.int ((windowAt window env.unix : ℕ) : ℤ) : Value ν) =
          .int (windowIdAt window env.unix) := rfl
      have hcount : integerAt env.server (store.counterKey (keyDigest key)
          (windowIdAt window env.unix)) db = c := integerAt_eq hview
      rw [hcount, and_iff_right hsame]
      exact foretells_next henv started pos le hview
    · -- the check is the first of its window
      have hlt : q < windowAt window env.unix :=
        lt_of_le_of_ne (le_windowAt hread (hserver.trans deadline_le) reached) hq
      have hother : ¬ (Value.int ((q : ℕ) : ℤ) : Value ν) = .int (windowIdAt window env.unix) :=
        fun hvalue => hq (Fin.ext (Int.ofNat.inj (Value.int.inj hvalue)))
      refine iff_of_false ?_ fun hright => hother hright.1
      exact not_foretells_first henv started hpos pos (find_of_missing (later _ hlt))

end

/-! ## One check -/

/-- A server after the first of two requests in a window of a second. -/
def tenantDb : Db ℚ := run (serve id tenantStore) ∅
  [⟨atMillis 0, .fixedWindow "tenant" 2 (Duration.fromMillis 1000)⟩]

/-- What is stored under the keys of the tenant, until eleven seconds. -/
def tenantEntries : KeyRole → Option (Entry ℚ) :=
  Function.update (Function.update (Function.update (fun _ => none)
    (.fw 0) (some ⟨.int 1, some 11000⟩))
    .fwmax (some ⟨.int 2, some 11000⟩))
    .fwcur (some ⟨.int 0, some 11000⟩)

theorem tenantDb_entries : tenantStore.entriesOf "tenant" tenantDb = tenantEntries := by
  obtain ⟨db', hrun, hes⟩ := @checkScript_first ℚ tenantStore "tenant" (Duration.fromMillis 1000)
    (atMillis 0) ∅ rfl (by decide +kernel) 2
  have hdb : tenantDb = db' := by
    rw [tenantDb, run_cons, run_nil, serve]
    simp only
    rw [fixedWindowCheck_eq (by decide)]
    simp only [id]
    rw [withOpTimeout_executed rfl, hrun]
  have hwindow : windowAt (Duration.fromMillis 1000) (atMillis 0).unix = 0 := Fin.ext rfl
  have hdeadline :
      (atMillis 0).server + 1000 * luaInt (fixedTtl (Duration.fromMillis 1000)) = 11000 := by
    decide +kernel
  have hempty : tenantStore.entriesOf "tenant" (∅ : Db ℚ) = fun _ => none :=
    funext fun _ => AList.lookup_empty _
  rw [hdb, hes, hwindow, hdeadline, hempty]
  rfl

theorem tenantDb_find {ms : ℕ} (h : (ms : ℤ) ≤ 11000) (r : KeyRole) :
    find ms (tenantStore.roleKey "tenant" r) tenantDb = tenantEntries r := by
  have hstored := congrFun tenantDb_entries r
  have hlive : ∀ v : Value ℚ, Entry.live ms ⟨v, some 11000⟩ = true := fun _ =>
    decide_eq_true h
  simp only [tenantEntries, Function.update_apply] at hstored ⊢
  split_ifs at hstored ⊢
  · exact find_of_live hstored (hlive _)
  · exact find_of_live hstored (hlive _)
  · exact find_of_live hstored (hlive _)
  · exact find_of_missing hstored

/-- Half a second after the check: one request is left. -/
theorem redisFixed_remaining_half :
    QueryForetells (tenantStore.remaining id (queryAt 500) "tenant" tenantDb)
      (tenantStore.fixedWindowCheck id (atMillis 500) "tenant" 2 (Duration.fromMillis 1000)) := by
  have hpointer : find (500 : ℕ) (tenantStore.key ("fwcur:" ++ "tenant")) tenantDb =
      some ⟨.int 0, some 11000⟩ := tenantDb_find (by decide) .fwcur
  have hcount : integerAt (500 : ℕ) (tenantStore.counterKey "tenant" 0) tenantDb = 1 :=
    integerAt_eq (viewAt_some (tenantDb_find (by decide) (.fw 0)) rfl)
  have haccepted : ∀ c ∈ [(⟨atMillis 0, .fixedWindow "tenant" 2 (Duration.fromMillis 1000)⟩ :
      RedisCall ℚ)], id c.op.key = id "tenant" →
        c.env.server + 1000 * luaInt (fixedTtl (Duration.fromMillis 1000)) ≤ int64Max := by
    rintro c hc -
    obtain rfl := List.mem_singleton.mp hc
    decide +kernel
  have hrun := singleCheck_keyRun (.fixedWindow · 2 (Duration.fromMillis 1000)) rfl rfl 500
  exact (redisFixed_remaining_iff (by decide) (by decide) hrun haccepted
    (queryAt_answered tenantStore 500) (atMillis_answered tenantStore 500) hpointer).mpr
      ⟨rfl, hcount ▸ countDecides_of_lt (by decide) (by decide) (by decide)⟩

/-- In the next window the query still finds one request left, and the check is
    admitted with one left after it. -/
theorem redisFixed_remaining_stale :
    ¬ QueryForetells (tenantStore.remaining id (queryAt 1000) "tenant" tenantDb)
      (tenantStore.fixedWindowCheck id (atMillis 1000) "tenant" 2 (Duration.fromMillis 1000)) := by
  have hfound : ∀ r, find (1000 : ℕ) (tenantStore.roleKey "tenant" r) tenantDb = tenantEntries r :=
    tenantDb_find (by decide)
  have hcur : find (1000 : ℕ) (tenantStore.roleKey "tenant" .fwcur) tenantDb =
      some ⟨.int ((0 : Fin (2 ^ 64)) : ℕ), some 11000⟩ := hfound .fwcur
  have hmax : find (1000 : ℕ) (tenantStore.roleKey "tenant" .fwmax) tenantDb =
      some ⟨.int (2 : ℕ), some 11000⟩ := hfound .fwmax
  have hcount : intAt (1000 : ℕ) (tenantStore.roleKey "tenant" (.fw 0)) tenantDb =
      some (((1 : ℕ) : ℤ), some 11000) := viewAt_some (hfound (.fw 0)) rfl
  have hremaining : tenantStore.remaining id (queryAt 1000) "tenant" tenantDb =
      (.ok (2 - 1), tenantDb) :=
    @remaining_fixed ℚ tenantStore id (queryAt 1000) "tenant" tenantDb (1000 : ℕ) 2 _
      (queryAt_answered tenantStore 1000) (hfound .tb) 0 1 _ _ _ (by decide) (by decide) hcur hmax
      (hfound .swmax) hcount
  obtain ⟨db', hrun, -⟩ := @checkScript_first ℚ tenantStore "tenant" (Duration.fromMillis 1000)
    (atMillis 1000) tenantDb (hfound (.fw 1)) (by decide +kernel) 2
  rw [queryForetells_iff hremaining, fixedWindowCheck_answered (atMillis_answered _ _) (by decide),
    id, hrun]
  show ¬ Foretells 1 (.ok (answerOf 2))
  rw [foretells_answerOf]
  decide

end ArmatureRatelimit
