/-
  `remaining` of the Redis store (`stores/redis.rs`), and what it tells about
  the next check.

  A query writes nothing (`remaining_snd`).  Of a key that has no token bucket
  it reports what is left of the limit that `fwmax` holds, after the count of
  the window that `fwcur` names (`remaining_fixed`), or of the limit that
  `swmax` holds, after the members of the sorted set (`remaining_sliding`).  The
  keys of one digest along a run are described by what the checks of the key do
  to them (`RedisKeyRun.inv`).
-/
import ArmatureRatelimit.Proof.Forecast
import ArmatureRatelimit.Proof.KeyNames

open Lib Lib.Redis

namespace ArmatureRatelimit

variable {ν : Type}

/-! ## Forecasts -/

theorem not_foretells_error {n : ℕ} (e : Failure) : ¬ Foretells n (.error e) := by
  rintro ⟨_, _, heq, -⟩
  cases heq

/-- The answer of a query tells what a check decides after it. -/
def QueryForetells (query : Outcome ℕ × Db ν) (check : Db ν → Outcome (Bool × ℕ) × Db ν) : Prop :=
  ∃ n, query.1 = .ok n ∧ Foretells n (check query.2).1

theorem queryForetells_iff {query : Outcome ℕ × Db ν}
    {check : Db ν → Outcome (Bool × ℕ) × Db ν} {n : ℕ} {db : Db ν} (h : query = (.ok n, db)) :
    QueryForetells query check ↔ Foretells n (check db).1 := by
  rw [h]
  constructor
  · rintro ⟨m, hm, hforetells⟩
    obtain rfl := Except.ok.inj hm
    exact hforetells
  · exact fun hforetells => ⟨n, rfl, hforetells⟩

/-! ## Queries -/

/-- The operation executes at `server` and is answered in time. -/
structure RedisEnv.AnsweredAt (store : RedisStore) (server : ℤ) (env : RedisEnv) : Prop where
  server_eq : env.server = server
  answered : ∃ took ≤ store.operationTimeout, env.delivery = .answered took

/-- All operations of a query execute at `server` and are answered in time. -/
structure QueryEnv.AnsweredAt (store : RedisStore) (server : ℤ) (env : QueryEnv) : Prop where
  probe : env.probe.AnsweredAt store server
  companions : env.companions.AnsweredAt store server
  count : env.count.AnsweredAt store server

namespace RedisStore

theorem withOpTimeout_reads {α : Type} {x : Script ν α} (hx : Script.Reads x) (store : RedisStore)
    (env : RedisEnv) (db : Db ν) : (store.withOpTimeout env x db).2 = db :=
  withOpTimeout_inv (P := fun db' : Db ν => db' = db) rfl (hx db) env

theorem companionQuery_reads (reader : ReplyReader) (server : ℤ) (fwcur fwmax swmax : String) :
    Script.Reads (companionQuery reader server fwcur fwmax swmax : Script ν _) := by
  unfold companionQuery
  refine .bind (mget_reads _) fun reply => ?_
  refine .bind (.ofExcept _) fun _ => ?_
  refine .bind (.ofExcept _) fun _ => ?_
  exact .bind (.ofExcept _) fun _ => .pure _

theorem counterQuery_reads (reader : ReplyReader) (server : ℤ) (key : String) :
    Script.Reads (counterQuery reader server key : Script ν _) :=
  .bind get_reads fun _ => .ofExcept _

/-- **A query leaves the keys as they are.** -/
theorem remaining_snd [F64 ν] (store : RedisStore) (keyDigest : String → String) (env : QueryEnv)
    (key : String) (db : Db ν) : (store.remaining keyDigest env key db).2 = db := by
  have hreads : ∀ {α : Type} {x : Script ν α} {env : RedisEnv} {o : Outcome α} {db db' : Db ν},
      Script.Reads x → store.withOpTimeout env x db = (o, db') → db' = db :=
    fun hx hr => (congrArg Prod.snd hr).symm.trans (withOpTimeout_reads hx store _ _)
  unfold remaining
  simp only
  split
  · rename_i hprobe
    exact hreads (hget_reads _) hprobe
  · rename_i hprobe
    exact hreads (hget_reads _) hprobe
  · rename_i hprobe
    obtain rfl := hreads (hget_reads _) hprobe
    split
    · rename_i hcompanions
      exact hreads (companionQuery_reads _ _ _ _ _) hcompanions
    · rename_i hcompanions
      obtain rfl := hreads (companionQuery_reads _ _ _ _ _) hcompanions
      split <;> rename_i hcount <;> exact hreads (counterQuery_reads _ _ _) hcount
    · rename_i hcompanions
      obtain rfl := hreads (companionQuery_reads _ _ _ _ _) hcompanions
      split <;> rename_i hcount <;> exact hreads zcard_reads hcount
    · rename_i hcompanions
      exact hreads (companionQuery_reads _ _ _ _ _) hcompanions

/-! ### What is reported -/

theorem withOpTimeout_eq {α : Type} {store : RedisStore} {server : ℤ} {env : RedisEnv}
    (henv : env.AnsweredAt store server) {x : Script ν α} {db db' : Db ν} {a : α}
    (hx : x db = (.ok a, db')) : store.withOpTimeout env x db = (.ok a, db') := by
  obtain ⟨took, htook, hanswered⟩ := henv.answered
  simp only [withOpTimeout, hanswered, htook, if_true, hx]

theorem optionU64_decimal (reader : ReplyReader) {n : ℕ} (h : n ≤ u64Max) :
    optionU64 reader (some (.decimal n)) = .ok (some n) := by
  simp only [optionU64, readText, Int.toNat_natCast]
  rw [if_pos ⟨Int.natCast_nonneg n, by exact_mod_cast h⟩]

section
variable {reader : ReplyReader} {server : ℤ} {db : Db ν}

/-- The string under a key, as a `u64`. -/
def pointerAt (reader : ReplyReader) (server : ℤ) (key : String) (db : Db ν) :
    Except String (Option ℕ) :=
  optionU64 reader ((find server key db).bind fun e => e.value.asText)

theorem pointerAt_missing (reader : ReplyReader) {key : String} (h : find server key db = none) :
    pointerAt reader server key db = .ok none := by
  rw [pointerAt, h]
  rfl

theorem pointerAt_int {key : String} {n : ℕ} {d : Option ℤ} (hn : n ≤ u64Max)
    (h : find server key db = some ⟨.int n, d⟩) :
    pointerAt reader server key db = .ok (some n) := by
  rw [pointerAt, h]
  exact optionU64_decimal reader hn

theorem companionQuery_eq {fwcur fwmax swmax : String} {windowId fixedMax : Option ℕ}
    (hcur : pointerAt reader server fwcur db = .ok windowId)
    (hmax : pointerAt reader server fwmax db = .ok fixedMax) :
    companionQuery reader server fwcur fwmax swmax db =
      ((pointerAt reader server swmax db).map fun slidingMax => (windowId, fixedMax, slidingMax),
        db) := by
  have hread : ∀ {key : String} {r : Except String (Option ℕ)},
      pointerAt reader server key db = r →
        (Script.ofExcept (pointerAt reader server key db) : Script ν _) db = (r, db) :=
    fun h => congrArg (fun x => (x, db)) h
  unfold companionQuery
  rw [Script.bind_ok (x := mget server _) rfl]
  refine (Script.bind_ok (hread hcur) _).trans ((Script.bind_ok (hread hmax) _).trans ?_)
  cases hswmax : pointerAt reader server swmax db with
  | ok slidingMax => exact Script.bind_ok (hread hswmax) _
  | error msg => exact Script.bind_error (hread hswmax) _

theorem counterQuery_ok (reader : ReplyReader) {key : String} {c : ℕ} {d : Option ℤ}
    (hc : c ≤ u64Max) (h : intAt server key db = some ((c : ℤ), d)) :
    ∃ count, counterQuery reader server key db = (.ok count, db) ∧ count.getD 0 = c := by
  unfold counterQuery
  rcases get_intAt h with ⟨hzero, hget⟩ | hget
  · rw [Script.bind_ok hget]
    exact ⟨none, rfl, by exact_mod_cast hzero.symm⟩
  · rw [Script.bind_ok hget]
    exact ⟨some c, congrArg (fun x => (x, db)) (optionU64_decimal reader hc), rfl⟩

end

section
variable {store : RedisStore} {keyDigest : String → String} {env : QueryEnv} {key : String}
  {db : Db ν} {server : ℤ} {limit : ℕ}

/-- The companion pointers are read after a probe that finds no bucket. -/
theorem probe_missing (henv : env.AnsweredAt store server)
    (htb : find server (store.roleKey (keyDigest key) .tb) db = none) :
    store.withOpTimeout env.probe
        (hget env.probe.server (store.key ("tb:" ++ keyDigest key)) "tokens") db =
      (.ok none, db) := by
  refine withOpTimeout_eq henv.probe ?_
  rw [henv.probe.server_eq]
  exact hget_hashAt (viewAt_none htb) "tokens"

theorem companions_read (henv : env.AnsweredAt store server) {windowId fixedMax : Option ℕ}
    (hcur : pointerAt env.reader server (store.roleKey (keyDigest key) .fwcur) db = .ok windowId)
    (hmax : pointerAt env.reader server (store.roleKey (keyDigest key) .fwmax) db = .ok fixedMax) :
    store.withOpTimeout env.companions (companionQuery env.reader env.companions.server
      (store.key ("fwcur:" ++ keyDigest key)) (store.key ("fwmax:" ++ keyDigest key))
      (store.key ("swmax:" ++ keyDigest key))) db =
        (((pointerAt env.reader server (store.roleKey (keyDigest key) .swmax) db).map
          fun slidingMax => (windowId, fixedMax, slidingMax)).mapError
            fun msg => .err (.storeError msg), db) := by
  obtain ⟨took, htook, hanswered⟩ := henv.companions.answered
  refine Prod.ext ?_ ?_
  · rw [withOpTimeout_answered hanswered htook, henv.companions.server_eq]
    exact congrArg (fun r => r.1.mapError fun msg => Failure.err (.storeError msg))
      (companionQuery_eq hcur hmax)
  · exact withOpTimeout_reads (companionQuery_reads _ _ _ _ _) store _ db

variable [F64 ν]

/-- A key with fixed windows. -/
theorem remaining_fixed (henv : env.AnsweredAt store server)
    (htb : find server (store.roleKey (keyDigest key) .tb) db = none) {q : Fin (2 ^ 64)} {c : ℕ}
    {d d' d'' : Option ℤ} (hlimit : limit ≤ u64Max) (hc : c ≤ u64Max)
    (hcur : find server (store.roleKey (keyDigest key) .fwcur) db = some ⟨.int (q : ℕ), d⟩)
    (hmax : find server (store.roleKey (keyDigest key) .fwmax) db = some ⟨.int limit, d'⟩)
    (hswmax : find server (store.roleKey (keyDigest key) .swmax) db = none)
    (hcount : intAt server (store.roleKey (keyDigest key) (.fw q)) db = some ((c : ℤ), d'')) :
    store.remaining keyDigest env key db = (.ok (limit - c), db) := by
  have hq : (q : ℕ) ≤ u64Max := Nat.le_pred_of_lt q.isLt
  obtain ⟨count, hquery, hvalue⟩ := counterQuery_ok env.reader hc hcount
  have hcounter : store.withOpTimeout env.count (counterQuery env.reader env.count.server
      (store.key ("fw:" ++ keyDigest key ++ ":" ++ toString (q : ℕ)))) db = (.ok count, db) := by
    refine withOpTimeout_eq henv.count ?_
    rw [henv.count.server_eq]
    exact hquery
  unfold remaining
  simp only
  rw [probe_missing henv htb]
  simp only
  rw [companions_read henv (pointerAt_int hq hcur) (pointerAt_int hlimit hmax),
    pointerAt_missing env.reader hswmax]
  simp only [Except.map, Except.mapError]
  rw [hcounter]
  simp only [hvalue]

/-- A key with a sliding window: what the string of its limit denotes, less the
    members. -/
theorem remaining_sliding (henv : env.AnsweredAt store server)
    (htb : find server (store.roleKey (keyDigest key) .tb) db = none) {z : KeyMap String ℤ}
    {d : Option ℤ} (hsize : z.size ≤ u64Max)
    (hcur : find server (store.roleKey (keyDigest key) .fwcur) db = none)
    (hmax : find server (store.roleKey (keyDigest key) .fwmax) db = none)
    (hz : zsetAt server (store.roleKey (keyDigest key) .sw) db = some (z, d)) :
    (∀ limit, pointerAt env.reader server (store.roleKey (keyDigest key) .swmax) db =
        .ok (some limit) → store.remaining keyDigest env key db = (.ok (limit - z.size), db)) ∧
      ∀ msg, pointerAt env.reader server (store.roleKey (keyDigest key) .swmax) db = .error msg →
        store.remaining keyDigest env key db = (.error (.err (.storeError msg)), db) := by
  have hcounted : asU64 (z.size : ℤ) = z.size := by
    unfold u64Max at hsize
    exact asU64_of_lt (by omega)
  have hcount : store.withOpTimeout env.count (zcard env.count.server
      (store.key ("sw:" ++ keyDigest key))) db = (.ok z.size, db) := by
    refine withOpTimeout_eq henv.count ?_
    rw [henv.count.server_eq]
    exact zcard_zsetAt hz
  have hcompanions := companions_read henv
    (pointerAt_missing env.reader hcur) (pointerAt_missing env.reader hmax)
  unfold remaining
  simp only
  rw [probe_missing henv htb]
  constructor
  · intro limit hlimit
    simp only
    rw [hcompanions, hlimit]
    simp only [Except.map, Except.mapError]
    rw [hcount]
    simp only [hcounted]
  · intro msg hmsg
    simp only
    rw [hcompanions, hmsg]
    simp only [Except.map, Except.mapError]

end

end RedisStore

/-! ## The keys of a digest along a run -/

/-- The entries of a digest. -/
def RedisStore.entriesOf (store : RedisStore) (digest : String) (db : Db ν) :
    KeyRole → Option (Entry ν) := fun r => db.lookup (store.roleKey digest r)

section
variable {store : RedisStore} {digest : String} {db : Db ν} {r : KeyRole} {server : ℤ}

theorem find_of_missing (h : store.entriesOf digest db r = none) :
    find server (store.roleKey digest r) db = none := congrArg (Option.filter _) h

theorem find_of_live {e : Entry ν} (h : store.entriesOf digest db r = some e)
    (hlive : e.live server = true) : find server (store.roleKey digest r) db = some e :=
  (congrArg (Option.filter _) h).trans (Option.filter_some.trans (if_pos hlive))

end

/-- Neither clock has run back. -/
structure RedisEnv.Before (env env' : RedisEnv) : Prop where
  unix : env.unix ≤ env'.unix
  server : env.server ≤ env'.server

/-- The server executes after the caller has read the clock, which both share. -/
def RedisEnv.ReadFirst (env : RedisEnv) : Prop := env.unix / 1000000 ≤ env.server

/-- Calls by any number of instances, in the order in which the server executes
    them, until a last moment.  The keys of one digest are missing at first, and
    the calls with that digest are checks of one kind; there are no resets. -/
structure RedisKeyRun (store : RedisStore) (keyDigest : String → String) (key : String)
    (check : String → RedisOp ν) (start : Db ν) (calls : List (RedisCall ν)) (last : RedisEnv) :
    Prop where
  fresh : ∀ r, store.entriesOf (keyDigest key) start r = none
  noReset : ∀ c ∈ calls, c.op.isReset = false
  only : ∀ c ∈ calls, keyDigest c.op.key = keyDigest key → c.op = check c.op.key
  inTurn : calls.Pairwise fun c c' => c.env.Before c'.env
  notAfter : ∀ c ∈ calls, c.env.Before last
  readFirst : ∀ c ∈ calls, c.env.ReadFirst
  last_readFirst : last.ReadFirst

section
variable [F64 ν] {store : RedisStore} {keyDigest : String → String} {key : String}
  {check : String → RedisOp ν} {start : Db ν} {calls : List (RedisCall ν)} {last : RedisEnv}

/-- A call with another digest leaves the entries as they are. -/
theorem entriesOf_serve_other {digest : String} {c : RedisCall ν} (hreset : c.op.isReset = false)
    (hother : keyDigest c.op.key ≠ digest) (db : Db ν) :
    store.entriesOf digest (store.serve keyDigest c db).2 = store.entriesOf digest db := by
  funext r
  refine RedisStore.serve_leaves hreset ?_ db
  intro hname
  obtain ⟨r', -, heq⟩ := List.mem_map.mp hname
  exact hother (RedisStore.roleKey_digest_inj heq).1

/-- A check of the digest leaves the entries in other roles as they are. -/
theorem entriesOf_serve_role {digest : String} {c : RedisCall ν} (hreset : c.op.isReset = false)
    {r : KeyRole} (hrole : r ∉ c.roles) (db : Db ν) :
    store.entriesOf digest (store.serve keyDigest c db).2 r = store.entriesOf digest db r := by
  refine RedisStore.serve_leaves hreset ?_ db
  intro hname
  obtain ⟨r', hr', heq⟩ := List.mem_map.mp hname
  exact hrole ((RedisStore.roleKey_digest_inj heq).2 ▸ hr')

/-- **The rule for one digest.**  What holds of missing entries, is kept as time
    passes, and is preserved by the checks of the key, holds at the end. -/
theorem RedisKeyRun.inv (h : RedisKeyRun store keyDigest key check start calls last)
    {P : RedisEnv → (KeyRole → Option (Entry ν)) → Prop}
    (hmono : ∀ env env' es, env.Before env' → P env es → P env' es)
    (h0 : ∀ env, P env fun _ => none)
    (hcheck : ∀ env k, ⟨env, check k⟩ ∈ calls → keyDigest k = keyDigest key → ∀ db,
      P env (store.entriesOf (keyDigest key) db) →
      P env (store.entriesOf (keyDigest key) (store.serve keyDigest ⟨env, check k⟩ db).2)) :
    P last (store.entriesOf (keyDigest key) (run (store.serve keyDigest) start calls)) := by
  obtain ⟨hfresh, hreset, honly, hturn, hlast, -, -⟩ := h
  induction calls using List.reverseRecOn generalizing last with
  | nil =>
    have hnone : store.entriesOf (keyDigest key) start = fun _ => none := funext hfresh
    rw [run_nil, hnone]
    exact h0 last
  | append_singleton calls c ih =>
    obtain ⟨hbefore, -, hthen⟩ := List.pairwise_append.mp hturn
    have hprev := @ih c.env (fun env k hc' => hcheck env k (List.mem_append_left _ hc'))
      (fun c' hc' => hreset c' (by simp [hc'])) (fun c' hc' => honly c' (by simp [hc'])) hbefore
      fun c' hc' => hthen c' hc' c (by simp)
    refine hmono c.env last _ (hlast c (by simp)) ?_
    rw [run_append, run_cons, run_nil]
    by_cases hkey : keyDigest c.op.key = keyDigest key
    · have hc : c = ⟨c.env, check c.op.key⟩ := by rw [← honly c (by simp) hkey]
      rw [hc]
      exact hcheck c.env c.op.key (hc ▸ by simp) hkey _ hprev
    · rw [entriesOf_serve_other (hreset c (by simp)) hkey]
      exact hprev

/-- An entry in a role that the checks of the key do not have stays missing. -/
theorem RedisKeyRun.missing (h : RedisKeyRun store keyDigest key check start calls last)
    {r : KeyRole} (hrole : ∀ env k, r ∉ (⟨env, check k⟩ : RedisCall ν).roles) :
    store.entriesOf (keyDigest key) (run (store.serve keyDigest) start calls) r = none := by
  refine h.inv (P := fun _ es => es r = none) (fun _ _ _ _ hP => hP) (fun _ => rfl) ?_
  intro env k hc _ db hP
  exact (entriesOf_serve_role (h.noReset _ hc) (hrole env k) db).trans hP

end

/-! ## A single check -/

/-- A moment at a whole number of milliseconds on both clocks, answered at once. -/
def atMillis (ms : ℕ) : RedisEnv := ⟨Duration.fromMillis ms, ms, .answered 0⟩

theorem atMillis_answered (store : RedisStore) (ms : ℕ) : (atMillis ms).AnsweredAt store ms :=
  ⟨rfl, 0, Nat.zero_le _, rfl⟩

/-- A client to which a large number of a script is no integer. -/
def plainReader : ReplyReader := ⟨"Response was of incompatible type", fun _ => none⟩

def queryAt (ms : ℕ) : QueryEnv := ⟨atMillis ms, atMillis ms, atMillis ms, plainReader⟩

theorem queryAt_answered (store : RedisStore) (ms : ℕ) : (queryAt ms).AnsweredAt store ms :=
  ⟨atMillis_answered store ms, atMillis_answered store ms, atMillis_answered store ms⟩

def tenantStore : RedisStore := ⟨"ratelimit", RedisStore.defaultOperationTimeout⟩

/-- A single check of the key `tenant` at the epoch. -/
theorem singleCheck_keyRun (check : String → RedisOp ℚ) (hkey : (check "tenant").key = "tenant")
    (hreset : (check "tenant").isReset = false) (ms : ℕ) :
    RedisKeyRun tenantStore id "tenant" check ∅ [⟨atMillis 0, check "tenant"⟩] (atMillis ms) where
  fresh _ := rfl
  noReset c hc := by
    obtain rfl := List.mem_singleton.mp hc
    exact hreset
  only c hc _ := by
    obtain rfl := List.mem_singleton.mp hc
    rw [hkey]
  inTurn := List.pairwise_singleton _ _
  notAfter c hc := by
    obtain rfl := List.mem_singleton.mp hc
    exact ⟨Int.natCast_nonneg _, Int.natCast_nonneg _⟩
  readFirst c hc := by
    obtain rfl := List.mem_singleton.mp hc
    exact le_rfl
  last_readFirst := by
    simp only [RedisEnv.ReadFirst, atMillis, Duration.fromMillis]
    omega

end ArmatureRatelimit
