/-
  The fixed window of the Redis store under skewed clocks (`stores/redis.rs`).

  An instance names the window of a request by its own clock, so at a boundary a
  fleet counts in two windows at once, and the counter of a window is created and
  expires by the server's clock.  Its deadline lies ten seconds after the end of
  the window or more, which covers both clocks as long as they are within five
  seconds of the server's: no request of a window comes after its counter has
  expired (`CounterFleet.counted`).
-/
import ArmatureRatelimit.Proof.TenantFleet
import ArmatureRatelimit.Lib.Counting

open Lib Lib.Redis

namespace ArmatureRatelimit

open RedisStore

/-! ## One check -/

/-- A check leaves the keys as they were and is not admitted, or as its script
    does, and is admitted only if the count keeps to the limit. -/
theorem fixedWindowCheck_executes {ν : Type} (store : RedisStore) (keyDigest : String → String)
    (env : RedisEnv) (key : String) (maxRequests window : ℕ) (db : Db ν) :
    let r := store.fixedWindowCheck keyDigest env key maxRequests window db
    let x := store.checkScript (keyDigest key) maxRequests window env db
    r.2 = db ∧ isAdmitted r.1 = false ∨
      r.2 = x.2 ∧ (isAdmitted r.1 = true → ∃ n, x.1 = .ok n ∧ asU64 n ≤ maxRequests) := by
  by_cases hunix : 0 ≤ env.unix
  · rw [fixedWindowCheck_eq hunix]
    refine (withOpTimeout_executes store env _ (fixedDecision maxRequests) db).imp_right ?_
    rintro ⟨hstate, hadm⟩
    refine ⟨hstate, fun h => ?_⟩
    obtain ⟨n, hn, hallowed⟩ := hadm h
    refine ⟨n, hn, ?_⟩
    by_contra hno
    rw [fixedDecision, if_neg hno] at hallowed
    cases hallowed
  · simp only [fixedWindowCheck, sinceEpoch, hunix, if_false]
    exact .inl ⟨trivial, rfl⟩

/-! ## One counter -/

section
variable {ν : Type} {last : ℤ} {c : ℕ}

/-- A counter that has admitted `c` requests: it is there until `last` at least,
    if not for good, and has counted them all. -/
inductive CountsAdmitted (last : ℤ) (c : ℕ) : Option (Entry ν) → Prop
  | missing (none_yet : c = 0) : CountsAdmitted last c none
  | present (count : ℕ) {deadline : Option ℤ} (counted : c ≤ count) (pos : 0 < count)
      (inRange : (count : ℤ) ≤ int64Max) (keeps : ∀ t ∈ deadline, last ≤ t) :
      CountsAdmitted last c (some ⟨.int count, deadline⟩)

variable {server ttl : ℤ} {key fwmax fwcur : String} {maxRequests : ℕ} {db : Db ν}

/-- What an execution owes the counter: it goes on, whatever becomes of the call,
    and a count within the limit is one of at most that many. -/
structure CountsOn (last : ℤ) (c : ℕ) (key : String) (maxRequests : ℕ)
    (x : Except String ℤ × Db ν) : Prop where
  kept : CountsAdmitted last c (x.2.lookup key)
  next : ∀ n, x.1 = .ok n → CountsAdmitted last (c + 1) (x.2.lookup key)
  within : ∀ n, x.1 = .ok n → asU64 n ≤ maxRequests → c + 1 ≤ maxRequests

theorem countsOn_error (h : CountsAdmitted last c (db.lookup key)) (msg : String) :
    CountsOn last c key maxRequests (.error msg, db) := by
  refine ⟨h, ?_, ?_⟩
  · intro n hn
    cases hn
  · intro n hn
    cases hn

/-- The first execution, with a deadline that the server accepts or refuses. -/
theorem countsOn_first (hmissing : db.lookup key = none) (hmax : key ≠ fwmax) (hcur : key ≠ fwcur)
    (httl : 0 < luaInt ttl) (hlast : last ≤ server + 1000 * luaInt ttl) (windowId : ℤ) :
    CountsOn last 0 key maxRequests
      (fixedWindowScript server key fwmax fwcur maxRequests windowId ttl db) := by
  have hfind : find server key db = none := by rw [find, hmissing]; rfl
  by_cases hvalid : server + 1000 * luaInt ttl ≤ int64Max
  · have hkeeps : ∀ t ∈ some (server + 1000 * luaInt ttl), last ≤ t := by
      rintro t ht
      rwa [← Option.some.inj ht]
    have hlookup : (fixedWindowScript server key fwmax fwcur maxRequests windowId ttl db).2.lookup
        key = some ⟨.int 1, some (server + 1000 * luaInt ttl)⟩ := by
      rw [fixedWindowScript_first hfind httl hvalid, AList.lookup_insert_ne hcur,
        AList.lookup_insert_ne hmax, AList.lookup_insert]
    constructor
    · rw [hlookup]
      exact .present 1 (Nat.zero_le _) one_pos (by decide) hkeeps
    · intro n _
      rw [hlookup]
      exact .present 1 le_rfl one_pos (by decide) hkeeps
    · intro n hn hle
      rw [fixedWindowScript_first hfind httl hvalid] at hn
      obtain rfl := Except.ok.inj hn
      exact hle
  · obtain ⟨msg, hmsg⟩ := fixedWindowScript_refused_eq fwmax fwcur hfind (not_le.mp hvalid)
      maxRequests windowId
    rw [hmsg]
    refine countsOn_error ?_ msg
    rw [AList.lookup_insert]
    refine .present 1 (Nat.zero_le _) one_pos (by decide) ?_
    rintro t ht
    cases ht

/-- A later execution, which fails once the count is at its largest. -/
theorem countsOn_next {count : ℕ} {deadline : Option ℤ}
    (hentry : db.lookup key = some ⟨.int count, deadline⟩)
    (hview : intAt server key db = some ((count : ℤ), deadline)) (counted : c ≤ count)
    (pos : 0 < count) (inRange : (count : ℤ) ≤ int64Max) (keeps : ∀ t ∈ deadline, last ≤ t)
    (hlimit : maxRequests < 2 ^ 53) (windowId : ℤ) :
    CountsOn last c key maxRequests
      (fixedWindowScript server key fwmax fwcur maxRequests windowId ttl db) := by
  by_cases hover : (count : ℤ) < int64Max
  · rw [fixedWindowScript_next pos hover hview]
    have hnext : ((count + 1 : ℕ) : ℤ) ≤ int64Max := by push_cast; omega
    constructor
    · rw [AList.lookup_insert]
      exact .present (count + 1) (by omega) (Nat.succ_pos _) hnext keeps
    · intro n _
      rw [AList.lookup_insert]
      exact .present (count + 1) (by omega) (Nat.succ_pos _) hnext keeps
    · intro n hn hle
      obtain rfl := Except.ok.inj hn
      have := (luaInt_decides hlimit hnext).1.mp hle
      omega
  · obtain ⟨msg, hmsg⟩ := incr_overflow
      (hview.trans (by rw [le_antisymm inRange (not_lt.mp hover)]))
    have hscript : fixedWindowScript server key fwmax fwcur maxRequests windowId ttl db =
        (.error msg, db) := Script.bind_error hmsg _
    rw [hscript]
    refine countsOn_error ?_ msg
    rw [hentry]
    exact .present count counted pos inRange keeps

/-- **One execution.** -/
theorem CountsAdmitted.script (h : CountsAdmitted last c (db.lookup key)) (hmax : key ≠ fwmax)
    (hcur : key ≠ fwcur) (hserver : server ≤ last) (httl : 0 < luaInt ttl)
    (hlast : last ≤ server + 1000 * luaInt ttl) (hlimit : maxRequests < 2 ^ 53) (windowId : ℤ) :
    CountsOn last c key maxRequests
      (fixedWindowScript server key fwmax fwcur maxRequests windowId ttl db) := by
  generalize he : db.lookup key = e at h
  cases h with
  | missing none_yet =>
    subst none_yet
    exact countsOn_first he hmax hcur httl hlast windowId
  | present count counted pos inRange keeps =>
    rename_i deadline
    have hlive : find server key db = some ⟨.int count, deadline⟩ := by
      rw [find, he, Option.filter_some, if_pos]
      rw [Entry.live]
      cases deadline with
      | none => rfl
      | some t => exact decide_eq_true (hserver.trans (keeps t rfl))
    exact countsOn_next he (viewAt_some hlive rfl) counted pos inRange keeps hlimit windowId

end

/-! ## Windows -/

/-- The last moment at which a request of a window may come, by the server. -/
def lastArrival (window skew q : ℕ) : ℤ := ((q : ℤ) + 1) * windowMillis window + 10000 - skew

/-- A reading lies in its window. -/
theorem windowIdAt_bounds (window : ℕ) {unix : ℤ} (h : Duration.asMillis unix.toNat < 2 ^ 64) :
    windowIdAt window unix * windowMillis window ≤ Duration.asMillis unix.toNat ∧
      Duration.asMillis unix.toNat < (windowIdAt window unix + 1) * windowMillis window := by
  have hpos : 0 < windowMillis window := lt_max_of_lt_right one_pos
  have hread : asU64 (Duration.asMillis unix.toNat) = Duration.asMillis unix.toNat :=
    asU64_of_lt (by exact_mod_cast h)
  rw [windowIdAt, hread]
  refine ⟨Nat.div_mul_le_self _ _, ?_⟩
  rw [add_mul, one_mul]
  exact Nat.lt_div_mul_add hpos

/-- A request comes before that, and a counter that it creates stays until then. -/
theorem lastArrival_covers {window : ℕ} (hwindow : Duration.asMillis window < 2 ^ 62) {skew : ℕ}
    {env : RedisEnv} (hslack : skew ≤ 5000) (hread : Duration.asMillis env.unix.toNat < 2 ^ 64)
    (hnear : |(Duration.asMillis env.unix.toNat : ℤ) - env.server| ≤ skew) :
    env.server ≤ lastArrival window skew (windowIdAt window env.unix) ∧
      lastArrival window skew (windowIdAt window env.unix) ≤
        env.server + 1000 * luaInt (fixedTtl window) := by
  obtain ⟨hlow, hhigh⟩ := windowIdAt_bounds window hread
  rw [abs_le] at hnear
  rw [luaInt_fixedTtl hwindow]
  unfold lastArrival fixedTtl
  generalize windowIdAt window env.unix = q at hlow hhigh
  generalize windowMillis window = windowMs at hlow hhigh ⊢
  zify at hlow hhigh
  rw [add_mul, one_mul] at hhigh ⊢
  omega

/-! ## Fleets -/

/-- A fleet whose tenant is checked by a fixed window. -/
structure CounterFleet (ν : Type) extends TenantFleet ν where
  maxRequests : ℕ
  window : ℕ
  isCounter : algorithm = .fixedWindow maxRequests window
  maxRequests_lt : maxRequests < 2 ^ 53
  window_lt : Duration.asMillis window < 2 ^ 62

namespace CounterFleet

open TenantFleet

variable {ν : Type} [F64 ν]

section
variable (F : CounterFleet ν)

/-- The id of the window in which check `n` counts. -/
def idAt (n : ℕ) : ℕ := ((F.requestAt n).map fun env => windowIdAt F.window env.unix).getD 0

/-- The counter of a window. -/
def counter (q : Fin (2 ^ 64)) : String := F.name (.fw q)

/-- How many of the first `n` calls are admitted in a window. -/
def admittedIn (q n : ℕ) : ℕ :=
  ((Finset.range n).filter fun i => F.admits i = true ∧ F.idAt i = q).card

end

variable {F : CounterFleet ν} {skew : ℕ}

omit [F64 ν] in
theorem idAt_eq {n : ℕ} {env : RedisEnv} (hq : F.requestAt n = some env) :
    F.idAt n = windowIdAt F.window env.unix := by
  rw [idAt, hq, Option.map_some, Option.getD_some]

theorem admittedIn_succ (F : CounterFleet ν) (q n : ℕ) :
    F.admittedIn q (n + 1) =
      if F.admits n = true ∧ F.idAt n = q then F.admittedIn q n + 1 else F.admittedIn q n := by
  unfold admittedIn
  rw [Finset.range_add_one, Finset.filter_insert]
  split_ifs
  · rw [Finset.card_insert_of_notMem (by simp)]
  · rfl

/-! ### Steps -/

/-- A check of the tenant, in its window. -/
theorem check_cases (F : CounterFleet ν) {n : ℕ} {env : RedisEnv}
    (hq : F.requestAt n = some env) :
    let db := stateAt F.step F.start F.calls n
    let x := RedisStore.checkScript ⟨F.keyPrefix, 0⟩ F.digest F.maxRequests F.window env db
    (stateAt F.step F.start F.calls (n + 1) = db ∧ F.admits n = false) ∨
      (stateAt F.step F.start F.calls (n + 1) = x.2 ∧
        (F.admits n = true → ∃ k, x.1 = .ok k ∧ asU64 k ≤ F.maxRequests)) := by
  obtain ⟨timeout, key, hkey, hstate, hadmits⟩ := F.step_request hq
  simp only [hstate, hadmits, F.isCounter]
  have hcases := fixedWindowCheck_executes ⟨F.keyPrefix, timeout⟩ (keyDigest F.sha256) env key
    F.maxRequests F.window (stateAt F.step F.start F.calls n)
  rw [hkey] at hcases
  exact hcases

/-- Only a check in the window writes to its counter. -/
theorem other_keeps (F : CounterFleet ν) {n : ℕ} {q : Fin (2 ^ 64)}
    (hn : ∀ env, F.requestAt n = some env → windowIdAt F.window env.unix ≠ q) (db : Db ν) :
    (F.step (F.calls n) db).2.lookup (F.counter q) = db.lookup (F.counter q) := by
  cases hq : F.requestAt n with
  | none =>
    refine F.other_leaves hq ?_ db
    rw [F.isCounter]
    exact ⟨q, rfl⟩
  | some env =>
    obtain ⟨-, key, hop⟩ := FleetCall.check?_eq_some (requestAt_eq_some hq)
    refine fleetStep_leaves_role (r := .fw q) F.plain (F.clean n) (F.unreset n) ?_ db
    rintro - call hcall hmem
    obtain rfl := FleetOp.call.inj (hop.symm.trans hcall)
    rw [F.isCounter] at hmem
    simp only [Algorithm.checkOp, RedisCall.roles, List.mem_cons, KeyRole.fw.injEq, reduceCtorEq,
      List.not_mem_nil, or_false] at hmem
    exact hn env hq (congrArg Fin.val hmem).symm

/-! ### The invariant -/

omit [F64 ν] in
/-- The reading of a check fits in the width of the store. -/
theorem reading_lt (hskew : F.Skewed skew) (hslack : skew ≤ 5000) {n : ℕ} {env : RedisEnv}
    (hq : F.requestAt n = some env) (hclock : env.server ≤ int64Max) :
    Duration.asMillis env.unix.toNat < 2 ^ 64 := by
  have hnear := (abs_le.mp (hskew.millis hq)).2
  rw [int64Max] at hclock
  omega

/-- **The invariant of a fleet**: a counter has counted every request that was
    admitted in its window, and these keep to the limit. -/
theorem counted (hskew : F.Skewed skew) (hslack : skew ≤ 5000) (q : Fin (2 ^ 64)) (n : ℕ)
    (hclock : ∀ i < n, ∀ env, F.requestAt i = some env → env.server ≤ int64Max) :
    CountsAdmitted (lastArrival F.window skew q) (F.admittedIn q n)
        ((stateAt F.step F.start F.calls n).lookup (F.counter q)) ∧
      F.admittedIn q n ≤ F.maxRequests := by
  induction n with
  | zero =>
    have hnone : (stateAt F.step F.start F.calls 0).lookup (F.counter q) = none :=
      F.missing (.fw q) (by rw [F.isCounter]; exact ⟨q, rfl⟩)
    rw [hnone]
    exact ⟨.missing rfl, Nat.zero_le _⟩
  | succ n ih =>
    obtain ⟨hcounts, hle⟩ := ih fun i hi => hclock i (hi.trans (Nat.lt_succ_self n))
    by_cases hid : ∃ env, F.requestAt n = some env ∧ windowIdAt F.window env.unix = q
    · obtain ⟨env, hq, hid⟩ := hid
      have hsame : F.idAt n = q := (idAt_eq hq).trans hid
      rw [admittedIn_succ]
      simp only [hsame, and_true]
      rcases F.check_cases hq with ⟨hstate, hadm⟩ | ⟨hstate, hadm⟩
      · rw [hstate, hadm]
        exact ⟨hcounts, hle⟩
      · obtain ⟨hserver, hlast⟩ := lastArrival_covers F.window_lt hslack
          (reading_lt hskew hslack hq (hclock n (Nat.lt_succ_self n) env hq)) (hskew.millis hq)
        rw [hid] at hserver hlast
        obtain ⟨hmax, hcur⟩ := counterKey_ne_companions ⟨F.keyPrefix, 0⟩ F.digest q F.digest
        have hscript := hcounts.script hmax hcur hserver (luaInt_fixedTtl_pos F.window) hlast
          F.maxRequests_lt q
        rw [hstate, RedisStore.checkScript, hid, asI64_fixedTtl]
        rw [RedisStore.checkScript, hid, asI64_fixedTtl] at hadm
        split_ifs with hadmitted
        · obtain ⟨k, hk, hlimit⟩ := hadm hadmitted
          exact ⟨hscript.next k hk, hscript.within k hk hlimit⟩
        · exact ⟨hscript.kept, hle⟩
    · have hother : ∀ env, F.requestAt n = some env → windowIdAt F.window env.unix ≠ q :=
        fun env hq heq => hid ⟨env, hq, heq⟩
      have hnot : ¬ (F.admits n = true ∧ F.idAt n = q) := by
        rintro ⟨hadm, hsame⟩
        obtain ⟨env, hq⟩ := requestAt_of_admits hadm
        exact hother env hq ((idAt_eq hq).symm.trans hsame)
      rw [admittedIn_succ, if_neg hnot, stateAt_succ, F.other_keeps hother]
      exact ⟨hcounts, hle⟩

/-! ### The limit -/

section
variable (hskew : F.Skewed skew) (hslack : skew ≤ 5000) {S : Finset ℕ}
  (hS : ∀ n ∈ S, F.admits n = true) (hclock : ∀ n ∈ S, F.serverAt n ≤ int64Max)

include hskew hslack hS hclock

/-- In each window. -/
theorem card_window_le (q : ℕ) :
    (S.filter fun n => F.idAt n = q).card ≤ F.maxRequests := by
  rcases (S.filter fun n => F.idAt n = q).eq_empty_or_nonempty with hempty | hne
  · rw [hempty]
    exact Nat.zero_le _
  · obtain ⟨hlast, hq⟩ := Finset.mem_filter.mp (Finset.max'_mem _ hne)
    generalize hm : (S.filter fun n => F.idAt n = q).max' hne = m at hlast hq
    obtain ⟨env, henv⟩ := requestAt_of_admits (hS m hlast)
    have hidlt : q < 2 ^ 64 := by
      rw [← hq, idAt_eq henv]
      exact windowIdAt_lt _ _
    have hbefore : ∀ i < m + 1, ∀ env', F.requestAt i = some env' → env'.server ≤ int64Max := by
      intro i hi env' henv'
      have hle := server_mono (Nat.lt_succ_iff.mp hi) henv' henv
      have := hclock m hlast
      rw [serverAt_eq henv] at this
      exact hle.trans this
    refine le_trans (Finset.card_le_card ?_) (counted hskew hslack ⟨q, hidlt⟩ (m + 1) hbefore).2
    intro n hn
    obtain ⟨hnS, hnq⟩ := Finset.mem_filter.mp hn
    have hle := Finset.le_max' _ n hn
    rw [hm] at hle
    exact Finset.mem_filter.mpr ⟨Finset.mem_range.mpr (Nat.lt_succ_of_le hle), hS n hnS, hnq⟩

/-- A stretch of the server's clock meets the windows of the stretch and the skew
    on both sides. -/
theorem card_span_le {span : ℕ} (hspan : ∀ m ∈ S, ∀ n ∈ S, F.serverAt n ≤ F.serverAt m + span) :
    S.card ≤ F.maxRequests * ((span + 2 * skew) / windowMillis F.window + 1 + 1) := by
  refine card_le_of_labels F.idAt ?_ (card_window_le hskew hslack hS hclock)
  intro m hm n hn
  obtain ⟨env, hq⟩ := requestAt_of_admits (hS m hm)
  obtain ⟨env', hq'⟩ := requestAt_of_admits (hS n hn)
  have hm' := hclock m hm
  have hn' := hclock n hn
  have hle := hspan m hm n hn
  rw [serverAt_eq hq] at hm' hle
  rw [serverAt_eq hq'] at hn' hle
  obtain ⟨-, hhigh⟩ := windowIdAt_bounds F.window (reading_lt hskew hslack hq hm')
  obtain ⟨hlow, -⟩ := windowIdAt_bounds F.window (reading_lt hskew hslack hq' hn')
  have hnear := (abs_le.mp (hskew.millis hq)).1
  have hnear' := (abs_le.mp (hskew.millis hq')).2
  have hpos : 0 < windowMillis F.window := lt_max_of_lt_right one_pos
  rw [idAt_eq hq, idAt_eq hq']
  generalize windowIdAt F.window env.unix = q at hhigh
  generalize windowIdAt F.window env'.unix = q' at hlow
  generalize windowMillis F.window = windowMs at hhigh hlow hpos ⊢
  rcases Nat.lt_or_ge q q' with hlt | hge
  · -- the windows in between fit in the span
    have hbetween : (q' - (q + 1)) * windowMs ≤ span + 2 * skew := by
      rw [Nat.sub_mul]
      omega
    have := (Nat.le_div_iff_mul_le hpos).mpr hbetween
    omega
  · exact hge.trans (Nat.le_add_right _ _)

end

theorem twoPerMinute_lt : 2 < 2 ^ 53 := by decide

theorem minute_lt : Duration.asMillis (Duration.fromSecs 60) < 2 ^ 62 := by decide

/-- Two instances take turns every ten seconds, one of them four seconds fast and
    the other one a second slow. -/
def twoPerMinute : CounterFleet ℚ where
  toTenantFleet := turns (.fixedWindow 2 (Duration.fromSecs 60)) 10000
    fun n => if n % 2 = 0 then 5000 else 0
  maxRequests := 2
  window := Duration.fromSecs 60
  isCounter := rfl
  maxRequests_lt := twoPerMinute_lt
  window_lt := minute_lt

theorem twoPerMinute_skewed : twoPerMinute.Skewed 4000 := by
  refine turns_skewed fun n => ?_
  split_ifs <;> decide

end CounterFleet

end ArmatureRatelimit
