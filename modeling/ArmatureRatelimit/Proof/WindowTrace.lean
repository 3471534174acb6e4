/-
  What the sliding window checks of a key leave in Redis (`stores/redis.rs`).

  The sorted set holds every granted request under a member of its own until the
  script prunes it, and it does not expire before the counter that numbers the
  members, as the two keys share a deadline (`Tracks`).  That is so as long as
  the numbers are in the range of their texts.  A trace is what a run of calls
  makes of the keys: each of its checks executes or has no effect, and the other
  calls leave the keys alone.  An admitted check has counted every request that
  is still held (`WindowTrace.card_le`).
-/
import ArmatureRatelimit.Scripts.SlidingWindow
import ArmatureRatelimit.Lib.Runs

open Lib Lib.Redis

namespace ArmatureRatelimit

open RedisStore

variable {ν : Type}

/-! ## What the keys hold -/

section
variable (alive : ℕ → Prop) (stamp deadline : ℕ → ℤ)

/-- The set holds the requests in `alive` under members of their own, and all
    its members are numbered up to `q`. -/
structure Holds (z : KeyMap String ℤ) (q : ℕ) : Prop where
  numbered : ∀ m s, z.lookup m = some s → ∃ i ≤ q, m = stampMember s (luaInt (i : ℕ))
  members : ∃ member : ℕ → String, (∀ j, alive j → z.lookup (member j) = some (stamp j)) ∧
    ∀ j k, alive j → alive k → member j = member k → j = k

/-- What is stored under the keys of the stamps and of the counter: if there is
    a set, it holds the requests in `alive`, and it shares a deadline with the
    counter that is not before theirs. -/
inductive Tracks : Option (Entry ν) → Option (Entry ν) → Prop
  | fresh (hnone : ∀ j, ¬ alive j) : Tracks none none
  | missing (hnone : ∀ j, ¬ alive j) (q : ℕ) (d : Option ℤ) : Tracks none (some ⟨.int q, d⟩)
  | present {z : KeyMap String ℤ} {q : ℕ} {d : ℤ} (holds : Holds alive stamp z q)
      (le : ∀ j, alive j → deadline j ≤ d) :
      Tracks (some ⟨.zset z, some d⟩) (some ⟨.int q, some d⟩)

end

variable {alive alive' : ℕ → Prop} {stamp deadline : ℕ → ℤ} {z : KeyMap String ℤ} {q : ℕ}

theorem Holds.mono (h : Holds alive stamp z q) (hle : ∀ j, alive' j → alive j) :
    Holds alive' stamp z q where
  numbered := h.numbered
  members := by
    obtain ⟨member, hkept, hinj⟩ := h.members
    exact ⟨member, fun j hj => hkept j (hle j hj),
      fun j k hj hk => hinj j k (hle j hj) (hle k hk)⟩

theorem Tracks.mono {zs cs : Option (Entry ν)} (h : Tracks alive stamp deadline zs cs)
    (hle : ∀ j, alive' j → alive j) : Tracks alive' stamp deadline zs cs := by
  cases h with
  | fresh hnone => exact .fresh fun j hj => hnone j (hle j hj)
  | missing hnone q d => exact .missing (fun j hj => hnone j (hle j hj)) q d
  | present holds le => exact .present (holds.mono hle) fun j hj => le j (hle j hj)

theorem Holds.empty (hnone : ∀ j, ¬ alive j) (q : ℕ) : Holds alive stamp ∅ q where
  numbered m s hm := by rw [AList.lookup_empty] at hm; cases hm
  members := ⟨fun _ => "", fun j hj => absurd hj (hnone j), fun j _ hj => absurd hj (hnone j)⟩

/-- Each of the requests counts. -/
theorem Holds.card_le (h : Holds alive stamp z q) {S : Finset ℕ} (hS : ∀ j ∈ S, alive j) :
    S.card ≤ z.size := by
  obtain ⟨member, hkept, hinj⟩ := h.members
  have hmem : ∀ j ∈ S, member j ∈ z.keys.toFinset := fun j hj => by
    rw [List.mem_toFinset]
    exact AList.lookup_isSome.mp (by rw [hkept j (hS j hj)]; rfl)
  have hcard := Finset.card_le_card_of_injOn member hmem
    fun j hj k hk heq => hinj j k (hS j hj) (hS k hk) heq
  refine hcard.trans ((List.toFinset_card_le _).trans (le_of_eq ?_))
  exact List.length_map _

/-- Pruning keeps the requests after the cutoff. -/
theorem Holds.prune (h : Holds alive stamp z q) (cutoff : ℤ) :
    Holds (fun j => alive j ∧ luaInt cutoff < stamp j) stamp (keptStamps cutoff z) q where
  numbered m s hm := by
    rw [keptStamps, KeyMap.lookup_retain, Option.filter_eq_some_iff] at hm
    exact h.numbered m s hm.1
  members := by
    obtain ⟨member, hkept, hinj⟩ := h.members
    refine ⟨member, ?_, fun j k hj hk => hinj j k hj.1 hk.1⟩
    intro j hj
    rw [keptStamps, KeyMap.lookup_retain, hkept j hj.1, Option.filter_some, if_pos]
    exact decide_eq_true (.inr hj.2)

/-- A new request gets a new member, if the numbers are in the range of their
    texts. -/
theorem Holds.add (h : Holds alive stamp z q) {n : ℕ} (hn : ¬ alive n)
    (hafter : ∀ j, alive' j → alive j ∨ j = n) (hrange : ∀ j, alive' j → q < 10 ^ 14) :
    Holds alive' stamp (z.insert (stampMember (stamp n) (luaInt ((q + 1 : ℕ) : ℤ))) (stamp n))
      (q + 1) where
  numbered m s hm := by
    rw [KeyMap.lookup_insert_eq_ite] at hm
    split_ifs at hm with heq
    · exact ⟨q + 1, le_rfl, by rw [heq, Option.some.inj hm]⟩
    · obtain ⟨i, hi, hm⟩ := h.numbered m s hm
      exact ⟨i, hi.trans (Nat.le_succ q), hm⟩
  members := by
    obtain ⟨member, hkept, hinj⟩ := h.members
    have hnew : ∀ j, alive j → alive' j →
        member j ≠ stampMember (stamp n) (luaInt ((q + 1 : ℕ) : ℤ)) := by
      intro j hj hj' heq
      obtain ⟨i, hi, hm⟩ := h.numbered _ _ (hkept j hj)
      exact stampMember_ne hi (hrange j hj') (hm.symm.trans heq)
    refine ⟨fun j => if j = n then stampMember (stamp n) (luaInt ((q + 1 : ℕ) : ℤ))
      else member j, ?_, ?_⟩
    · intro j hj
      rw [KeyMap.lookup_insert_eq_ite]
      beta_reduce
      rcases hafter j hj with hold | rfl
      · have hne : j ≠ n := fun heq => hn (heq ▸ hold)
        rw [if_neg hne, if_neg (hnew j hold hj), hkept j hold]
      · rw [if_pos rfl, if_pos rfl]
    · intro j k hj hk heq
      simp only at heq
      split_ifs at heq with h1 h2 h2
      · rw [h1, h2]
      · exact absurd heq.symm (hnew k ((hafter k hk).resolve_right h2) hk)
      · exact absurd heq (hnew j ((hafter j hj).resolve_right h1) hj)
      · exact hinj j k ((hafter j hj).resolve_right h1) ((hafter k hk).resolve_right h2) heq

/-! ## One execution -/

section
variable {K : WindowKeys} {server : ℤ} {db : Db ν}

theorem find_of_lookup {key : String} {e : Entry ν} (he : db.lookup key = some e) :
    find server key db = if e.live server then some e else none := by
  rw [find, he, Option.filter_some]

/-- What the script sees and what pruning leaves: the requests that have not
    expired, and of these the ones after the cutoff. -/
theorem Tracks.views (h : Tracks alive stamp deadline (db.lookup K.key) (db.lookup K.seqkey))
    (server cutoff : ℤ) : ∃ z d d', ∃ q : ℕ,
      zsetAt server K.key db = some (z, d) ∧ intAt server K.seqkey db = some ((q : ℤ), d') ∧
      Holds (fun j => alive j ∧ server ≤ deadline j) stamp z q ∧
      Tracks (fun j => (alive j ∧ server ≤ deadline j) ∧ luaInt cutoff < stamp j) stamp deadline
        (prunedEntry server cutoff (db.lookup K.key)) (db.lookup K.seqkey) := by
  generalize hz : db.lookup K.key = zs at h
  generalize hc : db.lookup K.seqkey = cs at h
  have hnokey : zs = none → find server K.key db = none := by
    rintro rfl
    rw [find, hz]; rfl
  cases h with
  | fresh hnone =>
    refine ⟨∅, none, none, 0, viewAt_none (hnokey rfl), viewAt_none (by rw [find, hc]; rfl),
      .empty (fun j hj => hnone j hj.1) 0, .fresh fun j hj => hnone j hj.1.1⟩
  | missing hnone q d =>
    by_cases hlive : Entry.live server (⟨.int q, d⟩ : Entry ν) = true
    · refine ⟨∅, none, d, q, viewAt_none (hnokey rfl), viewAt_some (v := .int q) ?_ rfl,
        .empty (fun j hj => hnone j hj.1) q, .missing (fun j hj => hnone j hj.1.1) q d⟩
      rw [find_of_lookup hc, if_pos hlive]
    · refine ⟨∅, none, none, 0, viewAt_none (hnokey rfl), viewAt_none ?_,
        .empty (fun j hj => hnone j hj.1) 0, .missing (fun j hj => hnone j hj.1.1) q d⟩
      rw [find_of_lookup hc, if_neg hlive]
  | @present z q d holds le =>
    by_cases hlive : server ≤ d
    · have hz' : Entry.live server (⟨.zset z, some d⟩ : Entry ν) = true := decide_eq_true hlive
      have hc' : Entry.live server (⟨.int q, some d⟩ : Entry ν) = true := decide_eq_true hlive
      have hholds : Holds (fun j => alive j ∧ server ≤ deadline j) stamp z q :=
        holds.mono fun j hj => hj.1
      refine ⟨z, some d, some d, q, viewAt_some (v := .zset z) ?_ rfl,
        viewAt_some (v := .int q) ?_ rfl, hholds, ?_⟩
      · rw [find_of_lookup hz, if_pos hz']
      · rw [find_of_lookup hc, if_pos hc']
      · simp only [prunedEntry, hz', Bool.true_eq_false, if_false]
        split_ifs with hsize
        · refine .missing ?_ q _
          intro j hj
          have hcard := (hholds.prune cutoff).card_le (S := {j}) (by simpa using hj)
          rw [hsize, Finset.card_singleton] at hcard
          omega
        · exact .present (hholds.prune cutoff) fun j hj => le j hj.1.1
    · -- both keys have expired, and so have all the requests
      have hz' : Entry.live server (⟨.zset z, some d⟩ : Entry ν) = false := decide_eq_false hlive
      have hc' : Entry.live server (⟨.int q, some d⟩ : Entry ν) = false := decide_eq_false hlive
      have hnone : ∀ j, ¬ (alive j ∧ server ≤ deadline j) := fun j hj =>
        hlive (hj.2.trans (le j hj.1))
      refine ⟨∅, none, none, 0, viewAt_none ?_, viewAt_none ?_, .empty hnone 0, ?_⟩
      · rw [find_of_lookup hz, hz']; rfl
      · rw [find_of_lookup hc, hc']; rfl
      · simp only [prunedEntry, hz', if_true]
        exact .present (holds.mono fun j hj => hj.1.1) fun j hj => le j hj.1.1

/-- **One execution.**  Of the requests that are held before, those that are not
    after the cutoff or have expired are dropped; the request itself is added if
    it is granted, and that is only when those that are left are fewer than the
    limit. -/
theorem Tracks.script (h : Tracks alive stamp deadline (db.lookup K.key) (db.lookup K.seqkey))
    (alive' : ℕ → Prop) (maxRequests : ℤ) {now cutoff : ℤ} {n : ℕ} (hn : ¬ alive n)
    (hstamp : stamp n = luaInt now) {windowSecs : ℤ} (hpos : 0 ≤ windowSecs)
    (hdeadline : deadline n = server + 1000 * slidingTtl windowSecs)
    (hle : ∀ j, alive j → deadline j ≤ deadline n)
    (hafter : ∀ j, alive' j → ((alive j ∧ server ≤ deadline j) ∧ luaInt cutoff < stamp j) ∨
      (j = n ∧ Granted (windowScript K server maxRequests now cutoff windowSecs db).1))
    (hrange : ∀ j, alive' j → integerAt server K.seqkey db < 10 ^ 14) :
    Tracks alive' stamp deadline
      ((windowScript K server maxRequests now cutoff windowSecs db).2.lookup K.key)
      ((windowScript K server maxRequests now cutoff windowSecs db).2.lookup K.seqkey) ∧
    (Granted (windowScript K server maxRequests now cutoff windowSecs db).1 →
      server + 1000 * slidingTtl windowSecs ≤ int64Max ∧ ∀ S : Finset ℕ,
        (∀ j ∈ S, (alive j ∧ server ≤ deadline j) ∧ luaInt cutoff < stamp j) →
          (S.card : ℤ) < maxRequests) := by
  by_cases hvalid : server + 1000 * slidingTtl windowSecs ≤ int64Max
  · obtain ⟨z, d, d', q, hz, hq, hholds, hpruned⟩ := h.views server cutoff
    have hkept := hholds.prune cutoff
    by_cases hroom : FindsRoom maxRequests (keptStamps cutoff z).size ∧ (q : ℤ) ≠ int64Max
    · obtain ⟨db', hrun, hkey, hseq⟩ :=
        slidingWindowScript_grant hpos hvalid hz hq hroom.1 hroom.2 now
      have hnext : (q : ℤ) + 1 = ((q + 1 : ℕ) : ℤ) := by push_cast; rfl
      rw [hrun] at hafter ⊢
      rw [hkey, hseq, hnext, ← hstamp, ← hdeadline]
      constructor
      · refine .present (q := q + 1) (hkept.add (fun hj => hn hj.1.1) ?_ ?_) ?_
        · exact fun j hj => (hafter j hj).imp_right fun hj => hj.1
        · intro j hj
          have hcount := hrange j hj
          rw [integerAt_eq hq] at hcount
          exact_mod_cast hcount
        · intro j hj
          rcases hafter j hj with hold | ⟨rfl, -⟩
          · exact hle j hold.1.1
          · exact le_rfl
      · intro _
        refine ⟨hdeadline ▸ hvalid, ?_⟩
        intro S hS
        have hcard := hkept.card_le hS
        have := hroom.1.lt
        omega
    · obtain ⟨db', r, hrun, hnot, hkey, hseq⟩ :=
        slidingWindowScript_refuse hpos hvalid hz hq hroom now
      rw [hrun] at hafter ⊢
      rw [hkey, hseq]
      refine ⟨hpruned.mono ?_, fun ⟨a, ha⟩ => absurd ha (hnot a)⟩
      intro j hj
      exact (hafter j hj).resolve_right fun ⟨_, a, ha⟩ => hnot a ha
  · obtain ⟨msg, hrun⟩ := slidingWindowScript_invalid K server maxRequests now cutoff
      windowSecs db (not_le.mp hvalid)
    rw [hrun] at hafter ⊢
    refine ⟨h.mono fun j hj => ?_, ?_⟩
    · rcases hafter j hj with hold | ⟨_, a, ha⟩
      · exact hold.1.1
      · cases ha
    · rintro ⟨a, ha⟩
      cases ha

end

/-! ## Traces -/

/-- What a run of calls makes of the keys of a sliding window, which start
    missing.  `request` says which calls are checks of these keys, and `admits`
    which of them are admitted. -/
structure WindowTrace (ν : Type) where
  keys : WindowKeys
  maxRequests : ℕ
  window : ℕ
  state : ℕ → Db ν
  request : ℕ → Option RedisEnv
  admits : ℕ → Bool
  fresh_key : (state 0).lookup keys.key = none
  fresh_seq : (state 0).lookup keys.seqkey = none
  check : ∀ n env, request n = some env →
    (state (n + 1) = state n ∧ admits n = false) ∨
    (state (n + 1) = (sentScript keys maxRequests window env (state n)).2 ∧
      (admits n = true → 0 ≤ env.unix ∧
        Granted (sentScript keys maxRequests window env (state n)).1))
  other : ∀ n, request n = none →
    admits n = false ∧ (state (n + 1)).lookup keys.key = (state n).lookup keys.key ∧
      (state (n + 1)).lookup keys.seqkey = (state n).lookup keys.seqkey
  inOrder : ∀ i j env env', i ≤ j → request i = some env → request j = some env' →
    env.server ≤ env'.server

namespace WindowTrace

section
variable (T : WindowTrace ν)

/-- The stamp that check `n` leaves. -/
def stampAt (n : ℕ) : ℤ := ((T.request n).map fun env => luaInt (sentStamp env)).getD 0

/-- When the stamp of check `n` expires. -/
def deadlineAt (n : ℕ) : ℤ :=
  ((T.request n).map fun env => env.server + 1000 * slidingTtl (Duration.asSecs T.window)).getD 0

/-- A check that reads `env` keeps the stamp of check `j`. -/
def Keeps (env : RedisEnv) (j : ℕ) : Prop :=
  env.server ≤ T.deadlineAt j ∧
    luaInt (sentStamp env - asI64 (Duration.asMillis T.window)) < T.stampAt j

/-- The admitted checks before call `n` that no check since has pruned or seen
    expire. -/
def aliveAt (n j : ℕ) : Prop :=
  j < n ∧ T.admits j = true ∧ ∀ k, j < k → k < n → ∀ env, T.request k = some env → T.Keeps env j

/-- Up to call `n` the checks read a clock in the range of the doubles, and find
    the counter in the range of the texts. -/
def ExactTo (n : ℕ) : Prop :=
  ∀ k ≤ n, ∀ env, T.request k = some env → Duration.asMillis env.unix.toNat < 2 ^ 53 ∧
    integerAt env.server T.keys.seqkey (T.state k) < 10 ^ 14

end

variable {T : WindowTrace ν}

theorem request_of_admits {n : ℕ} (h : T.admits n = true) : ∃ env, T.request n = some env := by
  cases hq : T.request n with
  | some env => exact ⟨env, rfl⟩
  | none =>
    rw [(T.other n hq).1] at h
    cases h

theorem stampAt_eq {n : ℕ} {env : RedisEnv} (hq : T.request n = some env) :
    T.stampAt n = luaInt (sentStamp env) := by
  rw [stampAt, hq, Option.map_some, Option.getD_some]

theorem deadlineAt_eq {n : ℕ} {env : RedisEnv} (hq : T.request n = some env) :
    T.deadlineAt n = env.server + 1000 * slidingTtl (Duration.asSecs T.window) := by
  rw [deadlineAt, hq, Option.map_some, Option.getD_some]

/-- A check drops what it does not keep, and adds itself. -/
theorem aliveAt_succ {n j : ℕ} (h : T.aliveAt (n + 1) j) :
    (T.aliveAt n j ∧ ∀ env, T.request n = some env → T.Keeps env j) ∨
      (j = n ∧ T.admits n = true) := by
  obtain ⟨hj, hadm, hsince⟩ := h
  rcases Nat.lt_or_eq_of_le (Nat.lt_succ_iff.mp hj) with hlt | rfl
  · exact .inl ⟨⟨hlt, hadm, fun k hk hkn => hsince k hk (hkn.trans (Nat.lt_succ_self n))⟩,
      hsince n hlt (Nat.lt_succ_self n)⟩
  · exact .inr ⟨rfl, hadm⟩

/-- What the check that call `n` is does, when it executes. -/
theorem script_tracks {n : ℕ} {env : RedisEnv} (hq : T.request n = some env)
    (h : Tracks (T.aliveAt n) T.stampAt T.deadlineAt ((T.state n).lookup T.keys.key)
      ((T.state n).lookup T.keys.seqkey))
    (alive' : ℕ → Prop) (hafter : ∀ j, alive' j → (T.aliveAt n j ∧ T.Keeps env j) ∨
      (j = n ∧ Granted (sentScript T.keys T.maxRequests T.window env (T.state n)).1))
    (hrange : ∀ j, alive' j → integerAt env.server T.keys.seqkey (T.state n) < 10 ^ 14) :
    Tracks alive' T.stampAt T.deadlineAt
      ((sentScript T.keys T.maxRequests T.window env (T.state n)).2.lookup T.keys.key)
      ((sentScript T.keys T.maxRequests T.window env (T.state n)).2.lookup T.keys.seqkey) ∧
    (Granted (sentScript T.keys T.maxRequests T.window env (T.state n)).1 →
      T.deadlineAt n ≤ int64Max ∧ ∀ S : Finset ℕ, (∀ j ∈ S, T.aliveAt n j ∧ T.Keeps env j) →
        (S.card : ℤ) < T.maxRequests) := by
  have hself : ¬ T.aliveAt n n := fun h => absurd h.1 (Nat.lt_irrefl n)
  have hmono : ∀ j, T.aliveAt n j → T.deadlineAt j ≤ T.deadlineAt n := by
    intro j hj
    obtain ⟨env', hq'⟩ := request_of_admits hj.2.1
    have hle := T.inOrder j n env' env hj.1.le hq' hq
    rw [deadlineAt_eq hq, deadlineAt_eq hq']
    omega
  have hscript := h.script alive' T.maxRequests hself (stampAt_eq hq)
    (Int.natCast_nonneg _) (deadlineAt_eq hq) hmono
    (fun j hj => (hafter j hj).imp_left fun ⟨ha, hk⟩ => ⟨⟨ha, hk.1⟩, hk.2⟩) hrange
  rw [deadlineAt_eq hq]
  refine ⟨hscript.1, fun hgranted => ⟨(hscript.2 hgranted).1, fun S hS => ?_⟩⟩
  exact (hscript.2 hgranted).2 S fun j hj => ⟨⟨(hS j hj).1, (hS j hj).2.1⟩, (hS j hj).2.2⟩

/-- **The invariant of a trace**: the keys hold every admitted request that no
    check has dropped. -/
theorem tracks {n : ℕ} (hexact : ∀ k < n, T.ExactTo k) :
    Tracks (T.aliveAt n) T.stampAt T.deadlineAt ((T.state n).lookup T.keys.key)
      ((T.state n).lookup T.keys.seqkey) := by
  induction n with
  | zero =>
    rw [T.fresh_key, T.fresh_seq]
    exact .fresh fun j hj => absurd hj.1 (Nat.not_lt_zero j)
  | succ n ih =>
    have ih := ih fun k hk => hexact k (hk.trans (Nat.lt_succ_self n))
    cases hq : T.request n with
    | none =>
      obtain ⟨hadm, hkey, hseq⟩ := T.other n hq
      rw [hkey, hseq]
      refine ih.mono fun j hj => ?_
      rcases aliveAt_succ hj with hold | ⟨-, h⟩
      · exact hold.1
      · rw [hadm] at h
        cases h
    | some env =>
      rcases T.check n env hq with ⟨hstate, hadm⟩ | ⟨hstate, hadm⟩
      · rw [hstate]
        refine ih.mono fun j hj => ?_
        rcases aliveAt_succ hj with hold | ⟨-, h⟩
        · exact hold.1
        · rw [hadm] at h
          cases h
      · rw [hstate]
        refine (script_tracks hq ih _ ?_ fun j _ =>
          (hexact n (Nat.lt_succ_self n) n le_rfl env hq).2).1
        intro j hj
        exact (aliveAt_succ hj).imp (fun ⟨ha, hk⟩ => ⟨ha, hk env hq⟩)
          fun ⟨hjn, h⟩ => ⟨hjn, (hadm h).2⟩

/-- An admitted check had its deadline accepted, and counted fewer than the
    limit. -/
theorem admits_count {n : ℕ} {env : RedisEnv} (hexact : ∀ k < n, T.ExactTo k)
    (hq : T.request n = some env) (hn : T.admits n = true) :
    0 ≤ env.unix ∧ T.deadlineAt n ≤ int64Max ∧
      ∀ S : Finset ℕ, (∀ j ∈ S, T.aliveAt n j ∧ T.Keeps env j) → S.card < T.maxRequests := by
  rcases T.check n env hq with ⟨-, hadm⟩ | ⟨-, hadm⟩
  · rw [hn] at hadm
    cases hadm
  · obtain ⟨hunix, hgranted⟩ := hadm hn
    have hscript := script_tracks hq (tracks hexact) (fun _ => False)
      (fun _ hj => hj.elim) fun _ hj => hj.elim
    refine ⟨hunix, (hscript.2 hgranted).1, fun S hS => ?_⟩
    exact_mod_cast (hscript.2 hgranted).2 S hS

/-- **What the limit bounds.**  Admitted requests that every check up to the last
    of them keeps are no more than the limit. -/
theorem card_le {S : Finset ℕ} (hS : ∀ n ∈ S, T.admits n = true)
    (hexact : ∀ n ∈ S, T.ExactTo n)
    (hkeeps : ∀ i ∈ S, ∀ j ∈ S, j < i → ∀ k env, j < k → k ≤ i → T.request k = some env →
      T.Keeps env j) : S.card ≤ T.maxRequests := by
  rcases S.eq_empty_or_nonempty with rfl | hne
  · exact Nat.zero_le _
  · have hi := S.max'_mem hne
    obtain ⟨env, hq⟩ := request_of_admits (hS _ hi)
    -- the last request counted all the others
    have hcount := (admits_count (fun k hk l hl => hexact _ hi l (hl.trans hk.le)) hq
      (hS _ hi)).2.2 (S.erase (S.max' hne)) fun j hj => by
        have hjS := Finset.mem_of_mem_erase hj
        have hlt := S.lt_max'_of_mem_erase_max' hne hj
        refine ⟨⟨hlt, hS j hjS, fun k hjk hki env' hq' => ?_⟩, ?_⟩
        · exact hkeeps _ hi j hjS hlt k env' hjk hki.le hq'
        · exact hkeeps _ hi j hjS hlt _ env hlt le_rfl hq
    rw [Finset.card_erase_of_mem hi] at hcount
    have := Finset.card_pos.mpr hne
    omega

end WindowTrace

end ArmatureRatelimit
