/-
  The fixed window of the Redis store across instances (`stores/redis.rs`).

  The counter of a window is created with a deadline that lies at least ten
  seconds after the end of the window.  As long as every script executes within
  ten seconds after its caller has read the clock, the counter outlives all the
  executions that count in it, and the number of an execution among those of its
  window decides (`FixedRun.redisFixed_by_rank`), as long as the limit is below
  `2 ^ 53`: from there on the count is a rounded double (`constantRun_exceeds`).
-/
import ArmatureRatelimit.Proof.KeyNames
import ArmatureRatelimit.Lib.Counting

open Lib Lib.Redis

namespace ArmatureRatelimit

open RedisStore

variable {ν : Type}

/-! ## Prompt executions -/

/-- The server executes a check within ten seconds after its caller has read the
    clock, and accepts its deadline. -/
structure Prompt (window : ℕ) (env : RedisEnv) : Prop where
  executed : env.delivery.executed = true
  unix_nonneg : 0 ≤ env.unix
  after : (Duration.asMillis env.unix.toNat : ℤ) ≤ env.server
  within : env.server ≤ (Duration.asMillis env.unix.toNat : ℤ) + 10000
  accepted : env.server + 1000 * luaInt (fixedTtl window) ≤ int64Max

/-- Ten seconds after the end of a window. -/
def lastMoment (window q : ℕ) : ℤ := ((q : ℤ) + 1) * windowMillis window + 10000

/-- A prompt execution comes before the last moment of its window, and a key that
    it creates expires after it. -/
theorem Prompt.lastMoment {window : ℕ} (hwindow : Duration.asMillis window < 2 ^ 62)
    {env : RedisEnv} (henv : Prompt window env) :
    env.server ≤ lastMoment window (windowIdAt window env.unix) ∧
      lastMoment window (windowIdAt window env.unix) ≤
        env.server + 1000 * luaInt (fixedTtl window) := by
  have hafter := henv.after
  have hwithin := henv.within
  have hreading : asU64 (Duration.asMillis env.unix.toNat) = Duration.asMillis env.unix.toNat := by
    have haccepted := henv.accepted
    have httl := luaInt_fixedTtl_pos window
    simp only [int64Max] at haccepted
    exact asU64_of_lt (by omega)
  have hpos : 0 < windowMillis window := lt_max_of_lt_right one_pos
  rw [luaInt_fixedTtl hwindow]
  unfold ArmatureRatelimit.lastMoment windowIdAt fixedTtl
  rw [hreading]
  generalize Duration.asMillis env.unix.toNat = ms at hafter hwithin ⊢
  generalize windowMillis window = windowMs at hpos ⊢
  have hdiv := Nat.div_add_mod' ms windowMs
  have hmod := Nat.mod_lt ms hpos
  have hend : ((ms / windowMs : ℕ) + 1 : ℤ) * windowMs =
      ((ms / windowMs * windowMs : ℕ) : ℤ) + windowMs := by
    push_cast
    ring
  rw [hend]
  omega

/-! ## Runs -/

/-- Calls by any number of instances, in the order in which the server executes
    them, and a key whose windows start without counters.  There are no resets,
    and the fixed window checks of the key have one limit and one window and
    execute promptly. -/
structure FixedRun (ν : Type) where
  store : RedisStore
  keyDigest : String → String
  key : String
  maxRequests : ℕ
  maxRequests_pos : 1 ≤ maxRequests
  windowMs : ℕ
  windowMs_pos : 1 ≤ windowMs
  windowMs_lt : windowMs < 2 ^ 53
  start : Db ν
  fresh : ∀ q, start.lookup (store.counterKey (keyDigest key) q) = none
  calls : ℕ → RedisCall ν
  noReset : ∀ n, (calls n).op.isReset = false
  limit : ∀ n key' maxRequests' window, (calls n).op = .fixedWindow key' maxRequests' window →
    keyDigest key' = keyDigest key →
    maxRequests' = maxRequests ∧ window = Duration.fromMillis windowMs
  prompt : ∀ n key' maxRequests' window, (calls n).op = .fixedWindow key' maxRequests' window →
    keyDigest key' = keyDigest key → Prompt (Duration.fromMillis windowMs) (calls n).env

namespace FixedRun

section
variable [F64 ν] (R : FixedRun ν)

def step : RedisCall ν → Db ν → Outcome (Option (Bool × ℕ)) × Db ν := R.store.serve R.keyDigest

def digest : String := R.keyDigest R.key

def window : ℕ := Duration.fromMillis R.windowMs

/-- The window id of the reading of call `n`. -/
def idAt (n : ℕ) : ℕ := windowIdAt R.window (R.calls n).env.unix

/-- Call `n` is a fixed window check of the key. -/
def onKey (n : ℕ) : Bool := decide ((R.calls n).window? R.keyDigest = some (R.digest, R.idAt n))

/-- How many of the first `n` calls are checks of the key with window id `q`. -/
def countOf (q n : ℕ) : ℕ :=
  ((Finset.range n).filter fun i => R.onKey i = true ∧ R.idAt i = q).card

/-- Call `n` is the how-manyth check with its window id. -/
def rank (n : ℕ) : ℕ := R.countOf (R.idAt n) (n + 1)

/-- What call `n` returns if its answer arrives in time. -/
def decisionAt (n : ℕ) : Outcome (Option (Bool × ℕ)) :=
  (R.step ⟨{ (R.calls n).env with delivery := .answered 0 }, (R.calls n).op⟩
    (stateAt R.step R.start R.calls n)).1

/-- Execution `n` is a check of the key and is admitted. -/
def admits (n : ℕ) : Bool :=
  R.onKey n && match R.decisionAt n with
    | .ok (some (allowed, _)) => allowed
    | _ => false

end

variable {R : FixedRun ν}

theorem onKey_op {n : ℕ} (hn : R.onKey n = true) :
    ∃ key', (R.calls n).op = .fixedWindow key' R.maxRequests R.window ∧
      R.keyDigest key' = R.digest ∧ Prompt R.window (R.calls n).env := by
  have hwindow := of_decide_eq_true hn
  unfold RedisCall.window? at hwindow
  split at hwindow
  · rename_i key' maxRequests' window hop
    have hdigest := (Prod.mk.inj (Option.some.inj hwindow)).1
    obtain ⟨rfl, rfl⟩ := R.limit n _ _ _ hop hdigest
    exact ⟨key', hop, hdigest, R.prompt n _ _ _ hop hdigest⟩
  · cases hwindow

theorem window?_eq_some {n q : ℕ} :
    (R.calls n).window? R.keyDigest = some (R.digest, q) ↔ R.onKey n = true ∧ R.idAt n = q := by
  constructor
  · intro hwindow
    have hid : R.idAt n = q := by
      unfold RedisCall.window? at hwindow
      split at hwindow
      · rename_i key' maxRequests' window hop
        obtain ⟨hdigest, hq⟩ := Prod.mk.inj (Option.some.inj hwindow)
        obtain ⟨-, rfl⟩ := R.limit n _ _ _ hop hdigest
        exact hq
      · cases hwindow
    refine ⟨decide_eq_true ?_, hid⟩
    rw [hid, hwindow]
  · rintro ⟨hn, rfl⟩
    exact of_decide_eq_true hn

theorem countOf_succ (R : FixedRun ν) (q n : ℕ) :
    R.countOf q (n + 1) =
      if R.onKey n = true ∧ R.idAt n = q then R.countOf q n + 1 else R.countOf q n := by
  unfold countOf
  rw [Finset.range_add_one, Finset.filter_insert]
  split_ifs
  · rw [Finset.card_insert_of_notMem (by simp)]
  · rfl

theorem rank_eq {n : ℕ} (hn : R.onKey n = true) : R.rank n = R.countOf (R.idAt n) n + 1 := by
  rw [rank, countOf_succ, if_pos ⟨hn, rfl⟩]

/-! ## One execution -/

/-- The script of call `n`, as a check of the key. -/
def script (R : FixedRun ν) (n : ℕ) : Script ν ℤ :=
  R.store.checkScript R.digest R.maxRequests R.window (R.calls n).env

theorem step_state [F64 ν] {n : ℕ} (hn : R.onKey n = true) (db : Db ν) :
    (R.step (R.calls n) db).2 = (R.script n db).2 := by
  obtain ⟨key', hop, hdigest, hprompt⟩ := onKey_op hn
  simp only [step, serve, hop]
  rw [fixedWindowCheck_eq hprompt.unix_nonneg, hdigest]
  exact withOpTimeout_executed hprompt.executed _ _

theorem decisionAt_eq [F64 ν] {n : ℕ} (hn : R.onKey n = true) :
    R.decisionAt n =
      (((R.script n (stateAt R.step R.start R.calls n)).1.mapError fun msg =>
        .err (.storeError msg)).map (fixedDecision R.maxRequests)).map some := by
  obtain ⟨key', hop, hdigest, hprompt⟩ := onKey_op hn
  have hunix : 0 ≤ ({ (R.calls n).env with delivery := .answered 0 } : RedisEnv).unix :=
    hprompt.unix_nonneg
  unfold decisionAt
  generalize stateAt R.step R.start R.calls n = db
  simp only [step, serve, hop]
  rw [fixedWindowCheck_eq hunix, hdigest]
  simp only
  rw [withOpTimeout_answered rfl (Nat.zero_le _)]
  rfl

theorem windowMillis_eq (R : FixedRun ν) : windowMillis R.window = R.windowMs := by
  have hwhole : Duration.asMillis R.window = R.windowMs :=
    Duration.asMillis_fromMillis R.windowMs
  have := R.windowMs_lt
  rw [windowMillis, hwhole, asU64_of_lt (by omega), max_eq_left R.windowMs_pos]

/-- **One execution**: the counter goes on, and the new count is returned. -/
theorem script_counts {n : ℕ} (hn : R.onKey n = true) {c : ℕ} {db : Db ν}
    (h : Counts (lastMoment R.window (R.idAt n)) c
      (db.lookup (R.store.counterKey R.digest (R.idAt n)))) :
    ∃ r db', R.script n db = (r, db') ∧
      (((c + 1 : ℕ) : ℤ) ≤ int64Max → r = .ok (luaInt ((c + 1 : ℕ) : ℤ))) ∧
      (int64Max < ((c + 1 : ℕ) : ℤ) → ∃ msg, r = .error msg) ∧
      Counts (lastMoment R.window (R.idAt n)) (c + 1)
        (db'.lookup (R.store.counterKey R.digest (R.idAt n))) := by
  obtain ⟨key', hop, hdigest, hprompt⟩ := onKey_op hn
  have hwindow : Duration.asMillis R.window < 2 ^ 62 := by
    have := R.windowMs_lt
    rw [window, Duration.asMillis_fromMillis]
    omega
  obtain ⟨hbefore, hafter⟩ := hprompt.lastMoment hwindow
  unfold script checkScript
  rw [asI64_fixedTtl]
  obtain ⟨hmax, hcur⟩ := counterKey_ne_companions R.store R.digest (R.idAt n) R.digest
  exact h.script hmax hcur hbefore (luaInt_fixedTtl_pos _) hprompt.accepted hafter R.maxRequests
    (R.idAt n)

variable [F64 ν]

theorem counts (R : FixedRun ν) (n q : ℕ) :
    Counts (lastMoment R.window q) (R.countOf q n)
      ((stateAt R.step R.start R.calls n).lookup (R.store.counterKey R.digest q)) := by
  induction n with
  | zero =>
    have hnone : R.start.lookup (R.store.counterKey R.digest q) = none := R.fresh q
    show Counts _ 0 (R.start.lookup _)
    rw [hnone]
    exact .missing
  | succ n ih =>
    rw [countOf_succ, stateAt_succ]
    split_ifs with hcounted
    · obtain ⟨hn, rfl⟩ := hcounted
      obtain ⟨r, db', hrun, -, -, hcounts⟩ := script_counts hn ih
      rw [step_state hn, hrun]
      exact hcounts
    · rw [step, serve_counter (R.noReset n) (mt window?_eq_some.mp hcounted)]
      exact ih

/-- What execution `n` decides, by its rank. -/
theorem decisionAt_rank {n : ℕ} (hn : R.onKey n = true) :
    ((R.rank n : ℤ) ≤ int64Max →
      R.decisionAt n = .ok (some (fixedDecision R.maxRequests (luaInt (R.rank n))))) ∧
    (int64Max < (R.rank n : ℤ) → ∃ e, R.decisionAt n = .error e) := by
  obtain ⟨r, db', hrun, hok, herr, -⟩ := script_counts hn (R.counts n (R.idAt n))
  rw [rank_eq hn, decisionAt_eq hn, hrun]
  constructor
  · intro hle
    rw [hok hle]
    rfl
  · intro hlt
    obtain ⟨msg, rfl⟩ := herr hlt
    exact ⟨_, rfl⟩

/-! ## Ranks -/

omit [F64 ν] in
theorem rank_lt {i j : ℕ} (hij : i < j) (hj : R.onKey j = true)
    (hid : R.idAt i = R.idAt j) : R.rank i < R.rank j := by
  have hmono : R.countOf (R.idAt j) (i + 1) ≤ R.countOf (R.idAt j) j := by
    refine Finset.card_le_card (Finset.filter_subset_filter _ ?_)
    exact Finset.range_mono hij
  rw [rank_eq hj, rank, hid]
  omega

omit [F64 ν] in
theorem rank_inj {i j : ℕ} (hi : R.onKey i = true) (hj : R.onKey j = true)
    (hid : R.idAt i = R.idAt j) (hrank : R.rank i = R.rank j) : i = j := by
  rcases lt_trichotomy i j with hlt | heq | hlt
  · exact absurd hrank (rank_lt hlt hj hid).ne
  · exact heq
  · exact absurd hrank (rank_lt hlt hi hid.symm).ne'

theorem onKey_of_admits {n : ℕ} (h : R.admits n = true) : R.onKey n = true := by
  simp only [admits, Bool.and_eq_true] at h
  exact h.1

/-- Below the bound of the doubles, the rank decides. -/
theorem admits_iff (hmax : R.maxRequests < 2 ^ 53) {n : ℕ} (hn : R.onKey n = true) :
    (R.admits n = true ↔ R.rank n ≤ R.maxRequests) ∧ (R.rank n ≤ R.maxRequests →
      R.decisionAt n = .ok (some (true, R.maxRequests - R.rank n))) := by
  obtain ⟨hok, herr⟩ := decisionAt_rank hn
  rw [admits, hn, Bool.true_and]
  by_cases hrank : (R.rank n : ℤ) ≤ int64Max
  · obtain ⟨hle, heq⟩ := luaInt_decides hmax hrank
    rw [hok hrank]
    unfold fixedDecision
    by_cases hadm : R.rank n ≤ R.maxRequests
    · rw [if_pos (hle.mpr hadm), heq hadm]
      exact ⟨iff_of_true rfl hadm, fun _ => rfl⟩
    · rw [if_neg (mt hle.mp hadm)]
      exact ⟨iff_of_false Bool.false_ne_true hadm, fun h => absurd h hadm⟩
  · obtain ⟨e, he⟩ := herr (not_le.mp hrank)
    have hlt : R.maxRequests < R.rank n := by
      simp only [int64Max] at hrank
      omega
    rw [he]
    exact ⟨iff_of_false Bool.false_ne_true hlt.not_ge, fun h => absurd h hlt.not_ge⟩

theorem card_window_le (hmax : R.maxRequests < 2 ^ 53) (S : Finset ℕ) (q : ℕ)
    (hS : ∀ n ∈ S, R.admits n = true ∧ R.idAt n = q) : S.card ≤ R.maxRequests := by
  have hcard : S.card ≤ (Finset.Icc 1 R.maxRequests).card := by
    refine Finset.card_le_card_of_injOn R.rank ?_ ?_
    · intro n hn
      obtain ⟨hadm, -⟩ := hS n hn
      have hkey := onKey_of_admits hadm
      rw [Finset.mem_coe, Finset.mem_Icc]
      exact ⟨by rw [rank_eq hkey]; omega, (admits_iff hmax hkey).1.mp hadm⟩
    · intro i hi j hj hrank
      obtain ⟨hi, hqi⟩ := hS i hi
      obtain ⟨hj, hqj⟩ := hS j hj
      exact rank_inj (onKey_of_admits hi) (onKey_of_admits hj) (hqi.trans hqj.symm) hrank
  rwa [Nat.card_Icc, Nat.add_sub_cancel] at hcard

/-! ## Intervals -/

omit [F64 ν] in
/-- A reading lies in the window of its id. -/
theorem idAt_bounds {n : ℕ} (hn : R.onKey n = true) :
    (R.idAt n : ℤ) * R.window ≤ (R.calls n).env.unix ∧
      (R.calls n).env.unix < (R.idAt n : ℤ) * R.window + R.window := by
  obtain ⟨key', -, -, hprompt⟩ := onKey_op hn
  have hreading : asU64 (Duration.asMillis (R.calls n).env.unix.toNat) =
      Duration.asMillis (R.calls n).env.unix.toNat := by
    have haccepted := hprompt.accepted
    have httl := luaInt_fixedTtl_pos R.window
    have := hprompt.after
    simp only [int64Max] at haccepted
    exact asU64_of_lt (by omega)
  have hmillis := windowMillis_eq R
  have hwindow : R.window = 1000000 * R.windowMs := mul_comm _ _
  have hpos : 0 < R.window := by
    have := R.windowMs_pos
    omega
  have hid : R.idAt n = (R.calls n).env.unix.toNat / R.window := by
    rw [idAt, windowIdAt, hreading, hmillis, Duration.asMillis, Nat.div_div_eq_div_mul, hwindow]
  have hunix := hprompt.unix_nonneg
  have hlow : R.idAt n * R.window ≤ (R.calls n).env.unix.toNat := by
    rw [hid]
    exact Nat.div_mul_le_self _ _
  have hhigh : (R.calls n).env.unix.toNat < R.idAt n * R.window + R.window := by
    rw [hid]
    exact Nat.lt_div_mul_add hpos
  rw [← Nat.cast_mul]
  omega

theorem card_interval_le (hmax : R.maxRequests < 2 ^ 53) (S : Finset ℕ) (t : ℤ)
    (hS : ∀ n ∈ S, R.admits n = true ∧ t ≤ (R.calls n).env.unix ∧
      (R.calls n).env.unix < t + R.window) : S.card ≤ 2 * R.maxRequests := by
  have hpos : (0 : ℤ) < R.window := by
    have := R.windowMs_pos
    simp only [window, Duration.fromMillis]
    omega
  have hspaced : Spaced R.window (fun n => (R.idAt n : ℤ) * R.window) S := by
    intro i _ j _
    rcases lt_trichotomy (R.idAt i : ℤ) (R.idAt j) with hlt | heq | hlt
    · exact .inr (.inl (by nlinarith))
    · exact .inl (congrArg (fun q : ℤ => q * R.window) heq)
    · exact .inr (.inr (by nlinarith))
  refine hspaced.card_le hpos (t - R.window + 1) 2 R.maxRequests ?_ ?_
  · intro n hn
    obtain ⟨hadm, hlow, hhigh⟩ := hS n hn
    obtain ⟨hstart, hend⟩ := idAt_bounds (onKey_of_admits hadm)
    push_cast
    constructor
    · linarith
    · linarith
  · intro v
    rcases (S.filter fun n => (R.idAt n : ℤ) * R.window = v).eq_empty_or_nonempty with
      hempty | ⟨i, hi⟩
    · rw [hempty]
      exact Nat.zero_le _
    · refine card_window_le hmax _ (R.idAt i) ?_
      intro n hn
      rw [Finset.mem_filter] at hi hn
      have heq : (R.idAt n : ℤ) = R.idAt i :=
        mul_right_cancel₀ hpos.ne' (hn.2.trans hi.2.symm)
      exact ⟨(hS n hn.1).1, by exact_mod_cast heq⟩

/-! ## The law of the window -/

/-- **The fixed window across instances**, for limits below `2 ^ 53`: an
    execution is admitted exactly when its rank in its window is at most the
    limit, and reports what is left of it; no window admits more than the limit,
    and no interval of its length more than twice the limit. -/
theorem redisFixed_by_rank (R : FixedRun ν) (hmax : R.maxRequests < 2 ^ 53) :
    (∀ n, R.onKey n = true → (R.admits n = true ↔ R.rank n ≤ R.maxRequests) ∧
      (R.rank n ≤ R.maxRequests →
        R.decisionAt n = .ok (some (true, R.maxRequests - R.rank n)))) ∧
    (∀ n took, R.onKey n = true → (R.calls n).env.delivery = .answered took →
      took ≤ R.store.operationTimeout →
      outputAt R.step R.start R.calls n = R.decisionAt n) ∧
    (∀ q N, ((Finset.range N).filter fun n => R.admits n = true ∧ R.idAt n = q).card ≤
      R.maxRequests) ∧
    (∀ t N, ((Finset.range N).filter fun n => R.admits n = true ∧
      t ≤ (R.calls n).env.unix ∧ (R.calls n).env.unix < t + R.window).card ≤
        2 * R.maxRequests) := by
  refine ⟨?_, ?_, ?_, ?_⟩
  · intro n hn
    exact admits_iff hmax hn
  · intro n took hn hanswered htook
    obtain ⟨key', hop, hdigest, hprompt⟩ := onKey_op hn
    rw [decisionAt_eq hn, outputAt]
    generalize stateAt R.step R.start R.calls n = db
    simp only [step, serve, hop]
    rw [fixedWindowCheck_eq hprompt.unix_nonneg, hdigest]
    simp only
    rw [withOpTimeout_answered hanswered htook]
    rfl
  · intro q N
    exact card_window_le hmax _ q fun n hn => (Finset.mem_filter.mp hn).2
  · intro t N
    exact card_interval_le hmax _ t fun n hn => (Finset.mem_filter.mp hn).2

/-! ## A limit beyond the doubles -/

/-- A check in the first millisecond of the epoch. -/
def firstMoment : RedisEnv := ⟨0, 0, .answered 0⟩

theorem firstMoment_prompt : Prompt (Duration.fromMillis 1000) firstMoment where
  executed := rfl
  unix_nonneg := le_rfl
  after := by decide
  within := by decide
  accepted := by decide +kernel

/-- Checks of one key in the first millisecond, with windows of a second. -/
def constantRun (maxRequests : ℕ) (hpos : 1 ≤ maxRequests) : FixedRun ℚ where
  store := ⟨"ratelimit", defaultOperationTimeout⟩
  keyDigest := ArmatureRatelimit.keyDigest sampleSha256
  key := "visitor"
  maxRequests := maxRequests
  maxRequests_pos := hpos
  windowMs := 1000
  windowMs_pos := by decide
  windowMs_lt := by decide
  start := ∅
  fresh _ := rfl
  calls _ := ⟨firstMoment, .fixedWindow "visitor" maxRequests (Duration.fromMillis 1000)⟩
  noReset _ := rfl
  limit _ _ _ _ hop _ := by
    obtain ⟨-, rfl, rfl⟩ := RedisOp.fixedWindow.inj hop
    exact ⟨rfl, rfl⟩
  prompt _ _ _ _ _ _ := firstMoment_prompt

theorem constantRun_onKey (maxRequests : ℕ) (hpos : 1 ≤ maxRequests) (n : ℕ) :
    (constantRun maxRequests hpos).onKey n = true := decide_eq_true rfl

theorem constantRun_rank (maxRequests : ℕ) (hpos : 1 ≤ maxRequests) (n : ℕ) :
    (constantRun maxRequests hpos).rank n = n + 1 := by
  rw [rank, countOf, Finset.filter_true_of_mem, Finset.card_range]
  intro i _
  exact ⟨constantRun_onKey maxRequests hpos i, rfl⟩

theorem redisFixed_by_rank_three :
    (constantRun 2 (by decide)).admits 2 = false := by
  have h := ((redisFixed_by_rank (constantRun 2 (by decide)) (by decide)).1 2
    (constantRun_onKey _ _ 2)).1
  rw [constantRun_rank] at h
  rw [← Bool.not_eq_true, h]
  decide

/-- With a limit of `2 ^ 53` the next execution is admitted too: its count is
    rounded to the limit. -/
theorem constantRun_exceeds :
    (constantRun (2 ^ 53) (by norm_num)).onKey (2 ^ 53) = true ∧
      (constantRun (2 ^ 53) (by norm_num)).admits (2 ^ 53) = true ∧
      ¬ (constantRun (2 ^ 53) (by norm_num)).rank (2 ^ 53) ≤
        (constantRun (2 ^ 53) (by norm_num)).maxRequests := by
  have hkey := constantRun_onKey (2 ^ 53) (by norm_num) (2 ^ 53)
  have hrank := constantRun_rank (2 ^ 53) (by norm_num) (2 ^ 53)
  have hnot : ¬ (constantRun (2 ^ 53) (by norm_num)).rank (2 ^ 53) ≤
      (constantRun (2 ^ 53) (by norm_num)).maxRequests := by
    rw [hrank]
    exact Nat.not_succ_le_self (2 ^ 53)
  refine ⟨hkey, ?_, hnot⟩
  have hdecision := (decisionAt_rank hkey).1 (by rw [hrank]; decide)
  have hround : luaInt ((2 ^ 53 + 1 : ℕ) : ℤ) = 2 ^ 53 := by decide +kernel
  rw [hrank, hround] at hdecision
  rw [admits, hkey, hdecision]
  rfl

end FixedRun

end ArmatureRatelimit
