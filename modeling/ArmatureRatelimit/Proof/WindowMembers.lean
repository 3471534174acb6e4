/-
  The members of the sliding log in Redis (`stores/redis.rs`).

  A member ends with the text of the number that the counter gave it.  The counter
  restarts when its key goes, and then the set has gone with it: the two share a
  deadline and are unlinked together (`Companions`).  So a granted request adds a
  member that was not there as long as the text tells the numbers apart, which the
  numbers `10 ^ 14` and `10 ^ 14 + 1` are the first not to be
  (`slidingLog_overwrites`).  The set does not expire before its last stamp has
  left the window (`slidingLog_loses_nothing`).
-/
import ArmatureRatelimit.Proof.KeyNames
import ArmatureRatelimit.Proof.WindowTrace

open Lib Lib.Redis

namespace ArmatureRatelimit

open RedisStore

variable {ν : Type}

/-! ## One execution -/

/-- The members of the set are numbered by the counter, and the two keys have
    one deadline. -/
def Companions (zs cs : Option (Entry ν)) : Prop :=
  Tracks (fun _ => False) (fun _ => 0) (fun _ => 0) zs cs

theorem Tracks.companions {alive : ℕ → Prop} {stamp deadline : ℕ → ℤ} {zs cs : Option (Entry ν)}
    (h : Tracks alive stamp deadline zs cs) : Companions zs cs := by
  cases h with
  | fresh _ => exact .fresh fun _ hj => hj
  | missing _ q d => exact .missing (fun _ hj => hj) q d
  | present holds _ =>
    exact .present ⟨holds.numbered, fun _ => "", fun _ hj => hj.elim, fun _ _ hj => hj.elim⟩
      fun _ hj => hj.elim

theorem Companions.tracks {zs cs : Option (Entry ν)} (h : Companions zs cs)
    (stamp deadline : ℕ → ℤ) : Tracks (fun _ => False) stamp deadline zs cs := by
  cases h with
  | fresh hnone => exact .fresh hnone
  | missing hnone q d => exact .missing hnone q d
  | present holds _ =>
    exact .present ⟨holds.numbered, fun _ => "", fun _ hj => hj.elim, fun _ _ hj => hj.elim⟩
      fun _ hj => hj.elim

section
variable {K : WindowKeys} {server windowSecs : ℤ} {db : Db ν}

theorem Companions.script (h : Companions (db.lookup K.key) (db.lookup K.seqkey))
    (hpos : 0 ≤ windowSecs) (maxRequests now cutoff : ℤ) :
    Companions ((windowScript K server maxRequests now cutoff windowSecs db).2.lookup K.key)
      ((windowScript K server maxRequests now cutoff windowSecs db).2.lookup K.seqkey) :=
  ((h.tracks (fun _ => luaInt now) fun _ => server + 1000 * slidingTtl windowSecs).script
    (fun _ => False) maxRequests (n := 0) id rfl hpos rfl (fun _ hj => hj.elim)
    (fun _ hj => hj.elim) fun _ hj => hj.elim).1.companions

/-- The set after a request that was granted: what was left after pruning, and
    the stamp of the request under the member that its number gives it. -/
def GrowsBy (K : WindowKeys) (server windowSecs now cutoff : ℤ) (db db' : Db ν) : Prop :=
  ∃ z d d', ∃ q : ℕ, zsetAt server K.key db = some (z, d) ∧
    intAt server K.seqkey db = some ((q : ℤ), d') ∧
    (q < 10 ^ 14 →
      (keptStamps cutoff z).lookup (stampMember (luaInt now) (luaInt (q + 1))) = none) ∧
    server + 1000 * slidingTtl windowSecs ≤ int64Max ∧
    db'.lookup K.key = some ⟨.zset ((keptStamps cutoff z).insert
      (stampMember (luaInt now) (luaInt (q + 1))) (luaInt now)),
      some (server + 1000 * slidingTtl windowSecs)⟩

/-- **What the script does to the set.** -/
theorem Companions.key_cases (h : Companions (db.lookup K.key) (db.lookup K.seqkey))
    (hpos : 0 ≤ windowSecs) (maxRequests now cutoff : ℤ) :
    (¬ Granted (windowScript K server maxRequests now cutoff windowSecs db).1 ∧
      ((windowScript K server maxRequests now cutoff windowSecs db).2.lookup K.key =
          db.lookup K.key ∨
        (windowScript K server maxRequests now cutoff windowSecs db).2.lookup K.key =
          prunedEntry server cutoff (db.lookup K.key))) ∨
    (Granted (windowScript K server maxRequests now cutoff windowSecs db).1 ∧
      GrowsBy K server windowSecs now cutoff db
        (windowScript K server maxRequests now cutoff windowSecs db).2) := by
  by_cases hvalid : server + 1000 * slidingTtl windowSecs ≤ int64Max
  · obtain ⟨z, d, d', q, hz, hq, hholds, -⟩ := Tracks.views h server cutoff
    by_cases hroom : FindsRoom maxRequests (keptStamps cutoff z).size ∧ (q : ℤ) ≠ int64Max
    · obtain ⟨db', hrun, hkey, -⟩ :=
        slidingWindowScript_grant hpos hvalid hz hq hroom.1 hroom.2 now
      rw [hrun]
      refine .inr ⟨⟨_, rfl⟩, z, d, d', q, hz, hq, fun hrange => ?_, hvalid, hkey⟩
      -- a member of that number would be numbered beyond the counter
      by_contra hmem
      obtain ⟨s, hs⟩ := Option.ne_none_iff_exists'.mp hmem
      obtain ⟨i, hi, heq⟩ := (hholds.prune cutoff).numbered _ s hs
      have hne := stampMember_ne (a := s) (b := luaInt now) hi hrange
      push_cast at hne
      exact hne heq.symm
    · obtain ⟨db', r, hrun, hnot, hkey, -⟩ :=
        slidingWindowScript_refuse hpos hvalid hz hq hroom now
      rw [hrun]
      exact .inl ⟨fun ⟨n, hn⟩ => hnot n hn, .inr hkey⟩
  · obtain ⟨msg, hrun⟩ := slidingWindowScript_invalid K server maxRequests now cutoff
      windowSecs db (not_le.mp hvalid)
    rw [hrun]
    refine .inl ⟨?_, .inl rfl⟩
    rintro ⟨n, hn⟩
    cases hn

end

/-! ## Runs -/

/-- An execution of the script, by whichever instance, at a moment of the
    server's clock, or the first `UNLINK` of a reset. -/
inductive WindowEvent
  | check (server maxRequests window : ℕ) (now : ℤ)
  | unlink

/-- Executions and resets of one key, which starts missing. -/
structure MemberRun (ν : Type) where
  store : RedisStore
  keyDigest : String → String
  key : String
  start : Db ν
  fresh_key : start.lookup (windowKeys store (keyDigest key)).key = none
  fresh_seq : start.lookup (windowKeys store (keyDigest key)).seqkey = none
  events : ℕ → WindowEvent

namespace MemberRun

section
variable (R : MemberRun ν)

def keys : WindowKeys := windowKeys R.store (R.keyDigest R.key)

/-- The script of a check with these arguments. -/
def script (server maxRequests window : ℕ) (now : ℤ) : Script ν (ℤ × ℤ) :=
  windowScript R.keys server maxRequests now (now - asI64 (Duration.asMillis window))
    (Duration.asSecs window : ℕ)

def step : WindowEvent → Db ν → Option (Except String (ℤ × ℤ)) × Db ν
  | .check server maxRequests window now, db =>
    (some (R.script server maxRequests window now db).1,
      (R.script server maxRequests window now db).2)
  | .unlink, db => (none, (Lib.Redis.unlink (R.store.fixedKeys R.keyDigest R.key) db).2)

/-- Execution `n` adds a member that was not there, and `ZCARD` grows by one. -/
def AddsMember (n server window : ℕ) (now : ℤ) : Prop :=
  ∃ z d member,
    zsetAt server R.keys.key (stateAt R.step R.start R.events n) = some (z, d) ∧
    (keptStamps (now - asI64 (Duration.asMillis window)) z).lookup member = none ∧
    zsetAt server R.keys.key (stateAt R.step R.start R.events (n + 1)) =
      some ((keptStamps (now - asI64 (Duration.asMillis window)) z).insert member (luaInt now),
        some (server + 1000 * slidingTtl (Duration.asSecs window))) ∧
    (zcard server R.keys.key (stateAt R.step R.start R.events (n + 1))).1 =
      .ok ((keptStamps (now - asI64 (Duration.asMillis window)) z).size + 1)

end

variable {R : MemberRun ν}

theorem unlink_lookup (R : MemberRun ν) (db : Db ν) :
    (R.step .unlink db).2.lookup R.keys.key = none ∧
      (R.step .unlink db).2.lookup R.keys.seqkey = none := by
  have hkey : R.keys.key ∈ R.store.fixedKeys R.keyDigest R.key := by
    simp [fixedKeys, keys, windowKeys]
  have hseq : R.keys.seqkey ∈ R.store.fixedKeys R.keyDigest R.key := by
    simp [fixedKeys, keys, windowKeys]
  constructor
  · exact (KeyMap.lookup_removeAll _ _ _).trans (if_pos hkey)
  · exact (KeyMap.lookup_removeAll _ _ _).trans (if_pos hseq)

theorem companions (R : MemberRun ν) (n : ℕ) :
    Companions ((stateAt R.step R.start R.events n).lookup R.keys.key)
      ((stateAt R.step R.start R.events n).lookup R.keys.seqkey) := by
  refine stateAt_inv (P := fun _ (db : Db ν) =>
    Companions (db.lookup R.keys.key) (db.lookup R.keys.seqkey)) ?_ ?_ n
  · have hkey : R.start.lookup R.keys.key = none := R.fresh_key
    have hseq : R.start.lookup R.keys.seqkey = none := R.fresh_seq
    rw [hkey, hseq]
    exact .fresh fun _ hj => hj
  · intro n db h
    cases R.events n with
    | check server maxRequests window now =>
      exact h.script (Int.natCast_nonneg _) _ _ _
    | unlink =>
      obtain ⟨hkey, hseq⟩ := R.unlink_lookup db
      rw [hkey, hseq]
      exact .fresh fun _ hj => hj

/-- What a granted check leaves is there for the moment. -/
theorem zsetAt_grown (R : MemberRun ν) {server window n : ℕ} {db : Db ν} {z : KeyMap String ℤ}
    (hstate : stateAt R.step R.start R.events (n + 1) = db)
    (hkey : db.lookup R.keys.key =
      some ⟨.zset z, some (server + 1000 * slidingTtl (Duration.asSecs window))⟩) :
    zsetAt server R.keys.key (stateAt R.step R.start R.events (n + 1)) =
      some (z, some (server + 1000 * slidingTtl (Duration.asSecs window))) := by
  have httl := slidingTtl_pos (Int.natCast_nonneg (Duration.asSecs window))
  have hlive : Entry.live (server : ℤ) (⟨.zset z,
      some (server + 1000 * slidingTtl (Duration.asSecs window))⟩ : Entry ν) = true :=
    decide_eq_true (by omega)
  refine viewAt_some (v := .zset z) ?_ rfl
  rw [hstate, find_of_lookup hkey, if_pos hlive]

/-! ## Expiry -/

section
variable (R : MemberRun ν) (windowMs : ℕ)

/-- All checks have one window of whole milliseconds, and their readings do not
    go back and are within four seconds of the server's clock. -/
structure Steady : Prop where
  window_eq : ∀ n server maxRequests window now,
    R.events n = .check server maxRequests window now → window = Duration.fromMillis windowMs
  near : ∀ n server maxRequests window now,
    R.events n = .check server maxRequests window now → |now - server| ≤ 4000
  inOrder : ∀ i j server maxRequests window now server' maxRequests' window' now', i ≤ j →
    R.events i = .check server maxRequests window now →
    R.events j = .check server' maxRequests' window' now' → now ≤ now'

/-- Before event `n`, the stamps of the set are those of readings that are not
    after the reading of any check to come, and the set outlasts them by its time
    to live, up to four seconds. -/
def Timely (n : ℕ) (e : Option (Entry ν)) : Prop :=
  ∀ z d, e = some ⟨.zset z, d⟩ → ∃ dl, d = some dl ∧ ∀ m s, z.lookup m = some s →
    ∃ now, s = luaInt now ∧
      (∀ j server maxRequests window now', n ≤ j →
        R.events j = .check server maxRequests window now' → now ≤ now') ∧
      now + 1000 * ((windowMs / 1000 : ℕ) + 9) ≤ dl + 4000

end

variable {windowMs : ℕ}

theorem Timely.next {n : ℕ} {e : Option (Entry ν)} (h : R.Timely windowMs n e) :
    R.Timely windowMs (n + 1) e := by
  intro z d he
  obtain ⟨dl, hd, hall⟩ := h z d he
  refine ⟨dl, hd, ?_⟩
  intro m s hs
  obtain ⟨now, hnow, hle, hlast⟩ := hall m s hs
  exact ⟨now, hnow, fun j _ _ _ _ hj => hle j _ _ _ _ (by omega), hlast⟩

theorem Timely.pruned {n : ℕ} {e : Option (Entry ν)} (h : R.Timely windowMs n e)
    (server cutoff : ℤ) : R.Timely windowMs n (prunedEntry server cutoff e) := by
  intro z d he
  obtain ⟨z₀, rfl, rfl | rfl⟩ := prunedEntry_cases he
  · exact h z d rfl
  · obtain ⟨dl, hd, hall⟩ := h z₀ d rfl
    refine ⟨dl, hd, ?_⟩
    intro m s hs
    rw [keptStamps, KeyMap.lookup_retain, Option.filter_eq_some_iff] at hs
    exact hall m s hs.1

/-- What a granted request leaves. -/
theorem Timely.grown {n server maxRequests window : ℕ} {now cutoff : ℤ} {db db' : Db ν}
    (hsteady : R.Steady windowMs) (hn : R.events n = .check server maxRequests window now)
    (h : R.Timely windowMs n (db.lookup R.keys.key))
    (hgrow : GrowsBy R.keys server (Duration.asSecs window) now cutoff db db') :
    R.Timely windowMs (n + 1) (db'.lookup R.keys.key) := by
  obtain ⟨z, d, d', q, hz, -, -, hvalid, hkey⟩ := hgrow
  have hsecs : Duration.asSecs window = windowMs / 1000 := by
    rw [hsteady.window_eq n _ _ _ _ hn, Duration.asSecs_fromMillis]
  have hnear := (abs_le.mp (hsteady.near n _ _ _ _ hn)).2
  rw [int64Max] at hvalid
  have httl := slidingTtl_ge (Int.natCast_nonneg (Duration.asSecs window)) (by omega)
  rw [hsecs] at httl hkey
  intro z' d'' he
  rw [hkey] at he
  obtain ⟨⟨⟩, rfl⟩ := Entry.mk.inj (Option.some.inj he)
  refine ⟨_, rfl, ?_⟩
  intro m s hs
  have hnow : ∀ j server maxRequests window now', n + 1 ≤ j →
      R.events j = .check server maxRequests window now' → now ≤ now' :=
    fun j _ _ _ _ hj hev => hsteady.inOrder n j _ _ _ _ _ _ _ _ (by omega) hn hev
  -- the stamp is the new one or an earlier one
  rw [KeyMap.lookup_insert_eq_ite] at hs
  split_ifs at hs
  · exact ⟨now, (Option.some.inj hs).symm, hnow, by omega⟩
  · rw [keptStamps, KeyMap.lookup_retain, Option.filter_eq_some_iff] at hs
    rcases viewAt_cases hz with ⟨-, rfl, -⟩ | ⟨v, hfind, hv⟩
    · rw [AList.lookup_empty] at hs
      cases hs.1
    · cases v <;> cases hv
      obtain ⟨dl, -, hall⟩ := h _ _ (Option.filter_eq_some_iff.mp hfind).1
      obtain ⟨now₀, rfl, hle, -⟩ := hall m s hs.1
      have hbefore := hle n _ _ _ _ le_rfl hn
      exact ⟨now₀, rfl, fun j _ _ _ _ hj hev => hle j _ _ _ _ (by omega) hev, by omega⟩

theorem timely (R : MemberRun ν) (hsteady : R.Steady windowMs) (n : ℕ) :
    R.Timely windowMs n ((stateAt R.step R.start R.events n).lookup R.keys.key) := by
  induction n with
  | zero =>
    intro z d he
    have hnone : R.start.lookup R.keys.key = none := R.fresh_key
    exact absurd (hnone.symm.trans he) (by simp)
  | succ n ih =>
    rw [stateAt_succ]
    generalize hdb : stateAt R.step R.start R.events n = db at ih
    have hcomp := R.companions n
    rw [hdb] at hcomp
    cases hev : R.events n with
    | unlink =>
      intro z d he
      rw [(R.unlink_lookup db).1] at he
      cases he
    | check server maxRequests window now =>
      rcases hcomp.key_cases (Int.natCast_nonneg _) maxRequests now
        (now - asI64 (Duration.asMillis window)) with ⟨-, hkey | hkey⟩ | ⟨-, hgrow⟩
      · exact (congrArg (R.Timely windowMs (n + 1)) hkey).mpr ih.next
      · exact (congrArg (R.Timely windowMs (n + 1)) hkey).mpr (ih.next.pruned _ _)
      · exact Timely.grown hsteady hev ih hgrow

/-- **The sliding log loses nothing.**  In every run a granted request that finds
    the counter in the range of the texts adds a member that was not in the set,
    and `ZCARD` grows by one.  In a steady run, if the set has expired when a check
    executes, none of its stamps is in the window of that check or of a later
    one. -/
theorem slidingLog_loses_nothing (R : MemberRun ν) :
    (∀ n server maxRequests window now remaining,
      R.events n = .check server maxRequests window now →
      outputAt R.step R.start R.events n = some (.ok (1, remaining)) →
      integerAt server R.keys.seqkey (stateAt R.step R.start R.events n) < 10 ^ 14 →
      R.AddsMember n server window now) ∧
    (∀ windowMs, R.Steady windowMs → ∀ n z deadline,
      (stateAt R.step R.start R.events n).lookup R.keys.key = some ⟨.zset z, some deadline⟩ →
      ∀ i server maxRequests window now,
        R.events i = .check server maxRequests window now → deadline < server →
      ∀ j server' maxRequests' window' now', i ≤ j →
        R.events j = .check server' maxRequests' window' now' →
        ∀ m score, z.lookup m = some score → score ≤ luaInt (now' - windowMs)) := by
  constructor
  · intro n server maxRequests window now remaining hev hout hcount
    have hgranted : Granted (R.script server maxRequests window now
        (stateAt R.step R.start R.events n)).1 := by
      rw [outputAt, hev] at hout
      exact ⟨remaining, Option.some.inj hout⟩
    have hstate : stateAt R.step R.start R.events (n + 1) =
        (R.script server maxRequests window now (stateAt R.step R.start R.events n)).2 := by
      rw [stateAt_succ, hev]
      rfl
    rcases (R.companions n).key_cases (Int.natCast_nonneg _) maxRequests now
      (now - asI64 (Duration.asMillis window)) with
      ⟨hnot, -⟩ | ⟨-, z, d, d', q, hz, hq, hnew, -, hkey⟩
    · exact absurd hgranted hnot
    · rw [integerAt_eq hq] at hcount
      have hnone := hnew (by exact_mod_cast hcount)
      have hview := R.zsetAt_grown hstate hkey
      refine ⟨z, d, _, hz, hnone, hview, ?_⟩
      rw [zcard_zsetAt hview, KeyMap.size_insert, if_pos hnone]
  · intro windowMs hsteady n z deadline hkey i server maxRequests window now hi hdead
      j server' maxRequests' window' now' hij hj m score hscore
    obtain ⟨dl, hdl, hall⟩ := R.timely hsteady n z _ hkey
    obtain rfl := Option.some.inj hdl
    obtain ⟨stamped, rfl, -, hlast⟩ := hall m score hscore
    have hnear := (abs_le.mp (hsteady.near i _ _ _ _ hi)).1
    have hmono := hsteady.inOrder i j _ _ _ _ _ _ _ _ hij hi hj
    exact luaInt_mono (by omega)

/-- Two requests of a minute's window in one millisecond, and others 200 s
    later, when the set has expired. -/
def burst : MemberRun ℚ where
  store := ⟨"ratelimit", defaultOperationTimeout⟩
  keyDigest := ArmatureRatelimit.keyDigest sampleSha256
  key := "visitor"
  start := ∅
  fresh_key := rfl
  fresh_seq := rfl
  events n := .check (if n < 2 then 0 else 200000) 2 (Duration.fromSecs 60)
    (if n < 2 then 0 else 200000)

theorem burst_steady : burst.Steady 60000 where
  window_eq n server maxRequests window now hev := by
    obtain ⟨-, -, rfl, -⟩ := WindowEvent.check.inj hev
    rfl
  near n server maxRequests window now hev := by
    obtain ⟨rfl, -, -, rfl⟩ := WindowEvent.check.inj hev
    simp
  inOrder i j _ _ _ now _ _ _ now' hij hi hj := by
    obtain ⟨-, -, -, rfl⟩ := WindowEvent.check.inj hi
    obtain ⟨-, -, -, rfl⟩ := WindowEvent.check.inj hj
    split_ifs <;> omega

theorem burst_loses_nothing : burst.AddsMember 1 0 (Duration.fromSecs 60) 0 ∧
    ∀ z, (stateAt burst.step burst.start burst.events 2).lookup burst.keys.key =
        some ⟨.zset z, some 70000⟩ →
      ∀ m score, z.lookup m = some score → score ≤ luaInt (200000 - (60000 : ℕ)) := by
  obtain ⟨hgrow, hexpiry⟩ := slidingLog_loses_nothing burst
  constructor
  · exact hgrow 1 0 2 (Duration.fromSecs 60) 0 0 rfl (by decide +kernel) (by decide +kernel)
  · intro z hz
    exact hexpiry 60000 burst_steady 2 z 70000 hz 2 200000 2 (Duration.fromSecs 60) 200000 rfl
      (by decide) 2 200000 2 (Duration.fromSecs 60) 200000 le_rfl rfl

/-! ## The end of the range -/

/-- What `n` requests of one millisecond leave, none of them refused: the counter is
    `n`, and one of the members has its number. -/
def Endless (K : WindowKeys) (server now : ℤ) (n : ℕ) (db : Db ν) : Prop :=
  ∃ z d d', zsetAt server K.key db = some (z, d) ∧ intAt server K.seqkey db = some ((n : ℤ), d') ∧
    z.size ≤ n ∧ (∀ m s, z.lookup m = some s → s = luaInt now) ∧
    (0 < n → (z.lookup (stampMember (luaInt now) (luaInt n))).isSome)

/-- What the next one does. -/
theorem Endless.next {K : WindowKeys} {server now cutoff windowSecs : ℤ} {maxRequests n : ℕ}
    {db : Db ν} (h : Endless K server now n db) (hn : n < maxRequests)
    (hmax : maxRequests < 2 ^ 53) (hcutoff : luaInt cutoff < luaInt now) (hpos : 0 ≤ windowSecs)
    (hvalid : server + 1000 * slidingTtl windowSecs ≤ int64Max) :
    Granted (windowScript K server maxRequests now cutoff windowSecs db).1 ∧
      Endless K server now (n + 1)
        (windowScript K server maxRequests now cutoff windowSecs db).2 ∧
      ∃ z d d', zsetAt server K.key db = some (z, d) ∧ keptStamps cutoff z = z ∧
        zsetAt server K.key (windowScript K server maxRequests now cutoff windowSecs db).2 =
          some (z.insert (stampMember (luaInt now) (luaInt (n + 1))) (luaInt now), d') := by
  obtain ⟨z, d, d', hz, hq, hsize, hstamps, -⟩ := h
  have hkept : keptStamps cutoff z = z := by
    refine KeyMap.retain_eq_self fun m s hs => ?_
    rw [hstamps m s hs]
    exact decide_eq_true (.inr hcutoff)
  have hroom : FindsRoom maxRequests (keptStamps cutoff z).size := by
    rw [hkept]
    exact (findsRoom_iff hmax).mpr (hsize.trans_lt hn)
  have hover : (n : ℤ) ≠ int64Max := by
    rw [int64Max]
    omega
  obtain ⟨db', hrun, hkey, hseq⟩ := slidingWindowScript_grant hpos hvalid hz hq hroom hover now
  have httl := slidingTtl_pos hpos
  have hlive : server ≤ server + 1000 * slidingTtl windowSecs := by omega
  rw [hkept] at hkey
  have hz' : zsetAt server K.key db' = _ := viewAt_some (v := .zset _)
    ((find_of_lookup hkey).trans (if_pos (decide_eq_true hlive))) rfl
  have hq' : intAt server K.seqkey db' = _ := viewAt_some (v := .int _)
    ((find_of_lookup hseq).trans (if_pos (decide_eq_true hlive))) rfl
  rw [hrun]
  refine ⟨⟨_, rfl⟩, ⟨_, _, _, hz', by exact_mod_cast hq', ?_, ?_, ?_⟩, z, d, _, hz, hkept, hz'⟩
  · rw [KeyMap.size_insert]
    split_ifs <;> omega
  · intro m s hs
    rw [KeyMap.lookup_insert_eq_ite] at hs
    split_ifs at hs
    · exact (Option.some.inj hs).symm
    · exact hstamps m s hs
  · intro _
    push_cast
    rw [AList.lookup_insert]
    rfl

/-- A check of a minute's window in the first millisecond, again and again. -/
def endless : MemberRun ℚ where
  store := ⟨"ratelimit", defaultOperationTimeout⟩
  keyDigest := ArmatureRatelimit.keyDigest sampleSha256
  key := "visitor"
  start := ∅
  fresh_key := rfl
  fresh_seq := rfl
  events _ := .check 0 (2 ^ 50) (Duration.fromSecs 60) 0

theorem endless_next {n : ℕ} (hn : n < 2 ^ 50)
    (h : Endless endless.keys 0 0 n (stateAt endless.step endless.start endless.events n)) :
    (∃ remaining, outputAt endless.step endless.start endless.events n =
        some (.ok (1, remaining))) ∧
      Endless endless.keys 0 0 (n + 1)
        (stateAt endless.step endless.start endless.events (n + 1)) ∧
      ∃ z d d', zsetAt 0 endless.keys.key (stateAt endless.step endless.start endless.events n) =
          some (z, d) ∧
        keptStamps (0 - asI64 (Duration.asMillis (Duration.fromSecs 60))) z = z ∧
        zsetAt 0 endless.keys.key (stateAt endless.step endless.start endless.events (n + 1)) =
          some (z.insert (stampMember (luaInt 0) (luaInt (n + 1))) (luaInt 0), d') := by
  obtain ⟨⟨left, hleft⟩, hnext⟩ := h.next hn (by decide)
    (by decide +kernel :
      luaInt (0 - asI64 (Duration.asMillis (Duration.fromSecs 60))) < luaInt 0)
    (Int.natCast_nonneg (Duration.asSecs (Duration.fromSecs 60))) (by decide +kernel)
  exact ⟨⟨left, congrArg some hleft⟩, hnext⟩

theorem endless_stateAt {n : ℕ} (hn : n ≤ 2 ^ 50) :
    Endless endless.keys 0 0 n (stateAt endless.step endless.start endless.events n) := by
  induction n with
  | zero =>
    refine ⟨∅, none, none, rfl, rfl, le_rfl, ?_, fun h => absurd h (Nat.lt_irrefl 0)⟩
    intro m s hs
    rw [AList.lookup_empty] at hs
    cases hs
  | succ n ih => exact (endless_next hn (ih (Nat.le_of_succ_le hn))).2.1

/-- **The numbers `10 ^ 14` and `10 ^ 14 + 1` have one text**: the second request is
    granted, and its stamp takes the place of the first one's. -/
theorem slidingLog_overwrites :
    endless.events (10 ^ 14) = .check 0 (2 ^ 50) (Duration.fromSecs 60) 0 ∧
      (∃ remaining, outputAt endless.step endless.start endless.events (10 ^ 14) =
        some (.ok (1, remaining))) ∧
      ¬ endless.AddsMember (10 ^ 14) 0 (Duration.fromSecs 60) 0 := by
  have htext : stampMember (luaInt 0) (luaInt ((10 ^ 14 : ℕ) + 1)) =
    stampMember (luaInt 0) (luaInt (10 ^ 14 : ℕ)) := by decide +kernel
  have hpos : 0 < 10 ^ 14 := by decide
  have hle : 10 ^ 14 < 2 ^ 50 := by decide
  generalize 10 ^ 14 = n at htext hpos hle
  have hbefore := endless_stateAt hle.le
  obtain ⟨hgranted, -, z, d, d', hz, hkept, hz'⟩ := endless_next hle hbefore
  refine ⟨rfl, hgranted, ?_⟩
  rintro ⟨z₀, d₀, member, hz₀, -, -, hcard⟩
  obtain ⟨rfl, -⟩ := Prod.mk.inj (Option.some.inj (hz₀.symm.trans hz))
  obtain ⟨z₁, _, _, hz₁, -, -, -, hlast⟩ := hbefore
  obtain ⟨rfl, -⟩ := Prod.mk.inj (Option.some.inj (hz₁.symm.trans hz))
  have hsome := hlast hpos
  rw [← htext] at hsome
  have hsame : (zcard 0 endless.keys.key
      (stateAt endless.step endless.start endless.events (n + 1))).1 = _ :=
    congrArg Prod.fst (zcard_zsetAt hz')
  rw [KeyMap.size_insert, if_neg (Option.isSome_iff_ne_none.mp hsome)] at hsame
  have hcount := Except.ok.inj (hsame.symm.trans hcard)
  rw [hkept] at hcount
  omega

end MemberRun

end ArmatureRatelimit
