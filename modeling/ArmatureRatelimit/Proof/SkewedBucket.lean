/-
  The token bucket of the Redis store under skewed clocks (`stores/redis.rs`).

  The script takes the reading of its caller for the time, so a fleet whose
  clocks differ refills a bucket back and forth, and the bucket expires by the
  server's clock.  The ten seconds that the script adds to the time to live cover
  both as long as the clocks are within five seconds of the server's: a bucket
  that has expired would have been full (`HoldsBucketAt.found`).

  `redisBucket_skewed`: the requests of a tenant that a fleet admits are at most
  the capacity and the refill of the time that their executions span, with twice
  the skew added.
-/
import ArmatureRatelimit.Proof.TenantFleet
import ArmatureRatelimit.Proof.RedisBucket
import ArmatureRatelimit.Lib.Counting

open Lib Lib.Redis

namespace ArmatureRatelimit

open RedisStore

/-! ## One check -/

/-- The reading that a check sends, in seconds. -/
def sentReading (env : RedisEnv) : ℚ := Duration.secs env.unix.toNat

/-- A check leaves the key as it was and is not admitted, or as its script does,
    and is admitted only if the script grants it. -/
theorem tokenBucketCheck_executes (store : RedisStore) (keyDigest : String → String)
    (env : RedisEnv) (key : String) (capacity : ℕ) (refillRate : ℚ) (db : Db ℚ) :
    let r := store.tokenBucketCheck keyDigest env key capacity refillRate db
    let x := tokenBucketScript env.server (store.roleKey (keyDigest key) .tb)
      (capacity : ℚ) refillRate (sentReading env) db
    r.2 = db ∧ isAdmitted r.1 = false ∨
      r.2 = x.2 ∧ (isAdmitted r.1 = true → ∃ left, x.1 = .ok (1, left)) := by
  simp only [RedisStore.tokenBucketCheck, sinceEpoch]
  by_cases hunix : 0 ≤ env.unix
  · simp only [hunix, if_true]
    rw [F64.ofInt_rat, F64.ofDuration_rat]
    refine (withOpTimeout_executes store env _ _ db).imp_right ?_
    rintro ⟨hstate, hadm⟩
    refine ⟨hstate, fun h => ?_⟩
    obtain ⟨⟨code, left⟩, hok, hone⟩ := hadm h
    obtain rfl : code = 1 := eq_of_beq hone
    exact ⟨left, hok⟩
  · simp only [hunix, if_false]
    exact .inl ⟨trivial, rfl⟩

/-! ## One bucket -/

section
variable {key : String} {capacity : ℕ} {refillRate skew : ℚ}

/-- The time to live of a bucket, in seconds. -/
def bucketTtlSecs (capacity : ℕ) (refillRate : ℚ) : ℤ := ⌈(capacity : ℚ) / refillRate⌉ + 10

/-- The key holds a bucket that was written at `server` under a reading within
    `skew` of it.  By the latest reading there can have been by then the bucket
    would not be overdrawn. -/
structure HoldsBucketAt (key : String) (capacity : ℕ) (refillRate skew : ℚ) (db : Db ℚ) (server : ℤ)
    (tokens reading : ℚ) : Prop where
  entry : ∃ h, db.lookup key =
      some ⟨.hash h, some (server + 1000 * bucketTtlSecs capacity refillRate)⟩ ∧
    HoldsBucket h tokens reading
  covered : 0 ≤ tokens + refillRate * ((server / 1000 + skew) - reading)

/-- The tokens of a bucket at a later reading, refilled. -/
def levelFrom (capacity : ℕ) (refillRate tokens reading reading' : ℚ) : ℚ :=
  min (tokens + (reading' - reading) * refillRate) capacity

/-- A check finds the refilled bucket: one that has expired would be full. -/
theorem HoldsBucketAt.found {db : Db ℚ} {s s' : ℤ} {tokens reading reading' : ℚ}
    (h : HoldsBucketAt key capacity refillRate skew db s tokens reading) (hrate : 0 < refillRate)
    (hskew : 2 * skew ≤ 10) (hnear : (s' : ℚ) / 1000 - skew ≤ reading') :
    ∃ hash d, hashAt s' key db = some (hash, d) ∧
      refilled (capacity : ℚ) refillRate reading' hash =
        levelFrom capacity refillRate tokens reading reading' := by
  obtain ⟨⟨hash, hentry, hholds⟩, hcovered⟩ := h
  by_cases hlive : s' ≤ s + 1000 * bucketTtlSecs capacity refillRate
  · refine ⟨hash, some (s + 1000 * bucketTtlSecs capacity refillRate), ?_,
      hholds.refilled_rat _ _ _⟩
    refine viewAt_some ((find_live ?_).trans hentry) rfl
    intro e he
    rw [hentry] at he
    obtain rfl := Option.some.inj he
    exact decide_eq_true hlive
  · refine ⟨∅, none, viewAt_none ?_, ?_⟩
    · rw [find, hentry, Option.filter_eq_none_iff]
      intro e he
      obtain rfl := Option.some.inj he
      simpa [Entry.live] using hlive
    · rw [refilled_empty, eq_comm]
      refine min_eq_right ?_
      -- the time to live is that of a refill, and ten seconds for the clocks
      have hceil := Int.le_ceil ((capacity : ℚ) / refillRate)
      have hrefill : (capacity : ℚ) ≤ refillRate * ⌈(capacity : ℚ) / refillRate⌉ := by
        rw [div_le_iff₀ hrate] at hceil
        linarith
      have hlate : (s : ℚ) / 1000 + (⌈(capacity : ℚ) / refillRate⌉ + 10) ≤ s' / 1000 := by
        have hcast : ((s + 1000 * bucketTtlSecs capacity refillRate : ℤ) : ℚ) ≤ s' :=
          Int.cast_le.mpr (not_le.mp hlive).le
        simp only [bucketTtlSecs] at hcast
        push_cast at hcast
        linarith
      have hidle : (⌈(capacity : ℚ) / refillRate⌉ : ℚ) ≤ reading' - (s / 1000 + skew) := by
        linarith
      have hmul := mul_le_mul_of_nonneg_left hidle hrate.le
      linarith

/-- What a check that finds `level` tokens makes of the bucket. -/
theorem holdsBucketAt_next {db : Db ℚ} {s' : ℤ} {level reading' : ℚ} {hash : KeyMap String ℚ}
    {d : Option ℤ} (hb : hashAt s' key db = some (hash, d)) (hrate : 0 < refillRate)
    (hlevel : refilled (capacity : ℚ) refillRate reading' hash = level)
    (hcovered : 0 ≤ level + refillRate * ((s' / 1000 + skew) - reading'))
    (hnear : reading' ≤ (s' : ℚ) / 1000 + skew)
    (hvalid : s' + 1000 * bucketTtlSecs capacity refillRate ≤ int64Max) :
    HoldsBucketAt key capacity refillRate skew
      (tokenBucketScript s' key (capacity : ℚ) refillRate reading' db).2 s' (taken level)
      reading' := by
  obtain ⟨httl, hpos⟩ := toInt?_bucketTtl_rat capacity hrate
  refine ⟨⟨_, tokenBucketScript_lookup_valid hb httl hpos hvalid, ?_⟩, ?_⟩
  · rw [← hlevel]
    exact written_holdsBucket _
  · unfold taken
    split_ifs with hone
    · have hle : (1 : ℚ) ≤ level := by simpa using hone
      have hflow := mul_nonneg hrate.le (sub_nonneg.mpr hnear)
      simp only [F64.ofInt_rat, Int.cast_one]
      linarith
    · exact hcovered

/-- A check is granted only if it finds a token, and if its deadline is one that
    the server accepts. -/
theorem granted_bucket {db : Db ℚ} {s' : ℤ} {reading' : ℚ} {hash : KeyMap String ℚ}
    {d : Option ℤ} {left : ℤ} (hb : hashAt s' key db = some (hash, d)) (hrate : 0 < refillRate)
    (hok : (tokenBucketScript s' key (capacity : ℚ) refillRate reading' db).1 = .ok (1, left)) :
    1 ≤ refilled (capacity : ℚ) refillRate reading' hash ∧
      s' + 1000 * bucketTtlSecs capacity refillRate ≤ int64Max := by
  constructor
  · have hreply := tokenBucketScript_reply hb hok
    unfold bucketReply at hreply
    by_contra hno
    have hle : F64.le (F64.ofInt 1) (refilled (capacity : ℚ) refillRate reading' hash) = false :=
      decide_eq_false (by simpa using hno)
    simp only [hle, Bool.false_eq_true, if_false, Prod.mk.injEq] at hreply
    exact absurd hreply.1 one_ne_zero
  · obtain ⟨t, ht, hvalid⟩ := (tokenBucketScript_completes hb).mp ⟨_, hok⟩
    rw [(toInt?_bucketTtl_rat capacity hrate).1] at ht
    obtain rfl := Option.some.inj ht
    exact hvalid

/-! ### Checks of a bucket -/

section
variable {db : Db ℚ} {s s' left : ℤ} {tokens reading reading' : ℚ}

theorem HoldsBucketAt.script
    (h : HoldsBucketAt key capacity refillRate skew db s tokens reading) (hrate : 0 < refillRate)
    (hskew : 2 * skew ≤ 10) (hnear : |reading' - s' / 1000| ≤ skew) (hs : s ≤ s')
    (hvalid : s' + 1000 * bucketTtlSecs capacity refillRate ≤ int64Max) :
    HoldsBucketAt key capacity refillRate skew
      (tokenBucketScript s' key (capacity : ℚ) refillRate reading' db).2 s'
      (taken (levelFrom capacity refillRate tokens reading reading')) reading' := by
  obtain ⟨hlo, hhi⟩ := abs_le.mp hnear
  have hearly : (s' : ℚ) / 1000 - skew ≤ reading' := by linarith
  obtain ⟨hash, d, hb, hlevel⟩ := h.found hrate hskew hearly
  refine holdsBucketAt_next hb hrate hlevel ?_ (by linarith) hvalid
  have hflow : 0 ≤ refillRate * ((s' / 1000 + skew) - reading') :=
    mul_nonneg hrate.le (by linarith)
  rw [levelFrom, ← min_add_add_right]
  refine le_min ?_ (add_nonneg (Nat.cast_nonneg _) hflow)
  have hcast : (s : ℚ) ≤ s' := Int.cast_le.mpr hs
  have hlater := mul_le_mul_of_nonneg_left hcast hrate.le
  linarith [h.covered]

theorem HoldsBucketAt.granted
    (h : HoldsBucketAt key capacity refillRate skew db s tokens reading) (hrate : 0 < refillRate)
    (hskew : 2 * skew ≤ 10) (hnear : |reading' - s' / 1000| ≤ skew)
    (hok : (tokenBucketScript s' key (capacity : ℚ) refillRate reading' db).1 = .ok (1, left)) :
    1 ≤ levelFrom capacity refillRate tokens reading reading' ∧
      s' + 1000 * bucketTtlSecs capacity refillRate ≤ int64Max := by
  have hearly : (s' : ℚ) / 1000 - skew ≤ reading' := by linarith [(abs_le.mp hnear).1]
  obtain ⟨hash, d, hb, hlevel⟩ := h.found hrate hskew hearly
  have hgranted := granted_bucket hb hrate hok
  rwa [hlevel] at hgranted

theorem missing_script (hmissing : db.lookup key = none) (hrate : 0 < refillRate)
    (hnear : |reading' - s' / 1000| ≤ skew)
    (hvalid : s' + 1000 * bucketTtlSecs capacity refillRate ≤ int64Max) :
    HoldsBucketAt key capacity refillRate skew
      (tokenBucketScript s' key (capacity : ℚ) refillRate reading' db).2 s'
      (taken (capacity : ℚ)) reading' := by
  obtain ⟨-, hhi⟩ := abs_le.mp hnear
  have hb : hashAt s' key db = some (∅, none) :=
    viewAt_none (by rw [find, hmissing, Option.filter_none])
  have hflow : 0 ≤ refillRate * ((s' / 1000 + skew) - reading') :=
    mul_nonneg hrate.le (by linarith)
  exact holdsBucketAt_next hb hrate (refilled_empty _ _ _)
    (add_nonneg (Nat.cast_nonneg _) hflow) (by linarith) hvalid

theorem missing_granted (hmissing : db.lookup key = none) (hrate : 0 < refillRate)
    (hok : (tokenBucketScript s' key (capacity : ℚ) refillRate reading' db).1 = .ok (1, left)) :
    (1 : ℚ) ≤ capacity ∧ s' + 1000 * bucketTtlSecs capacity refillRate ≤ int64Max := by
  have hb : hashAt s' key db = some (∅, none) :=
    viewAt_none (by rw [find, hmissing, Option.filter_none])
  have hgranted := granted_bucket hb hrate hok
  rwa [refilled_empty] at hgranted

end

end

/-! ## Fleets -/

/-- A fleet whose tenant is checked by a token bucket. -/
structure BucketFleet extends TenantFleet ℚ where
  capacity : ℕ
  refillRate : ℚ
  rate_pos : 0 < refillRate
  isBucket : algorithm = .tokenBucket capacity refillRate

namespace BucketFleet

section
variable (F : BucketFleet)

def readingAt (n : ℕ) : ℚ := ((F.requestAt n).map sentReading).getD 0

/-- The script of a check of the tenant. -/
def scriptOf (env : RedisEnv) : Script ℚ (ℤ × ℤ) :=
  tokenBucketScript env.server (F.name .tb) (F.capacity : ℚ) F.refillRate (sentReading env)

end

/-! ### Steps -/

open TenantFleet

variable {F : BucketFleet}

theorem check_cases (F : BucketFleet) {n : ℕ} {env : RedisEnv} (hq : F.requestAt n = some env) :
    (stateAt F.step F.start F.calls (n + 1) = stateAt F.step F.start F.calls n ∧
      F.admits n = false) ∨
    (stateAt F.step F.start F.calls (n + 1) =
        (F.scriptOf env (stateAt F.step F.start F.calls n)).2 ∧
      (F.admits n = true →
        ∃ left, (F.scriptOf env (stateAt F.step F.start F.calls n)).1 = .ok (1, left))) := by
  obtain ⟨timeout, key, hkey, hstate, hadmits⟩ := F.step_request hq
  rw [hstate, hadmits, F.isBucket]
  have hcases := tokenBucketCheck_executes ⟨F.keyPrefix, timeout⟩ (keyDigest F.sha256) env key
    F.capacity F.refillRate (stateAt F.step F.start F.calls n)
  rw [hkey] at hcases
  exact hcases

/-- Another call leaves the bucket as it is. -/
theorem other_keeps (F : BucketFleet) {n : ℕ} (hn : F.requestAt n = none) (db : Db ℚ) :
    (F.step (F.calls n) db).2.lookup (F.name .tb) = db.lookup (F.name .tb) :=
  F.other_leaves hn (by rw [F.isBucket]; rfl) db

theorem missing_bucket (F : BucketFleet) : F.start.lookup (F.name .tb) = none :=
  F.missing .tb (by rw [F.isBucket]; rfl)

theorem readingAt_eq {n : ℕ} {env : RedisEnv} (hq : F.requestAt n = some env) :
    F.readingAt n = sentReading env := by
  rw [readingAt, hq, Option.map_some, Option.getD_some]

/-- The readings are within `skew` seconds of the server's. -/
def ReadsWithin (F : BucketFleet) (skew : ℚ) : Prop :=
  ∀ n env, F.requestAt n = some env → |sentReading env - (env.server : ℚ) / 1000| ≤ skew

theorem readsWithin {skew : ℕ} (hskew : F.Skewed skew) : F.ReadsWithin (skew / 1000) := by
  intro n env hq
  obtain ⟨hlo, hhi⟩ := abs_le.mp (hskew n env hq)
  have hlo' : (-(1000000 * skew) : ℚ) ≤ env.unix.toNat - 1000000 * env.server := by
    exact_mod_cast hlo
  have hhi' : (env.unix.toNat - 1000000 * env.server : ℚ) ≤ 1000000 * skew := by
    exact_mod_cast hhi
  rw [abs_le, sentReading, Duration.secs]
  constructor <;> linarith

/-! ### Deadlines -/

theorem holdsHash (F : BucketFleet) (n : ℕ) :
    HoldsHash (F.name .tb) (stateAt F.step F.start F.calls n) := by
  induction n with
  | zero =>
    intro e he
    rw [show stateAt F.step F.start F.calls 0 = F.start from rfl, F.missing_bucket] at he
    cases he
  | succ n ih =>
    cases hq : F.requestAt n with
    | none =>
      intro e he
      rw [stateAt_succ, F.other_keeps hq] at he
      exact ih e he
    | some env =>
      rcases F.check_cases hq with ⟨hstate, -⟩ | ⟨hstate, -⟩
      · rw [hstate]
        exact ih
      · rw [hstate]
        exact ih.script _

/-- The checks before call `n` set a deadline that the server accepts. -/
def AcceptedUntil (F : BucketFleet) (n : ℕ) : Prop :=
  ∀ m env, m < n → F.requestAt m = some env →
    env.server + 1000 * bucketTtlSecs F.capacity F.refillRate ≤ int64Max

/-- A check that is admitted had its deadline accepted, and so had those before. -/
theorem acceptedUntil_of_admits {n : ℕ} (hn : F.admits n = true) : F.AcceptedUntil n := by
  intro m env hm hq
  obtain ⟨env', hq'⟩ := requestAt_of_admits hn
  rcases F.check_cases hq' with ⟨-, hadm⟩ | ⟨-, hadm⟩
  · rw [hn] at hadm
    cases hadm
  · obtain ⟨left, hok⟩ := hadm hn
    obtain ⟨hash, d, hb⟩ := (F.holdsHash n).hashAt env'.server
    have hvalid := (granted_bucket hb F.rate_pos hok).2
    have hle := server_mono hm.le hq hq'
    omega

/-! ### The bucket of the tenant -/

/-- The bucket that the tenant's key holds before call `n`. -/
structure BucketBefore (F : BucketFleet) (skew : ℚ) (n : ℕ) (tokens reading : ℚ) : Prop where
  holds : ∃ s, HoldsBucketAt (F.name .tb) F.capacity F.refillRate skew
      (stateAt F.step F.start F.calls n) s tokens reading ∧
    ∀ m env, n ≤ m → F.requestAt m = some env → s ≤ env.server

section
variable {skew : ℚ}

theorem BucketBefore.other {n : ℕ} {tokens reading : ℚ} (h : F.BucketBefore skew n tokens reading)
    (hsame : (stateAt F.step F.start F.calls (n + 1)).lookup (F.name .tb) =
      (stateAt F.step F.start F.calls n).lookup (F.name .tb)) :
    F.BucketBefore skew (n + 1) tokens reading := by
  obtain ⟨s, hholds, hlater⟩ := h.holds
  refine ⟨s, ⟨?_, hholds.covered⟩, fun m env hm => hlater m env ((Nat.le_succ n).trans hm)⟩
  rw [hsame]
  exact hholds.entry

variable (hskew : F.ReadsWithin skew)
include hskew

/-- A check of a bucket: what it writes, and that it finds a token if it is
    admitted. -/
theorem BucketBefore.check {n : ℕ} {env : RedisEnv} {tokens reading : ℚ}
    (hslack : 2 * skew ≤ 10) (h : F.BucketBefore skew n tokens reading)
    (hq : F.requestAt n = some env) (hvalid : F.AcceptedUntil (n + 1))
    (hstate : stateAt F.step F.start F.calls (n + 1) =
      (F.scriptOf env (stateAt F.step F.start F.calls n)).2) :
    F.BucketBefore skew (n + 1)
      (taken (levelFrom F.capacity F.refillRate tokens reading (F.readingAt n)))
      (F.readingAt n) := by
  obtain ⟨s, hholds, hlater⟩ := h.holds
  have hscript := hholds.script F.rate_pos hslack (hskew n env hq) (hlater n env le_rfl hq)
    (hvalid n env (Nat.lt_succ_self n) hq)
  refine ⟨env.server, ?_, fun m env' hm hq' => server_mono ((Nat.le_succ n).trans hm) hq hq'⟩
  rw [hstate, readingAt_eq hq]
  exact hscript

theorem BucketBefore.first {n : ℕ} {env : RedisEnv}
    (hmissing : (stateAt F.step F.start F.calls n).lookup (F.name .tb) = none)
    (hq : F.requestAt n = some env) (hvalid : F.AcceptedUntil (n + 1))
    (hstate : stateAt F.step F.start F.calls (n + 1) =
      (F.scriptOf env (stateAt F.step F.start F.calls n)).2) :
    F.BucketBefore skew (n + 1) (taken (F.capacity : ℚ)) (F.readingAt n) := by
  have hscript := missing_script hmissing F.rate_pos (hskew n env hq)
    (hvalid n env (Nat.lt_succ_self n) hq)
  refine ⟨env.server, ?_, fun m env' hm hq' => server_mono ((Nat.le_succ n).trans hm) hq hq'⟩
  rw [hstate, readingAt_eq hq]
  exact hscript

/-- **The invariant of a fleet**: the bucket is missing, or it is there and not
    overdrawn. -/
theorem held (hslack : 2 * skew ≤ 10) {n : ℕ} (hvalid : F.AcceptedUntil n) :
    (stateAt F.step F.start F.calls n).lookup (F.name .tb) = none ∨
      ∃ tokens reading, F.BucketBefore skew n tokens reading := by
  induction n with
  | zero => exact .inl F.missing_bucket
  | succ n ih =>
    have hbefore := ih fun m env hm => hvalid m env (hm.trans (Nat.lt_succ_self n))
    cases hq : F.requestAt n with
    | none =>
      have hsame := F.other_keeps hq (stateAt F.step F.start F.calls n)
      rw [← stateAt_succ] at hsame
      exact hbefore.imp hsame.trans fun ⟨tokens, reading, h⟩ => ⟨tokens, reading, h.other hsame⟩
    | some env =>
      rcases F.check_cases hq with ⟨hstate, -⟩ | ⟨hstate, -⟩
      · have hsame := congrArg (fun db => AList.lookup (F.name .tb) db) hstate
        exact hbefore.imp hsame.trans fun ⟨tokens, reading, h⟩ => ⟨tokens, reading, h.other hsame⟩
      · rcases hbefore with hmissing | ⟨tokens, reading, h⟩
        · exact .inr ⟨_, _, .first hskew hmissing hq hvalid hstate⟩
        · exact .inr ⟨_, _, h.check hskew hslack hq hvalid hstate⟩

/-- What an admitted check finds. -/
theorem BucketBefore.one_le (hslack : 2 * skew ≤ 10) {n : ℕ} {tokens reading : ℚ}
    (h : F.BucketBefore skew n tokens reading) (hn : F.admits n = true) :
    1 ≤ levelFrom F.capacity F.refillRate tokens reading (F.readingAt n) := by
  obtain ⟨env, hq⟩ := requestAt_of_admits hn
  obtain ⟨s, hholds, -⟩ := h.holds
  rw [readingAt_eq hq]
  rcases F.check_cases hq with ⟨-, hadm⟩ | ⟨-, hadm⟩
  · rw [hn] at hadm
    cases hadm
  · obtain ⟨left, hok⟩ := hadm hn
    exact (hholds.granted F.rate_pos hslack (hskew n env hq) hok).1

/-! ### The account -/

/-- The checks from `i` up to `n` that are admitted. -/
def admittedIn (F : BucketFleet) (i n : ℕ) : ℕ :=
  ((Finset.Ico i n).filter fun m => F.admits m = true).card

omit hskew in
theorem admittedIn_succ {i n : ℕ} (hin : i ≤ n) :
    F.admittedIn i (n + 1) = F.admittedIn i n + (F.admits n).toNat := by
  rw [admittedIn, ← Finset.insert_Ico_right_eq_Ico_add_one hin, Finset.filter_insert]
  cases hn : F.admits n with
  | false => simp [admittedIn]
  | true =>
    rw [if_pos rfl, Finset.card_insert_of_notMem (by simp), admittedIn]
    rfl

omit hskew in
/-- A check takes a token if it is admitted. -/
theorem taken_le_of_admits {n : ℕ} {level : ℚ} (h : F.admits n = true → 1 ≤ level) :
    taken level + (F.admits n).toNat ≤ level := by
  simp only [taken, F64.le_rat, F64.ofInt_rat, Int.cast_one, decide_eq_true_eq]
  cases hn : F.admits n with
  | true =>
    rw [if_pos (h hn)]
    simp
  | false =>
    split_ifs <;> simp

/-- The account of the bucket falls by one with every admission. -/
theorem spent (hslack : 2 * skew ≤ 10) {i n : ℕ} (hi : F.admits i = true) (hin : i < n)
    (hvalid : F.AcceptedUntil n) : ∃ tokens reading, F.BucketBefore skew n tokens reading ∧
      tokens - reading * F.refillRate + F.admittedIn i n ≤
        F.capacity - F.readingAt i * F.refillRate := by
  induction n, hin using Nat.le_induction with
  | base =>
    obtain ⟨env, hq⟩ := requestAt_of_admits hi
    have hone : F.admittedIn i (i + 1) = 1 := by
      rw [admittedIn_succ le_rfl, admittedIn, Finset.Ico_self, Finset.filter_empty, hi]
      rfl
    rcases F.check_cases hq with ⟨-, hadm⟩ | ⟨hstate, hadm⟩
    · rw [hi] at hadm
      cases hadm
    · rcases held hskew hslack (acceptedUntil_of_admits hi) with hmissing | ⟨tokens, reading, h⟩
      · obtain ⟨left, hok⟩ := hadm hi
        have hcap := (missing_granted hmissing F.rate_pos hok).1
        have htaken := taken_le_of_admits fun _ : F.admits i = true => hcap
        refine ⟨_, _, .first hskew hmissing hq hvalid hstate, ?_⟩
        rw [hi, Bool.toNat_true, Nat.cast_one] at htaken
        rw [hone, Nat.cast_one]
        linarith
      · have htaken := taken_le_of_admits fun hn => h.one_le hskew hslack hn
        have hlevel : levelFrom F.capacity F.refillRate tokens reading (F.readingAt i) ≤
            F.capacity := min_le_right _ _
        refine ⟨_, _, h.check hskew hslack hq hvalid hstate, ?_⟩
        rw [hi, Bool.toNat_true, Nat.cast_one] at htaken
        rw [hone, Nat.cast_one]
        linarith
  | succ n hin ih =>
    obtain ⟨tokens, reading, h, hle⟩ :=
      ih fun m env hm => hvalid m env (hm.trans (Nat.lt_succ_self n))
    have hin' : i ≤ n := (Nat.le_succ i).trans hin
    cases hq : F.requestAt n with
    | none =>
      have hsame := F.other_keeps hq (stateAt F.step F.start F.calls n)
      rw [← stateAt_succ] at hsame
      have hno : F.admits n = false := by rw [admits, hq]; rfl
      refine ⟨tokens, reading, h.other hsame, ?_⟩
      rw [admittedIn_succ hin', hno]
      simpa using hle
    | some env =>
      rcases F.check_cases hq with ⟨hstate, hno⟩ | ⟨hstate, -⟩
      · refine ⟨tokens, reading, h.other (congrArg (fun db => AList.lookup (F.name .tb) db) hstate),
          ?_⟩
        rw [admittedIn_succ hin', hno]
        simpa using hle
      · refine ⟨_, _, h.check hskew hslack hq hvalid hstate, ?_⟩
        have htaken := taken_le_of_admits fun hn => h.one_le hskew hslack hn
        have hlevel : levelFrom F.capacity F.refillRate tokens reading (F.readingAt n) ≤
            tokens + (F.readingAt n - reading) * F.refillRate := min_le_left _ _
        rw [admittedIn_succ hin']
        push_cast
        linarith

/-- From an admitted check to another one the admissions keep to the capacity and
    the refill between their readings. -/
theorem admittedIn_le (hslack : 2 * skew ≤ 10) {i j : ℕ} (hi : F.admits i = true)
    (hj : F.admits j = true) (hij : i ≤ j) :
    (F.admittedIn i j : ℚ) + 1 ≤
      F.capacity + F.refillRate * (F.readingAt j - F.readingAt i) := by
  rcases hij.eq_or_lt with rfl | hlt
  · obtain ⟨env, hq⟩ := requestAt_of_admits hi
    have hcap : (1 : ℚ) ≤ F.capacity := by
      rcases held hskew hslack (acceptedUntil_of_admits hi) with hmissing | ⟨tokens, reading, h⟩
      · rcases F.check_cases hq with ⟨-, hadm⟩ | ⟨-, hadm⟩
        · rw [hi] at hadm
          cases hadm
        · obtain ⟨left, hok⟩ := hadm hi
          exact (missing_granted hmissing F.rate_pos hok).1
      · exact (h.one_le hskew hslack hi).trans (min_le_right _ _)
    rw [admittedIn, Finset.Ico_self, Finset.filter_empty, Finset.card_empty, sub_self, mul_zero]
    simpa using hcap
  · obtain ⟨tokens, reading, h, hle⟩ := spent hskew hslack hi hlt (acceptedUntil_of_admits hj)
    have hone := (h.one_le hskew hslack hj).trans (min_le_left _ _)
    linarith

/-- The rate, by the readings. -/
theorem card_le (hslack : 2 * skew ≤ 10) {S : Finset ℕ} (hS : ∀ n ∈ S, F.admits n = true)
    {span : ℚ} (hpos : 0 ≤ span)
    (hspan : ∀ m ∈ S, ∀ n ∈ S, F.readingAt n ≤ F.readingAt m + span) :
    (S.card : ℚ) ≤ F.capacity + F.refillRate * span := by
  have hflow := mul_nonneg F.rate_pos.le hpos
  rcases S.eq_empty_or_nonempty with rfl | hne
  · rw [Finset.card_empty, Nat.cast_zero]
    positivity
  have hi := hS _ (S.min'_mem hne)
  have hj := hS _ (S.max'_mem hne)
  have hle := admittedIn_le hskew hslack hi hj (S.min'_le_max' hne)
  have hcard : S.card ≤ F.admittedIn (S.min' hne) (S.max' hne) + 1 := by
    refine card_le_succ hne fun m hm hlt => ?_
    rw [Finset.mem_filter, Finset.mem_Ico]
    exact ⟨⟨S.min'_le m hm, hlt⟩, hS m hm⟩
  have hmul := mul_le_mul_of_nonneg_left
    (sub_le_iff_le_add'.mpr (hspan _ (S.min'_mem hne) _ (S.max'_mem hne))) F.rate_pos.le
  have hcard' : (S.card : ℚ) ≤ F.admittedIn (S.min' hne) (S.max' hne) + 1 := by
    exact_mod_cast hcard
  linarith

end

/-- The readings span what the server's clock does, and twice the skew. -/
theorem readingAt_le {skew span : ℕ} (hskew : F.Skewed skew) {m n : ℕ} (hm : F.admits m = true)
    (hn : F.admits n = true) (hspan : F.serverAt n ≤ F.serverAt m + span) :
    F.readingAt n ≤ F.readingAt m + (span + 2 * skew) / 1000 := by
  obtain ⟨env, hq⟩ := requestAt_of_admits hm
  obtain ⟨env', hq'⟩ := requestAt_of_admits hn
  have hnear := abs_le.mp (readsWithin hskew m env hq)
  have hnear' := abs_le.mp (readsWithin hskew n env' hq')
  rw [serverAt_eq hq, serverAt_eq hq'] at hspan
  rw [readingAt_eq hq, readingAt_eq hq']
  have hspan' : (env'.server : ℚ) ≤ env.server + span := by exact_mod_cast hspan
  linarith [hnear.1, hnear'.2]

theorem slack_le {skew : ℕ} (hslack : skew ≤ 5000) : 2 * ((skew : ℚ) / 1000) ≤ 10 := by
  have hcast : (skew : ℚ) ≤ 5000 := by exact_mod_cast hslack
  linarith

theorem perSecond_pos : (0 : ℚ) < 1 := one_pos

/-- Two instances take turns every half second, one of them a second fast and the
    other one a second slow. -/
def twoReadings : BucketFleet where
  toTenantFleet := turns (.tokenBucket 2 1) 500 fun n => if n % 2 = 0 then 2000 else 0
  capacity := 2
  refillRate := 1
  rate_pos := perSecond_pos
  isBucket := rfl

theorem twoReadings_skewed : twoReadings.Skewed 1000 := by
  refine turns_skewed fun n => ?_
  split_ifs <;> decide

end BucketFleet

end ArmatureRatelimit
