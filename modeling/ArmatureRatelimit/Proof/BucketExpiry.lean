/-
  The expiry of token buckets in Redis (`stores/redis.rs`), over exact
  rationals.

  An execution asks for `⌈capacity / rate⌉ + 10` seconds.  A bucket that has
  expired on the server's clock would be full again on the callers' clock, if
  the two clocks drift apart by at most the ten seconds: the executions reply as
  on a server whose keys never expire (`redisBucket_expiry_invisible`).
-/
import ArmatureRatelimit.Proof.RedisBucket

open Lib Lib.Redis

namespace ArmatureRatelimit

open RedisStore

/-- An execution on a server whose keys never expire. -/
def executeForever {ν : Type} [F64 ν] (key : String) (capacity refillRate : ν) (e : Execution ν)
    (db : Db ν) : Except String (ℤ × ℤ) × Db ν :=
  execute key capacity refillRate e (forgetDeadlines db)

/-- Executions on a key that starts missing, whose readings do not go back and
    whose deadlines are accepted.  Between any two of them the clock of the
    server (milliseconds) and the readings (seconds) advance by amounts that
    differ by at most ten seconds. -/
structure DriftRun where
  key : String
  capacity : ℕ
  refillRate : ℚ
  rate_pos : 0 < refillRate
  start : Db ℚ
  fresh : start.lookup key = none
  execs : ℕ → Execution ℚ
  inOrder : ∀ i j, i ≤ j → (execs i).now ≤ (execs j).now
  accepted : ∀ n, (execs n).server + 1000 * (⌈(capacity : ℚ) / refillRate⌉ + 10) ≤ int64Max
  drift : ∀ i j, i ≤ j →
    |(((execs j).server - (execs i).server : ℤ) : ℚ) / 1000 - ((execs j).now - (execs i).now)| ≤ 10

namespace DriftRun

section
variable (R : DriftRun)

def step : Execution ℚ → Db ℚ → Except String (ℤ × ℤ) × Db ℚ :=
  execute R.key (R.capacity : ℚ) R.refillRate

def stepForever : Execution ℚ → Db ℚ → Except String (ℤ × ℤ) × Db ℚ :=
  executeForever R.key (R.capacity : ℚ) R.refillRate

/-- The time to live of the key, in seconds. -/
def ttl : ℤ := ⌈(R.capacity : ℚ) / R.refillRate⌉ + 10

/-- The key on the two servers before execution `n`: missing, or the bucket that
    an earlier execution `i` has left. -/
inductive Rel (n : ℕ) : Option (Entry ℚ) → Option (Entry ℚ) → Prop
  | missing : Rel n none none
  | bucket {i : ℕ} {h h' : KeyMap String ℚ} {tokens : ℚ} {d : Option ℤ} (before : i < n)
      (nonneg : 0 ≤ tokens) (here : HoldsBucket h tokens (R.execs i).now)
      (there : HoldsBucket h' tokens (R.execs i).now) :
      Rel n (some ⟨.hash h, some ((R.execs i).server + 1000 * R.ttl)⟩) (some ⟨.hash h', d⟩)

end

variable {R : DriftRun}

/-- Once the key has expired on the server's clock, the bucket is full again. -/
theorem refill_after_ttl (R : DriftRun) {i n : ℕ} (hin : i < n)
    (hdead : (R.execs i).server + 1000 * R.ttl < (R.execs n).server) :
    (R.capacity : ℚ) ≤ ((R.execs n).now - (R.execs i).now) * R.refillRate := by
  have hdrift := (abs_le.mp (R.drift i n hin.le)).2
  have hdead' : ((R.execs i).server : ℚ) + 1000 * R.ttl < (R.execs n).server := by
    exact_mod_cast hdead
  have hceil := Int.le_ceil ((R.capacity : ℚ) / R.refillRate)
  have hspan : (R.capacity : ℚ) / R.refillRate ≤ (R.execs n).now - (R.execs i).now := by
    rw [ttl] at hdead'
    push_cast at hdead' hdrift
    linarith
  exact (div_le_iff₀ R.rate_pos).mp hspan

/-- What execution `n` sees on the two servers refills to the same level. -/
theorem Rel.views {n : ℕ} {db db' : Db ℚ} (h : R.Rel n (db.lookup R.key) (db'.lookup R.key)) :
    ∃ g d g' d', hashAt (R.execs n).server R.key db = some (g, d) ∧
      hashAt (R.execs n).server R.key (forgetDeadlines db') = some (g', d') ∧
      refilled (R.capacity : ℚ) R.refillRate (R.execs n).now g =
        refilled (R.capacity : ℚ) R.refillRate (R.execs n).now g' ∧
      0 ≤ refilled (R.capacity : ℚ) R.refillRate (R.execs n).now g' := by
  have hcap : (0 : ℚ) ≤ R.capacity := Nat.cast_nonneg _
  generalize he : db.lookup R.key = e at h
  generalize he' : db'.lookup R.key = e' at h
  cases h with
  | missing =>
    refine ⟨∅, none, ∅, none, viewAt_none ?_, viewAt_none ?_, rfl, ?_⟩
    · rw [find, he]; rfl
    · rw [find_forgetDeadlines, he']; rfl
    · rw [refilled_empty]; exact hcap
  | @bucket i g g' tokens d before nonneg here there =>
    have hforever : hashAt (R.execs n).server R.key (forgetDeadlines db') = some (g', none) := by
      refine viewAt_some (v := .hash g') ?_ rfl
      rw [find_forgetDeadlines, he']; rfl
    have hpos : 0 ≤ ((R.execs n).now - (R.execs i).now) * R.refillRate :=
      mul_nonneg (sub_nonneg.mpr (R.inOrder i n before.le)) R.rate_pos.le
    have hlevel := there.refilled_rat (R.capacity : ℚ) R.refillRate (R.execs n).now
    have hnonneg : 0 ≤ refilled (R.capacity : ℚ) R.refillRate (R.execs n).now g' := by
      rw [hlevel]
      exact le_min (by linarith) hcap
    by_cases hlive : (R.execs n).server ≤ (R.execs i).server + 1000 * R.ttl
    · refine ⟨g, some ((R.execs i).server + 1000 * R.ttl), g', none,
        viewAt_some (v := .hash g) ?_ rfl, hforever, ?_, hnonneg⟩
      · rw [find, he, Option.filter_some]
        exact if_pos (decide_eq_true hlive)
      · rw [hlevel, here.refilled_rat]
    · -- the key has expired
      refine ⟨∅, none, g', none, viewAt_none ?_, hforever, ?_, hnonneg⟩
      · rw [find, he, Option.filter_some, if_neg]
        simpa [Entry.live] using hlive
      · have hfull := R.refill_after_ttl before (not_le.mp hlive)
        rw [hlevel, refilled_empty, min_eq_right (by linarith)]

/-- One execution on the two servers. -/
theorem Rel.execution {n : ℕ} {db db' : Db ℚ}
    (h : R.Rel n (db.lookup R.key) (db'.lookup R.key)) :
    (R.step (R.execs n) db).1 = (R.stepForever (R.execs n) db').1 ∧
      R.Rel (n + 1) ((R.step (R.execs n) db).2.lookup R.key)
        ((R.stepForever (R.execs n) db').2.lookup R.key) := by
  obtain ⟨g, d, g', d', hview, hview', hsame, hnonneg⟩ := h.views
  obtain ⟨httl, hpos⟩ := toInt?_bucketTtl_rat R.capacity R.rate_pos
  have hvalid := R.accepted n
  constructor
  · unfold step stepForever executeForever execute
    rw [tokenBucketScript_eq hview, tokenBucketScript_eq hview']
    simp only [httl, deadlineOf_valid hvalid]
    rw [bucketReply_congr hsame]
  · unfold step stepForever executeForever execute
    rw [tokenBucketScript_lookup_valid hview httl hpos hvalid,
      tokenBucketScript_lookup_valid hview' httl hpos hvalid]
    refine .bucket (Nat.lt_succ_self n) (taken_nonneg hnonneg) ?_ (written_holdsBucket _)
    rw [← hsame]
    exact written_holdsBucket _

theorem rel_stateAt (R : DriftRun) (n : ℕ) :
    R.Rel n ((stateAt R.step R.start R.execs n).lookup R.key)
      ((stateAt R.stepForever R.start R.execs n).lookup R.key) := by
  induction n with
  | zero =>
    show R.Rel 0 (R.start.lookup R.key) (R.start.lookup R.key)
    rw [R.fresh]
    exact .missing
  | succ n ih => exact ih.execution.2

/-- **The expiry of a bucket is invisible.**  Every execution replies as on a
    server whose keys never expire. -/
theorem redisBucket_expiry_invisible (R : DriftRun) (n : ℕ) :
    outputAt R.step R.start R.execs n = outputAt R.stepForever R.start R.execs n :=
  (R.rel_stateAt n).execution.1

/-- Two tokens at two a second, asked for at 0 s and from 20 s on: the key has
    expired by then. -/
def idle : DriftRun where
  key := "tb:idle"
  capacity := 2
  refillRate := 2
  rate_pos := two_pos
  start := ∅
  fresh := rfl
  execs n := ⟨if n = 0 then 0 else 20000, if n = 0 then 0 else 20⟩
  inOrder i j hij := by
    dsimp only
    split_ifs
    · exact le_rfl
    · norm_num
    · omega
    · exact le_rfl
  accepted n := by
    have hceil : ⌈((2 : ℕ) : ℚ) / 2⌉ = 1 := by norm_num
    rw [hceil]
    dsimp only
    split_ifs <;> decide
  drift i j hij := by
    dsimp only
    split_ifs <;> norm_num

theorem idle_expiry_invisible :
    outputAt idle.step idle.start idle.execs 1 =
      outputAt idle.stepForever idle.start idle.execs 1 :=
  redisBucket_expiry_invisible idle 1

end DriftRun

end ArmatureRatelimit
