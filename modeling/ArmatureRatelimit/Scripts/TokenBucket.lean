/-
  What the token bucket script of the Redis store does to its key.

  A bucket key is missing, which reads as a hash without fields, or holds a
  hash (`Lib.Redis.hashAt`).  `tokenBucketScript_eq`: the script first writes the
  refilled bucket, which no later failure takes back, and then asks for the
  deadline of the key, which can fail.
-/
import ArmatureRatelimit.Stores.Redis

open Lib Lib.Redis

namespace ArmatureRatelimit

namespace RedisStore

variable {ν : Type}

section
variable [F64 ν] (capacity refillRate now : ν)

/-- The tokens of the bucket after its refill. -/
def refilled (h : KeyMap String ν) : ν :=
  F64.min ((h.lookup "tokens").getD capacity +
    (now - (h.lookup "last_refill").getD now) * refillRate) capacity

/-- The tokens that are left after a token has been taken, if there is one. -/
def taken (tokens : ν) : ν :=
  if F64.le (F64.ofInt 1) tokens then tokens - F64.ofInt 1 else tokens

/-- The bucket that the script writes. -/
def written (h : KeyMap String ν) : KeyMap String ν :=
  (h.insert "tokens" (taken (refilled capacity refillRate now h))).insert "last_refill" now

/-- What the script replies, if it completes. -/
def bucketReply (h : KeyMap String ν) : ℤ × ℤ :=
  let tokens := refilled capacity refillRate now h
  if F64.le (F64.ofInt 1) tokens then (1, F64.toReply (F64.floor (tokens - F64.ofInt 1)))
  else (0, 0)

variable {server : ℤ} {key : String} {capacity refillRate now}

/-- **What the script does.** -/
theorem tokenBucketScript_eq {db : Db ν} {h : KeyMap String ν} {d : Option ℤ}
    (hb : hashAt server key db = some (h, d)) :
    tokenBucketScript server key capacity refillRate now db =
      let db' := db.insert key ⟨.hash (written capacity refillRate now h), d⟩
      match deadlineOf "expire" server (F64.toInt? (bucketTtl capacity refillRate)) with
      | .error msg => (.error msg, db')
      | .ok dl => (.ok (bucketReply capacity refillRate now h),
          if dl ≤ server then db'.erase key
          else db'.insert key ⟨.hash (written capacity refillRate now h), some dl⟩) := by
  have hlive := viewAt_live hb (.hash (written capacity refillRate now h))
  have hset : ∀ x, hmset server key [("tokens", x), ("last_refill", now)] db = (.ok (),
      db.insert key ⟨.hash ((h.insert "tokens" x).insert "last_refill" now), d⟩) :=
    fun x => hmset_hashAt hb _
  rw [tokenBucketScript, Script.bind_ok (hmget_hashAt hb _)]
  simp only [List.map_cons, List.map_nil, List.getElem?_cons_zero, List.getElem?_cons_succ,
    Option.join_some, written, bucketReply, taken] at hlive ⊢
  have hsame : F64.min ((h.lookup "tokens").getD capacity +
      (now - (h.lookup "last_refill").getD now) * refillRate) capacity =
      refilled capacity refillRate now h := rfl
  rw [hsame]
  split_ifs at hlive ⊢ with hone
  all_goals
    rw [Script.bind_ok (hset _)]
    cases hdl : deadlineOf "expire" server (F64.toInt? (bucketTtl capacity refillRate)) with
    | error msg => exact Script.bind_error (expire_error hdl key _) _
    | ok dl =>
      have hfind := (find_insert_self server key _ db).trans (if_pos hlive)
      rw [Script.bind_ok (expire_live hdl hfind)]
      rfl

/-- The script completes exactly when its time to live is valid. -/
theorem tokenBucketScript_completes {db : Db ν} {h : KeyMap String ν} {d : Option ℤ}
    (hb : hashAt server key db = some (h, d)) :
    (∃ reply, (tokenBucketScript server key capacity refillRate now db).1 = .ok reply) ↔
      ValidTtl server (F64.toInt? (bucketTtl capacity refillRate)) := by
  rw [tokenBucketScript_eq hb]
  constructor
  · rintro ⟨reply, hok⟩
    by_contra hinvalid
    obtain ⟨msg, hmsg⟩ := deadlineOf_invalid hinvalid "expire"
    simp only [hmsg] at hok
    cases hok
  · rintro ⟨t, ht, hvalid⟩
    simp only [ht, deadlineOf_valid hvalid]
    exact ⟨_, rfl⟩

theorem tokenBucketScript_reply {db : Db ν} {h : KeyMap String ν} {d : Option ℤ} {reply : ℤ × ℤ}
    (hb : hashAt server key db = some (h, d))
    (hok : (tokenBucketScript server key capacity refillRate now db).1 = .ok reply) :
    reply = bucketReply capacity refillRate now h := by
  rw [tokenBucketScript_eq hb] at hok
  simp only at hok
  split at hok
  · cases hok
  · exact (Except.ok.inj hok).symm

theorem tokenBucketScript_lookup_valid {db : Db ν} {h : KeyMap String ν} {d : Option ℤ} {t : ℤ}
    (hb : hashAt server key db = some (h, d))
    (httl : F64.toInt? (bucketTtl capacity refillRate) = some t) (ht : 0 < t)
    (hvalid : server + 1000 * t ≤ int64Max) :
    (tokenBucketScript server key capacity refillRate now db).2.lookup key =
      some ⟨.hash (written capacity refillRate now h), some (server + 1000 * t)⟩ := by
  rw [tokenBucketScript_eq hb]
  simp only [httl, deadlineOf_valid hvalid]
  rw [if_neg (by omega), AList.lookup_insert]

/-- The bucket is written whether or not the script completes. -/
theorem tokenBucketScript_lookup {db : Db ν} {h : KeyMap String ν} {d : Option ℤ}
    (hb : hashAt server key db = some (h, d))
    (hpos : ∀ t, F64.toInt? (bucketTtl capacity refillRate) = some t → 0 < t) :
    ∃ d', (tokenBucketScript server key capacity refillRate now db).2.lookup key =
      some ⟨.hash (written capacity refillRate now h), d'⟩ := by
  by_cases hvalid : ValidTtl server (F64.toInt? (bucketTtl capacity refillRate))
  · obtain ⟨t, ht, hvalid⟩ := hvalid
    exact ⟨_, tokenBucketScript_lookup_valid hb ht (hpos t ht) hvalid⟩
  · obtain ⟨msg, hmsg⟩ := deadlineOf_invalid hvalid "expire"
    rw [tokenBucketScript_eq hb]
    simp only [hmsg, AList.lookup_insert]
    exact ⟨_, rfl⟩

/-! ### The fields of a bucket -/

omit [F64 ν] in
/-- The fields of the hash hold this bucket. -/
structure HoldsBucket (h : KeyMap String ν) (tokens lastRefill : ν) : Prop where
  tokens_eq : h.lookup "tokens" = some tokens
  last_refill_eq : h.lookup "last_refill" = some lastRefill

theorem written_holdsBucket (h : KeyMap String ν) :
    HoldsBucket (written capacity refillRate now h) (taken (refilled capacity refillRate now h))
      now where
  tokens_eq := by rw [written, AList.lookup_insert_ne (by decide), AList.lookup_insert]
  last_refill_eq := AList.lookup_insert _

/-- The reply depends on the refilled tokens only. -/
theorem bucketReply_congr {h h' : KeyMap String ν}
    (heq : refilled capacity refillRate now h = refilled capacity refillRate now h') :
    bucketReply capacity refillRate now h = bucketReply capacity refillRate now h' := by
  unfold bucketReply
  rw [heq]

/-- The key is missing or holds a hash. -/
def HoldsHash (key : String) (db : Db ν) : Prop :=
  ∀ e, db.lookup key = some e → ∃ h, e.value = .hash h

omit [F64 ν] in
theorem HoldsHash.hashAt {db : Db ν} (hdb : HoldsHash key db) (server : ℤ) :
    ∃ h d, hashAt server key db = some (h, d) := by
  cases hfind : find server key db with
  | none => exact ⟨_, _, viewAt_none hfind⟩
  | some e =>
    obtain ⟨h, hval⟩ := hdb e (Option.filter_eq_some_iff.mp hfind).1
    exact ⟨h, e.deadline, viewAt_some hfind (by rw [hval]; rfl)⟩

/-- The script keeps the kind of its key. -/
theorem HoldsHash.script {db : Db ν} (hdb : HoldsHash key db) (server : ℤ) :
    HoldsHash key (tokenBucketScript server key capacity refillRate now db).2 := by
  obtain ⟨h, d, hb⟩ := hdb.hashAt server
  rw [tokenBucketScript_eq hb]
  simp only
  split
  · intro e he
    rw [AList.lookup_insert] at he
    obtain rfl := Option.some.inj he
    exact ⟨_, rfl⟩
  · split_ifs
    · intro e he
      rw [AList.lookup_erase] at he
      cases he
    · intro e he
      rw [AList.lookup_insert] at he
      obtain rfl := Option.some.inj he
      exact ⟨_, rfl⟩

end

/-! ## Exact arithmetic -/

theorem HoldsBucket.refilled_rat {h : KeyMap String ℚ} {tokens lastRefill : ℚ}
    (hh : HoldsBucket h tokens lastRefill) (capacity refillRate now : ℚ) :
    refilled capacity refillRate now h =
      min (tokens + (now - lastRefill) * refillRate) capacity := by
  rw [refilled, hh.tokens_eq, hh.last_refill_eq, Option.getD_some, Option.getD_some, F64.min_rat]

/-- A missing bucket is full. -/
theorem refilled_empty (capacity refillRate now : ℚ) :
    refilled capacity refillRate now ∅ = capacity := by
  simp only [refilled, AList.lookup_empty, Option.getD_none, sub_self, zero_mul, add_zero,
    F64.min_rat, min_self]

theorem taken_nonneg {tokens : ℚ} (h : 0 ≤ tokens) : 0 ≤ taken tokens := by
  unfold taken
  split_ifs with hone
  · have : (1 : ℚ) ≤ tokens := by simpa using hone
    exact sub_nonneg.mpr (by simpa using this)
  · exact h

/-- Over exact rationals a time to live is a positive integer. -/
theorem toInt?_bucketTtl_rat (capacity : ℕ) {refillRate : ℚ} (hr : 0 < refillRate) :
    F64.toInt? (bucketTtl (capacity : ℚ) refillRate) =
        some (⌈(capacity : ℚ) / refillRate⌉ + 10) ∧
      0 < ⌈(capacity : ℚ) / refillRate⌉ + 10 := by
  have hceil : 0 ≤ ⌈(capacity : ℚ) / refillRate⌉ :=
    Int.ceil_nonneg (div_nonneg (Nat.cast_nonneg _) hr.le)
  refine ⟨?_, by omega⟩
  rw [F64.toInt?_eq_some]
  show some (((⌈(capacity : ℚ) / refillRate⌉ : ℤ) : ℚ) + ((10 : ℤ) : ℚ)) = _
  push_cast
  rfl

end RedisStore

end ArmatureRatelimit
