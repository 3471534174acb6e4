/-
  The Redis store (`stores/redis.rs`, feature `redis`): the Lua scripts that it
  runs, and the calls around them.

  The numbers of the token bucket script are those of the type `ν`.  The window
  scripts compute on whole numbers only, and their numbers are integers here, but
  Lua carries them as doubles: the result of every operation is rounded
  (`luaInt`), and what Lua concatenates is the text of `%.14g` (`luaText`).  Plain
  `+` and `-` on Rust integers panic on overflow.
-/
import ArmatureRatelimit.Stores.Basic
import ArmatureRatelimit.Lib.Redis
import ArmatureRatelimit.Lib.Printf

open Lib
open Lib.Redis (Script Db)

namespace ArmatureRatelimit

/-! ## Scripts -/

namespace RedisStore

section
variable {ν : Type} [F64 ν] (server : ℤ)

/-- Seconds after which an untouched bucket expires. -/
def bucketTtl (capacity refillRate : ν) : ν := F64.ceil (capacity / refillRate) + F64.ofInt 10

/-- The script of `token_bucket_check`. -/
def tokenBucketScript (key : String) (capacity refillRate now : ν) : Script ν (ℤ × ℤ) := do
  let ttl := bucketTtl capacity refillRate
  let data ← Lib.Redis.hmget server key ["tokens", "last_refill"]
  let tokens := data[0]?.join.getD capacity
  let lastRefill := data[1]?.join.getD now
  let elapsed := now - lastRefill
  let tokens := F64.min (tokens + elapsed * refillRate) capacity
  if F64.le (F64.ofInt 1) tokens then
    let tokens := tokens - F64.ofInt 1
    Lib.Redis.hmset server key [("tokens", tokens), ("last_refill", now)]
    let _ ← Lib.Redis.expire server key (F64.toInt? ttl)
    return (1, F64.toReply (F64.floor tokens))
  else
    Lib.Redis.hmset server key [("tokens", tokens), ("last_refill", now)]
    let _ ← Lib.Redis.expire server key (F64.toInt? ttl)
    return (0, 0)

end

/-- The double nearest to an integer, which carries it through a script. -/
def luaInt (n : ℤ) : ℤ :=
  let e := Nat.log2 n.natAbs - 52
  F64.roundEven ((n : ℚ) / 2 ^ e) * 2 ^ e

/-- The text of a double that is a whole number. -/
def luaText (n : ℤ) : String := Lib.Printf.general 14 n

/-- Seconds after which untouched stamps expire. -/
def slidingTtl (windowSecs : ℤ) : ℤ := luaInt (luaInt windowSecs + 10)

section
variable {ν : Type} (server : ℤ)

/-- The script of `sliding_window_check`; its arguments are texts, which
    `tonumber` reads as doubles. -/
def slidingWindowScript (key maxkey seqkey : String) (maxRequests now cutoff windowSecs : ℤ) :
    Script ν (ℤ × ℤ) := do
  let ttl := slidingTtl windowSecs
  let maxRequests := luaInt maxRequests
  let now := luaInt now
  let cutoff := luaInt cutoff
  Lib.Redis.setEx server maxkey (.ofNumber maxRequests) (some ttl)
  Lib.Redis.zremrangebyscore server key 0 cutoff
  let count := luaInt (← Lib.Redis.zcard server key)
  if count < maxRequests then
    let seq := luaInt (← Lib.Redis.incr server seqkey)
    let _ ← Lib.Redis.expire server seqkey (some ttl)
    Lib.Redis.zadd server key now (luaText now ++ "-" ++ luaText seq)
    let _ ← Lib.Redis.expire server key (some ttl)
    return (1, luaInt (luaInt (maxRequests - count) - 1))
  else
    return (0, 0)

/-- The script of `fixed_window_check`, of whose arguments only the time to live
    is read as a double. -/
def fixedWindowScript (key fwmax fwcur : String) (maxRequests windowId ttl : ℤ) :
    Script ν ℤ := do
  let ttl := luaInt ttl
  let count := luaInt (← Lib.Redis.incr server key)
  if count = 1 then
    let _ ← Lib.Redis.expire server key (some ttl)
    Lib.Redis.setEx server fwmax (.int maxRequests) (some ttl)
    Lib.Redis.setEx server fwcur (.int windowId) (some ttl)
  return count

end

end RedisStore

/-! ## The store -/

structure RedisStore where
  keyPrefix : String
  operationTimeout : ℕ
  deriving DecidableEq

/-- How an operation on the connection ends: with a reply after some time, or
    with none (`error` is what the connection reports instead, if anything), in
    which case the server may still have executed it. -/
inductive Delivery
  | answered (took : ℕ)
  | lost (executed : Bool) (error : Option String)

/-- The server executes the operation. -/
def Delivery.executed : Delivery → Bool
  | .answered _ => true
  | .lost executed _ => executed

/-- A turn of the loop in `reset`: the keys that `SCAN` returns, and how it and
    the `UNLINK` of these keys end. -/
structure SweepTurn where
  scan : Delivery
  keys : List String
  unlink : Delivery

/-- What a call reads: the caller's clock (a `SystemTime`), the server's clock
    when the script executes, and how the operation ends. -/
structure RedisEnv where
  unix : ℤ
  server : ℤ
  delivery : Delivery

/-- What the client makes of a reply that should be an integer: its error for one
    that is none, and the integer that the server's notation of a large number
    denotes to it, if any. -/
structure ReplyReader where
  incompatibleType : String
  number? : ℤ → Option ℤ

/-- What the operations of a query read. -/
structure QueryEnv where
  probe : RedisEnv
  companions : RedisEnv
  count : RedisEnv
  reader : ReplyReader

namespace RedisStore

variable {ν α : Type}

def defaultOperationTimeout : ℕ := Duration.fromSecs 3

def withOperationTimeout (self : RedisStore) (timeout : ℕ) : RedisStore :=
  { self with operationTimeout := timeout }

/-- Get the full key with prefix. -/
def key (self : RedisStore) (suffix : String) : String := self.keyPrefix ++ ":" ++ suffix

/-- The first part of a key after the prefix, such as `tb:`: its only colon is
    at its end. -/
def IsKind (a : String) : Prop := a.toList.getLast? = some ':' ∧ ':' ∉ a.toList.dropLast

instance (a : String) : Decidable (IsKind a) := inferInstanceAs (Decidable (_ ∧ _))

/-- A key tells its kind and what follows. -/
theorem key_inj {self : RedisStore} {a b x y : String} (ha : IsKind a) (hb : IsKind b)
    (h : self.key (a ++ x) = self.key (b ++ y)) : a = b ∧ x = y := by
  have hcs := List.dropLast_append_getLast? _ ha.1
  have hds := List.dropLast_append_getLast? _ hb.1
  have hlist := congrArg String.toList h
  simp only [key, String.toList_append, List.append_assoc, List.append_cancel_left_eq] at hlist
  rw [← hcs, ← hds, List.append_assoc, List.append_assoc] at hlist
  obtain ⟨hkind, hrest⟩ := Texts.sep_append_inj ha.2 hb.2 hlist
  rw [hkind, hds] at hcs
  exact ⟨String.toList_injective hcs.symm, String.toList_injective hrest⟩

theorem key_ne {self : RedisStore} {a b x y : String} (ha : IsKind a) (hb : IsKind b)
    (h : a ≠ b) : self.key (a ++ x) ≠ self.key (b ++ y) :=
  fun heq => h (key_inj ha hb heq).1

/-- Run an operation under the timeout; Redis-level errors become store errors. -/
def withOpTimeout (self : RedisStore) (env : RedisEnv) (x : Script ν α) (db : Db ν) :
    Outcome α × Db ν :=
  match env.delivery with
  | .answered took =>
    if took ≤ self.operationTimeout then
      match x db with
      | (.ok a, db') => (.ok a, db')
      | (.error msg, db') => (.error (.err (.storeError msg)), db')
    else (.error (.err .timeout), (x db).2)
  | .lost executed error =>
    let db' := if executed then (x db).2 else db
    match error with
    | some msg => (.error (.err (.storeError msg)), db')
    | none => (.error (.err .timeout), db')

/-- An operation leaves the keys as they were or as its script does. -/
theorem withOpTimeout_snd {store : RedisStore} (env : RedisEnv) (x : Script ν α) (db : Db ν) :
    (store.withOpTimeout env x db).2 = db ∨ (store.withOpTimeout env x db).2 = (x db).2 := by
  simp only [withOpTimeout]
  cases env.delivery with
  | answered took =>
    simp only
    split_ifs
    · split <;> rename_i hx <;> rw [hx] <;> exact .inr rfl
    · exact .inr rfl
  | lost executed error =>
    cases executed <;> cases error
    · exact .inl rfl
    · exact .inl rfl
    · exact .inr rfl
    · exact .inr rfl

/-- What comes back is what the script answered. -/
theorem withOpTimeout_ok {store : RedisStore} {env : RedisEnv} {x : Script ν α} {db : Db ν} {a : α}
    (h : (store.withOpTimeout env x db).1 = .ok a) :
    (x db).1 = .ok a ∧ (store.withOpTimeout env x db).2 = (x db).2 := by
  simp only [withOpTimeout] at h ⊢
  cases hd : env.delivery with
  | answered took =>
    simp only [hd] at h ⊢
    split_ifs at h ⊢
    cases hx : x db with
    | mk r db' =>
      rw [hx] at h
      cases r with
      | ok b =>
        obtain rfl := Except.ok.inj h
        exact ⟨rfl, rfl⟩
      | error msg => cases h
  | lost executed error =>
    simp only [hd] at h
    cases error <;> cases h

/-- A call with a timeout leaves the keys as they were, with an answer that admits
    nothing, or as its script does, with the answer of the script if any. -/
theorem withOpTimeout_executes (store : RedisStore) (env : RedisEnv) (x : Script ν α)
    (f : α → Bool × ℕ) (db : Db ν) :
    let r := store.withOpTimeout env x db
    r.2 = db ∧ isAdmitted (r.1.map f) = false ∨
      r.2 = (x db).2 ∧ (isAdmitted (r.1.map f) = true →
        ∃ a, (x db).1 = .ok a ∧ (f a).1 = true) := by
  cases hr : (store.withOpTimeout env x db).1 with
  | error e =>
    refine (withOpTimeout_snd env x db).imp (fun h => ⟨h, by rw [hr]; rfl⟩) fun h => ⟨h, ?_⟩
    rw [hr]
    intro hadm
    cases hadm
  | ok a =>
    obtain ⟨hok, hstate⟩ := withOpTimeout_ok hr
    refine .inr ⟨hstate, fun hadm => ⟨a, hok, ?_⟩⟩
    rw [hr] at hadm
    exact hadm

theorem withOpTimeout_executed {store : RedisStore} {env : RedisEnv}
    (h : env.delivery.executed = true) (x : Script ν α) (db : Db ν) :
    (store.withOpTimeout env x db).2 = (x db).2 := by
  unfold withOpTimeout
  cases hd : env.delivery with
  | answered took =>
    simp only
    split_ifs
    · split <;> rename_i hx <;> rw [hx]
    · rfl
  | lost executed error =>
    rw [hd] at h
    obtain rfl : executed = true := h
    cases error <;> rfl

theorem withOpTimeout_answered {store : RedisStore} {env : RedisEnv} {took : ℕ}
    (hd : env.delivery = .answered took) (htook : took ≤ store.operationTimeout)
    (x : Script ν α) (db : Db ν) :
    (store.withOpTimeout env x db).1 = (x db).1.mapError fun msg => .err (.storeError msg) := by
  unfold withOpTimeout
  simp only [hd, htook, if_true]
  split <;> rename_i hx <;> rw [hx] <;> rfl

section
variable (keyDigest : String → String)

def tokenBucketCheck [F64 ν] (self : RedisStore) (env : RedisEnv) (key : String) (capacity : ℕ)
    (refillRate : ν) (db : Db ν) : Outcome (Bool × ℕ) × Db ν :=
  let fullKey := self.key ("tb:" ++ keyDigest key)
  match sinceEpoch env.unix with
  | none => (.error .panic, db)
  | some d =>
    let now := F64.ofDuration d
    let r := self.withOpTimeout env
      (tokenBucketScript env.server fullKey (F64.ofInt capacity) refillRate now) db
    (r.1.map fun result => (result.1 == 1, asU64 result.2), r.2)

def slidingWindowCheck (self : RedisStore) (env : RedisEnv) (key : String)
    (maxRequests window : ℕ) (db : Db ν) : Outcome (Bool × ℕ) × Db ν :=
  let digest := keyDigest key
  let fullKey := self.key ("sw:" ++ digest)
  let windowMs := asI64 (Duration.asMillis window)
  match sinceEpoch env.unix with
  | none => (.error .panic, db)
  | some d =>
    let now := asI64 (Duration.asMillis d)
    let cutoff := now - windowMs
    if asI64 cutoff ≠ cutoff then (.error .panic, db)
    else
      let r := self.withOpTimeout env
        (slidingWindowScript env.server fullKey (self.key ("swmax:" ++ digest))
          (self.key ("swseq:" ++ digest)) maxRequests now cutoff (Duration.asSecs window)) db
      (r.1.map fun result => (result.1 == 1, asU64 result.2), r.2)

def fixedWindowCheck (self : RedisStore) (env : RedisEnv) (key : String)
    (maxRequests window : ℕ) (db : Db ν) : Outcome (Bool × ℕ) × Db ν :=
  let digest := keyDigest key
  let windowMs := max (asU64 (Duration.asMillis window)) 1
  match sinceEpoch env.unix with
  | none => (.error .panic, db)
  | some d =>
    let nowMs := asU64 (Duration.asMillis d)
    let windowId := nowMs / windowMs
    let fullKey := self.key ("fw:" ++ digest ++ ":" ++ toString windowId)
    let ttlSecs := asI64 (max ((windowMs + 999) / 1000) 1 + 10 : ℕ)
    let r := self.withOpTimeout env
      (fixedWindowScript env.server fullKey (self.key ("fwmax:" ++ digest))
        (self.key ("fwcur:" ++ digest)) maxRequests windowId ttlSecs) db
    (r.1.map fun result =>
      let count := asU64 result
      if count ≤ maxRequests then (true, maxRequests - count) else (false, 0), r.2)

/-! ## Queries -/

section
variable (reader : ReplyReader)

/-- The integer that a text denotes. -/
def readText : Lib.Redis.Text → Option ℤ
  | .decimal n => some n
  | .number n => reader.number? n

/-- A reply as an `Option<u64>`. -/
def optionU64 : Option Lib.Redis.Text → Except String (Option ℕ)
  | none => .ok none
  | some text =>
    match readText reader text with
    | some n => if 0 ≤ n ∧ n ≤ u64Max then .ok (some n.toNat) else .error reader.incompatibleType
    | none => .error reader.incompatibleType

/-- The three companion pointers. -/
def companionQuery (server : ℤ) (fwcur fwmax swmax : String) :
    Script ν (Option ℕ × Option ℕ × Option ℕ) := do
  let reply ← Lib.Redis.mget server [fwcur, fwmax, swmax]
  let windowId ← Script.ofExcept (optionU64 reader reply[0]?.join)
  let fixedMax ← Script.ofExcept (optionU64 reader reply[1]?.join)
  let slidingMax ← Script.ofExcept (optionU64 reader reply[2]?.join)
  return (windowId, fixedMax, slidingMax)

def counterQuery (server : ℤ) (key : String) : Script ν (Option ℕ) := do
  let reply ← Lib.Redis.get server key
  Script.ofExcept (optionU64 reader reply)

end

/-- What is left of a limit; a query runs up to three operations, each at its
    own time. -/
def remaining [F64 ν] (self : RedisStore) (env : QueryEnv) (key : String) (db : Db ν) :
    Outcome ℕ × Db ν :=
  let digest := keyDigest key
  -- token bucket, probed first
  match self.withOpTimeout env.probe
      (Lib.Redis.hget env.probe.server (self.key ("tb:" ++ digest)) "tokens") db with
  | (.error e, db) => (.error e, db)
  | (.ok (some t), db) => (.ok (F64.toU64 (F64.max t (F64.ofInt 0))), db)
  | (.ok none, db) =>
    match self.withOpTimeout env.companions
        (companionQuery env.reader env.companions.server (self.key ("fwcur:" ++ digest))
          (self.key ("fwmax:" ++ digest)) (self.key ("swmax:" ++ digest))) db with
    | (.error e, db) => (.error e, db)
    | (.ok (some windowId, some limit, _), db) =>
      match self.withOpTimeout env.count (counterQuery env.reader env.count.server
          (self.key ("fw:" ++ digest ++ ":" ++ toString windowId))) db with
      | (.error e, db) => (.error e, db)
      | (.ok count, db) => (.ok (limit - count.getD 0), db)
    | (.ok (_, _, some limit), db) =>
      match self.withOpTimeout env.count
          (Lib.Redis.zcard env.count.server (self.key ("sw:" ++ digest))) db with
      | (.error e, db) => (.error e, db)
      | (.ok count, db) => (.ok (limit - asU64 count), db)
    | (.ok _, db) => (.ok 0, db)

/-! ## Reset -/

/-- The keys of a rate-limit key that carry no window id. -/
def fixedKeys (self : RedisStore) (key : String) : List String :=
  let digest := keyDigest key
  [self.key ("tb:" ++ digest), self.key ("sw:" ++ digest), self.key ("swmax:" ++ digest),
    self.key ("swseq:" ++ digest), self.key ("fwmax:" ++ digest), self.key ("fwcur:" ++ digest)]

/-- The pattern of the keys that carry a window id. -/
def sweepPattern (self : RedisStore) (key : String) : String :=
  self.key ("fw:" ++ keyDigest key ++ ":*")

omit keyDigest in
/-- The loop of `reset`: what `SCAN` returned is unlinked, turn by turn. -/
def sweep (self : RedisStore) (env : RedisEnv) : List SweepTurn → Db ν → Outcome Unit × Db ν
  | [], db => (.ok (), db)
  | turn :: turns, db =>
    match self.withOpTimeout { env with delivery := turn.scan } (pure turn.keys) db with
    | (.error e, db) => (.error e, db)
    | (.ok keys, db) =>
      if keys.isEmpty then sweep self env turns db
      else
        match self.withOpTimeout { env with delivery := turn.unlink }
            (Lib.Redis.unlink keys) db with
        | (.error e, db) => (.error e, db)
        | (.ok _, db) => sweep self env turns db

/-- `scan` is how the server answers the iteration with a pattern. -/
def reset (self : RedisStore) (env : RedisEnv) (scan : String → List SweepTurn) (key : String)
    (db : Db ν) : Outcome Unit × Db ν :=
  match self.withOpTimeout env (Lib.Redis.unlink (self.fixedKeys keyDigest key)) db with
  | (.error e, db) => (.error e, db)
  | (.ok _, db) => self.sweep env (scan (self.sweepPattern keyDigest key)) db

/-! ## Backend -/

/-- The store as a backend. -/
def backend [F64 ν] (self : RedisStore) : RateLimitStore ν RedisEnv (Db ν) where
  tokenBucketCheck := self.tokenBucketCheck keyDigest
  slidingWindowCheck := self.slidingWindowCheck keyDigest
  fixedWindowCheck := self.fixedWindowCheck keyDigest

end

end RedisStore

end ArmatureRatelimit
