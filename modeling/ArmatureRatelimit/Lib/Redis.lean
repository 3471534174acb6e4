/-
  A fragment of a Redis server: keys that hold hashes, sorted sets or strings
  and may have a deadline, the commands that the scripts of a client call on
  them, and scripts as sequences of commands.

  A script runs atomically, and the server's clock (`now`, in milliseconds)
  stands still while it does.  A key past its deadline is treated as missing.
  A command that fails ends the script; what was already executed stays.  A
  time to live is the integer that its text denotes, `none` if it denotes none.
  A string is an integer, or the text that the server makes of a large number
  which a script passes to a command (`Value.ofNumber`).
-/
import ArmatureRatelimit.Lib.KeyMap

namespace Lib.Redis

variable {ν α β : Type}

/-! ## Data -/

/-- A string: a decimal, or a number in the notation of the server, which
    depends on its version. -/
inductive Text
  | decimal (n : ℤ)
  | number (n : ℤ)

/-- The text of a whole number of a script: its decimal, as long as every version
    of the server writes it so. -/
def Text.ofNumber (n : ℤ) : Text := if n.natAbs < 10 ^ 17 then .decimal n else .number n

inductive Value (ν : Type)
  | hash (fields : KeyMap String ν)
  | zset (scores : KeyMap String ℤ)
  | int (n : ℤ)
  | number (n : ℤ)

/-- What a command stores for a whole number of a script. -/
def Value.ofNumber (n : ℤ) : Value ν := if n.natAbs < 10 ^ 17 then .int n else .number n

structure Entry (ν : Type) where
  value : Value ν
  deadline : Option ℤ

abbrev Db (ν : Type) := KeyMap String (Entry ν)

def Entry.live (now : ℤ) (e : Entry ν) : Bool := e.deadline.all fun d => decide (now ≤ d)

/-- The entry at `key` that a command sees at `now`. -/
def find (now : ℤ) (key : String) (db : Db ν) : Option (Entry ν) :=
  (db.lookup key).filter (Entry.live now)

/-! ## Scripts -/

def Script (ν α : Type) := Db ν → Except String α × Db ν

namespace Script

def ok (a : α) : Script ν α := fun db => (.ok a, db)

def bind (x : Script ν α) (f : α → Script ν β) : Script ν β := fun db =>
  match x db with
  | (.ok a, db') => f a db'
  | (.error msg, db') => (.error msg, db')

instance : Monad (Script ν) where
  pure := ok
  bind := bind

/-- A result that needs no keys. -/
def ofExcept (r : Except String α) : Script ν α := fun db => (r, db)

theorem bind_ok {x : Script ν α} {db db' : Db ν} {a : α} (h : x db = (.ok a, db'))
    (f : α → Script ν β) : (x >>= f) db = f a db' := by
  show bind x f db = _
  simp only [bind, h]

theorem bind_error {x : Script ν α} {db db' : Db ν} {msg : String} (h : x db = (.error msg, db'))
    (f : α → Script ν β) : (x >>= f) db = (.error msg, db') := by
  show bind x f db = _
  simp only [bind, h]

end Script

/-! ## Commands -/

def wrongType : String := "WRONGTYPE Operation against a key holding the wrong kind of value"

def notInteger : String := "ERR value is not an integer or out of range"

def invalidExpire (command : String) : String :=
  "ERR invalid expire time in '" ++ command ++ "' command"

def int64Max : ℤ := 2 ^ 63 - 1

/-- The deadline of a key that gets a time to live of `ttl` seconds. -/
def deadlineOf (command : String) (now : ℤ) (ttl : Option ℤ) : Except String ℤ :=
  match ttl with
  | none => .error notInteger
  | some t =>
    if int64Max < now + 1000 * t then .error (invalidExpire command) else .ok (now + 1000 * t)

section
variable (now : ℤ) (key : String)

def hmget (fields : List String) : Script ν (List (Option ν)) := fun db =>
  match find now key db with
  | none => (.ok (fields.map fun _ => none), db)
  | some ⟨.hash h, _⟩ => (.ok (fields.map h.lookup), db)
  | some _ => (.error wrongType, db)

def hget (field : String) : Script ν (Option ν) := fun db =>
  match find now key db with
  | none => (.ok none, db)
  | some ⟨.hash h, _⟩ => (.ok (h.lookup field), db)
  | some _ => (.error wrongType, db)

def hmset (pairs : List (String × ν)) : Script ν Unit := fun db =>
  let write (h : KeyMap String ν) : Value ν := .hash (pairs.foldl (fun h p => h.insert p.1 p.2) h)
  match find now key db with
  | none => (.ok (), db.insert key ⟨write ∅, none⟩)
  | some ⟨.hash h, d⟩ => (.ok (), db.insert key ⟨write h, d⟩)
  | some _ => (.error wrongType, db)

/-- A deadline that is not in the future deletes the key. -/
def expire (ttl : Option ℤ) : Script ν Bool := fun db =>
  match deadlineOf "expire" now ttl with
  | .error msg => (.error msg, db)
  | .ok d =>
    match find now key db with
    | none => (.ok false, db)
    | some e => (.ok true, if d ≤ now then db.erase key else db.insert key ⟨e.value, some d⟩)

/-- `SET key v EX ttl`. -/
def setEx (v : Value ν) (ttl : Option ℤ) : Script ν Unit := fun db =>
  match deadlineOf "set" now ttl with
  | .error msg => (.error msg, db)
  | .ok d =>
    if d ≤ now then (.error (invalidExpire "set"), db)
    else (.ok (), db.insert key ⟨v, some d⟩)

def incr : Script ν ℤ := fun db =>
  match find now key db with
  | none => (.ok 1, db.insert key ⟨.int 1, none⟩)
  | some ⟨.int n, d⟩ =>
    if n = int64Max then (.error "ERR increment or decrement would overflow", db)
    else (.ok (n + 1), db.insert key ⟨.int (n + 1), d⟩)
  | some ⟨.number _, _⟩ => (.error notInteger, db)
  | some _ => (.error wrongType, db)

def get : Script ν (Option Text) := fun db =>
  match find now key db with
  | none => (.ok none, db)
  | some ⟨.int n, _⟩ => (.ok (some (.decimal n)), db)
  | some ⟨.number n, _⟩ => (.ok (some (.number n)), db)
  | some _ => (.error wrongType, db)

/-- An emptied sorted set is deleted. -/
def zremrangebyscore (lo hi : ℤ) : Script ν Unit := fun db =>
  match find now key db with
  | none => (.ok (), db)
  | some ⟨.zset z, d⟩ =>
    let z := z.retain fun score => decide (score < lo ∨ hi < score)
    (.ok (), if z.size = 0 then db.erase key else db.insert key ⟨.zset z, d⟩)
  | some _ => (.error wrongType, db)

def zcard : Script ν ℕ := fun db =>
  match find now key db with
  | none => (.ok 0, db)
  | some ⟨.zset z, _⟩ => (.ok z.size, db)
  | some _ => (.error wrongType, db)

def zadd (score : ℤ) (member : String) : Script ν Unit := fun db =>
  match find now key db with
  | none => (.ok (), db.insert key ⟨.zset (AList.insert member score ∅), none⟩)
  | some ⟨.zset z, d⟩ => (.ok (), db.insert key ⟨.zset (z.insert member score), d⟩)
  | some _ => (.error wrongType, db)

/-- `UNLINK` of some keys. -/
def unlink (keys : List String) : Script ν Unit := fun db => (.ok (), db.removeAll keys)

end

namespace Value

def asHash : Value ν → Option (KeyMap String ν)
  | .hash h => some h
  | _ => none

def asZset : Value ν → Option (KeyMap String ℤ)
  | .zset z => some z
  | _ => none

def asInt : Value ν → Option ℤ
  | .int n => some n
  | _ => none

def asText : Value ν → Option Text
  | .int n => some (.decimal n)
  | .number n => some (.number n)
  | _ => none

theorem asText_ofNumber (n : ℤ) : (ofNumber n : Value ν).asText = some (.ofNumber n) := by
  unfold ofNumber Text.ofNumber
  split_ifs <;> rfl

end Value

/-- Keys that hold another kind of value read as missing. -/
def mget (now : ℤ) (keys : List String) : Script ν (List (Option Text)) := fun db =>
  (.ok (keys.map fun key => (find now key db).bind fun e => e.value.asText), db)

/-! ## Servers without expiry -/

/-- The keys as a server would hold them that never expires any. -/
def forgetDeadlines (db : Db ν) : Db ν := db.mapValues fun e => { e with deadline := none }

theorem find_forgetDeadlines (now : ℤ) (key : String) (db : Db ν) :
    find now key (forgetDeadlines db) =
      (db.lookup key).map fun e => { e with deadline := none } := by
  rw [find, forgetDeadlines, KeyMap.lookup_mapValues]
  cases db.lookup key <;> rfl

/-! ## Times to live -/

/-- A time to live of `ttl` seconds is accepted at `now`. -/
def ValidTtl (now : ℤ) (ttl : Option ℤ) : Prop := ∃ t, ttl = some t ∧ now + 1000 * t ≤ int64Max

theorem deadlineOf_valid {command : String} {now t : ℤ} (h : now + 1000 * t ≤ int64Max) :
    deadlineOf command now (some t) = .ok (now + 1000 * t) := by
  simp only [deadlineOf, not_lt.mpr h, if_false]

theorem deadlineOf_invalid {now : ℤ} {ttl : Option ℤ} (h : ¬ ValidTtl now ttl)
    (command : String) : ∃ msg, deadlineOf command now ttl = .error msg := by
  cases ttl with
  | none => exact ⟨_, rfl⟩
  | some t =>
    have hlt : int64Max < now + 1000 * t := by
      by_contra hle
      exact h ⟨t, rfl, not_lt.mp hle⟩
    exact ⟨invalidExpire command, by simp only [deadlineOf, hlt, if_true]⟩

theorem find_insert_self (now : ℤ) (key : String) (e : Entry ν) (db : Db ν) :
    find now key (db.insert key e) = if e.live now then some e else none := by
  rw [find, AList.lookup_insert, Option.filter_some]

theorem expire_error {now : ℤ} {ttl : Option ℤ} {msg : String}
    (hdl : deadlineOf "expire" now ttl = .error msg) (key : String) (db : Db ν) :
    expire now key ttl db = (.error msg, db) := by simp only [expire, hdl]

theorem expire_live {now dl : ℤ} {ttl : Option ℤ} {key : String} {e : Entry ν} {db : Db ν}
    (hdl : deadlineOf "expire" now ttl = .ok dl) (hfind : find now key db = some e) :
    expire now key ttl db =
      (.ok true, if dl ≤ now then db.erase key else db.insert key ⟨e.value, some dl⟩) := by
  simp only [expire, hdl, hfind]

/-- A key that was just written gets any valid deadline in the future. -/
theorem expire_insert {now t : ℤ} {e : Entry ν} (hlive : e.live now = true) (ht : 0 < t)
    (hvalid : now + 1000 * t ≤ int64Max) (key : String) (db : Db ν) :
    expire now key (some t) (db.insert key e) =
      (.ok true, (db.insert key e).insert key ⟨e.value, some (now + 1000 * t)⟩) := by
  rw [expire_live (deadlineOf_valid hvalid) ((find_insert_self now key e db).trans
    (if_pos hlive)), if_neg (by omega)]

theorem setEx_valid {now t : ℤ} (ht : 0 < t) (hvalid : now + 1000 * t ≤ int64Max)
    (key : String) (v : Value ν) (db : Db ν) : setEx now key v (some t) db =
      (.ok (), db.insert key ⟨v, some (now + 1000 * t)⟩) := by
  simp only [setEx, deadlineOf_valid hvalid]
  rw [if_neg (by omega)]

/-! ## Views

What a command that works on one kind of value sees at its key. -/

section
variable (kind : Value ν → Option α) (missing : α) (now : ℤ) (key : String) (db : Db ν)

/-- The value at `key`, with the deadline of the key; a missing key reads as the
    value `missing`, and a value of another kind as `none`. -/
def viewAt : Option (α × Option ℤ) :=
  match find now key db with
  | none => some (missing, none)
  | some e => (kind e.value).map fun a => (a, e.deadline)

/-- A missing hash has no fields. -/
abbrev hashAt : Option (KeyMap String ν × Option ℤ) := viewAt Value.asHash ∅ now key db

/-- A missing sorted set is empty. -/
abbrev zsetAt : Option (KeyMap String ℤ × Option ℤ) := viewAt Value.asZset ∅ now key db

/-- A missing integer is zero. -/
abbrev intAt : Option (ℤ × Option ℤ) := viewAt Value.asInt 0 now key db

/-- The integer at `key`, zero if there is none. -/
def integerAt : ℤ := ((intAt now key db).map Prod.fst).getD 0

/-- The members at `key`, none if there is no sorted set. -/
def membersAt : KeyMap String ℤ := ((zsetAt now key db).map Prod.fst).getD ∅

end

section
variable {kind : Value ν → Option α} {missing a : α} {now : ℤ} {key : String} {db db' : Db ν}
  {d : Option ℤ}

theorem viewAt_cases (h : viewAt kind missing now key db = some (a, d)) :
    (find now key db = none ∧ a = missing ∧ d = none) ∨
      ∃ v, find now key db = some ⟨v, d⟩ ∧ kind v = some a := by
  simp only [viewAt] at h
  split at h
  · obtain ⟨rfl, rfl⟩ := Prod.mk.inj (Option.some.inj h)
    exact .inl ⟨‹_›, rfl, rfl⟩
  · rename_i e hfind
    obtain ⟨a', ha, hpair⟩ := Option.map_eq_some_iff.mp h
    obtain ⟨rfl, rfl⟩ := Prod.mk.inj hpair
    exact .inr ⟨e.value, hfind, ha⟩

theorem viewAt_none (h : find now key db = none) :
    viewAt kind missing now key db = some (missing, none) := by simp only [viewAt, h]

theorem viewAt_some {v : Value ν} (h : find now key db = some ⟨v, d⟩) (hv : kind v = some a) :
    viewAt kind missing now key db = some (a, d) := by
  simp only [viewAt, h, hv, Option.map_some]

theorem integerAt_eq {n : ℤ} (h : intAt now key db = some (n, d)) : integerAt now key db = n := by
  rw [integerAt, h]
  rfl

theorem membersAt_eq {z : KeyMap String ℤ} (h : zsetAt now key db = some (z, d)) :
    membersAt now key db = z := by
  rw [membersAt, h]
  rfl

/-- The deadline of a value that is seen has not passed. -/
theorem viewAt_live (h : viewAt kind missing now key db = some (a, d)) (v : Value ν) :
    Entry.live now ⟨v, d⟩ = true := by
  rcases viewAt_cases h with ⟨-, -, rfl⟩ | ⟨w, hfind, -⟩
  · rfl
  · exact (Option.filter_eq_some_iff.mp hfind).2

/-- A key that has not expired is found. -/
theorem find_live (h : ∀ e, db.lookup key = some e → e.live now = true) :
    find now key db = db.lookup key := by
  unfold find
  cases he : db.lookup key with
  | none => rfl
  | some e => rw [Option.filter_some, if_pos (h e he)]

theorem find_congr (h : db'.lookup key = db.lookup key) : find now key db' = find now key db := by
  rw [find, find, h]

theorem viewAt_congr (h : db'.lookup key = db.lookup key) :
    viewAt kind missing now key db' = viewAt kind missing now key db := by
  simp only [viewAt, find_congr h]

end

section
variable {now : ℤ} {key : String} {db : Db ν} {d : Option ℤ}

theorem hmget_hashAt {h : KeyMap String ν} (hh : hashAt now key db = some (h, d))
    (fields : List String) : hmget now key fields db = (.ok (fields.map h.lookup), db) := by
  rcases viewAt_cases hh with ⟨hfind, rfl, rfl⟩ | ⟨v, hfind, hv⟩
  · simp only [hmget, hfind, AList.lookup_empty]
  · cases v <;> cases hv
    simp only [hmget, hfind]

theorem hmset_hashAt {h : KeyMap String ν} (hh : hashAt now key db = some (h, d))
    (pairs : List (String × ν)) : hmset now key pairs db = (.ok (), db.insert key
      ⟨.hash (pairs.foldl (fun h p => h.insert p.1 p.2) h), d⟩) := by
  rcases viewAt_cases hh with ⟨hfind, rfl, rfl⟩ | ⟨v, hfind, hv⟩
  · simp only [hmset, hfind]
  · cases v <;> cases hv
    simp only [hmset, hfind]

theorem hget_hashAt {h : KeyMap String ν} (hh : hashAt now key db = some (h, d))
    (field : String) : hget now key field db = (.ok (h.lookup field), db) := by
  rcases viewAt_cases hh with ⟨hfind, rfl, rfl⟩ | ⟨v, hfind, hv⟩
  · simp only [hget, hfind, AList.lookup_empty]
  · cases v <;> cases hv
    simp only [hget, hfind]

/-- A missing integer reads as zero. -/
theorem get_intAt {n : ℤ} (hn : intAt now key db = some (n, d)) :
    (n = 0 ∧ get now key db = (.ok none, db)) ∨
      get now key db = (.ok (some (.decimal n)), db) := by
  rcases viewAt_cases hn with ⟨hfind, rfl, rfl⟩ | ⟨v, hfind, hv⟩
  · exact .inl ⟨rfl, by simp only [get, hfind]⟩
  · cases v <;> cases hv
    exact .inr (by simp only [get, hfind])

theorem zcard_zsetAt {z : KeyMap String ℤ} (hz : zsetAt now key db = some (z, d)) :
    zcard now key db = (.ok z.size, db) := by
  rcases viewAt_cases hz with ⟨hfind, rfl, rfl⟩ | ⟨v, hfind, hv⟩
  · simp only [zcard, hfind]; rfl
  · cases v <;> cases hv
    simp only [zcard, hfind]

theorem zadd_zsetAt {z : KeyMap String ℤ} (hz : zsetAt now key db = some (z, d)) (score : ℤ)
    (member : String) : zadd now key score member db =
      (.ok (), db.insert key ⟨.zset (z.insert member score), d⟩) := by
  rcases viewAt_cases hz with ⟨hfind, rfl, rfl⟩ | ⟨v, hfind, hv⟩
  · simp only [zadd, hfind]
  · cases v <;> cases hv
    simp only [zadd, hfind]

theorem incr_intAt {n : ℤ} (hn : intAt now key db = some (n, d)) (hmax : n ≠ int64Max) :
    incr now key db = (.ok (n + 1), db.insert key ⟨.int (n + 1), d⟩) := by
  rcases viewAt_cases hn with ⟨hfind, rfl, rfl⟩ | ⟨v, hfind, hv⟩
  · simp only [incr, hfind]; rfl
  · cases v <;> cases hv
    simp only [incr, hfind, hmax, if_false]

theorem incr_overflow (hn : intAt now key db = some (int64Max, d)) :
    ∃ msg, incr now key db = (.error msg, db) := by
  rcases viewAt_cases hn with ⟨-, hzero, -⟩ | ⟨v, hfind, hv⟩
  · exact absurd hzero (by decide)
  · cases v <;> cases hv
    exact ⟨"ERR increment or decrement would overflow", by simp only [incr, hfind, if_true]⟩

/-- The members with a score between two bounds are removed, and an emptied set
    with its key. -/
theorem zremrangebyscore_zsetAt {z : KeyMap String ℤ} (hz : zsetAt now key db = some (z, d))
    (lo hi : ℤ) : ∃ db' d', zremrangebyscore now key lo hi db = (.ok (), db') ∧
      zsetAt now key db' = some (z.retain fun s => decide (s < lo ∨ hi < s), d') ∧
      (∀ k, k ≠ key → db'.lookup k = db.lookup k) ∧
      db'.lookup key = match find now key db with
        | none => db.lookup key
        | some _ => if (z.retain fun s => decide (s < lo ∨ hi < s)).size = 0 then none
          else some ⟨.zset (z.retain fun s => decide (s < lo ∨ hi < s)), d⟩ := by
  rcases viewAt_cases hz with ⟨hfind, rfl, rfl⟩ | ⟨v, hfind, hv⟩
  · refine ⟨db, none, ?_, ?_, fun k _ => rfl, ?_⟩
    · simp only [zremrangebyscore, hfind]
    · exact viewAt_none hfind
    · simp only [hfind]
  · cases v <;> cases hv
    have hlive := viewAt_live hz (.zset (z.retain fun s => decide (s < lo ∨ hi < s)))
    simp only [zremrangebyscore, hfind]
    by_cases hsize : (z.retain fun s => decide (s < lo ∨ hi < s)).size = 0
    · have hempty : (z.retain fun s => decide (s < lo ∨ hi < s)) = ∅ :=
        AList.ext (List.eq_nil_of_length_eq_zero hsize)
      refine ⟨_, none, rfl, ?_, ?_, ?_⟩
      · rw [if_pos hsize, hempty]
        refine viewAt_none ?_
        rw [find, AList.lookup_erase]; rfl
      · intro k hk
        rw [if_pos hsize, AList.lookup_erase_ne hk]
      · rw [if_pos hsize, if_pos hsize, AList.lookup_erase]
    · refine ⟨_, d, rfl, ?_, ?_, ?_⟩
      · rw [if_neg hsize]
        refine viewAt_some (v := .zset _) ?_ rfl
        rw [find_insert_self, if_pos hlive]
      · intro k hk
        rw [if_neg hsize, AList.lookup_insert_ne hk]
      · rw [if_neg hsize, if_neg hsize, AList.lookup_insert]

end

/-! ## Frames

What a script leaves alone, whatever kinds of values it finds. -/

/-- The script does not touch `k`. -/
def Script.Leaves (k : String) (x : Script ν α) : Prop := ∀ db, (x db).2.lookup k = db.lookup k

namespace Script.Leaves

variable {k : String}

theorem pure (a : α) : Leaves k (Pure.pure a : Script ν α) := fun _ => rfl

theorem bind {x : Script ν α} {f : α → Script ν β} (hx : Leaves k x)
    (hf : ∀ a, Leaves k (f a)) : Leaves k (x >>= f) := by
  intro db
  cases hrun : x db with
  | mk r db' =>
    have hdb' : db'.lookup k = db.lookup k := by
      have h := hx db
      rwa [hrun] at h
    cases r with
    | ok a => rw [bind_ok hrun, hf a db', hdb']
    | error msg => rw [bind_error hrun, hdb']

theorem ite {p : Prop} [Decidable p] {x y : Script ν α} (hx : Leaves k x) (hy : Leaves k y) :
    Leaves k (if p then x else y) := by
  split_ifs
  · exact hx
  · exact hy

end Script.Leaves

section
variable {now : ℤ} {key k : String} (h : k ≠ key)

theorem hmget_leaves (fields : List String) :
    Script.Leaves k (hmget now key fields : Script ν _) := by
  intro db
  unfold hmget
  split <;> rfl

include h

theorem hmset_leaves (pairs : List (String × ν)) : Script.Leaves k (hmset now key pairs) := by
  intro db
  unfold hmset
  simp only
  split
  · exact AList.lookup_insert_ne h
  · exact AList.lookup_insert_ne h
  · rfl

theorem expire_leaves (ttl : Option ℤ) : Script.Leaves k (expire now key ttl : Script ν _) := by
  intro db
  unfold expire
  split
  · rfl
  · split
    · rfl
    · simp only
      split_ifs
      · exact AList.lookup_erase_ne h
      · exact AList.lookup_insert_ne h

theorem setEx_leaves (v : Value ν) (ttl : Option ℤ) : Script.Leaves k (setEx now key v ttl) := by
  intro db
  unfold setEx
  split
  · rfl
  · split_ifs
    · rfl
    · exact AList.lookup_insert_ne h

theorem incr_leaves : Script.Leaves k (incr now key : Script ν _) := by
  intro db
  unfold incr
  split
  · exact AList.lookup_insert_ne h
  · split_ifs
    · rfl
    · exact AList.lookup_insert_ne h
  · rfl
  · rfl

theorem zremrangebyscore_leaves (lo hi : ℤ) :
    Script.Leaves k (zremrangebyscore now key lo hi : Script ν _) := by
  intro db
  unfold zremrangebyscore
  split
  · rfl
  · simp only
    split_ifs
    · exact AList.lookup_erase_ne h
    · exact AList.lookup_insert_ne h
  · rfl

omit h in
theorem zcard_leaves : Script.Leaves k (zcard now key : Script ν _) := by
  intro db
  unfold zcard
  split <;> rfl

theorem zadd_leaves (score : ℤ) (member : String) :
    Script.Leaves k (zadd now key score member : Script ν _) := by
  intro db
  unfold zadd
  split
  · exact AList.lookup_insert_ne h
  · exact AList.lookup_insert_ne h
  · rfl

end

/-! ## Queries -/

/-- The script writes nothing. -/
def Script.Reads (x : Script ν α) : Prop := ∀ db, (x db).2 = db

namespace Script.Reads

theorem ofExcept (r : Except String α) : Reads (Script.ofExcept r : Script ν α) := fun _ => rfl

theorem pure (a : α) : Reads (Pure.pure a : Script ν α) := fun _ => rfl

theorem bind {x : Script ν α} {f : α → Script ν β} (hx : Reads x) (hf : ∀ a, Reads (f a)) :
    Reads (x >>= f) := by
  intro db
  cases hrun : x db with
  | mk r db' =>
    have hdb' : db' = db := by
      have h := hx db
      rwa [hrun] at h
    cases r with
    | ok a => rw [bind_ok hrun, hf a db', hdb']
    | error msg => rw [bind_error hrun, hdb']

end Script.Reads

section
variable {now : ℤ} {key : String}

theorem hget_reads (field : String) : Script.Reads (hget now key field : Script ν _) := by
  intro db
  unfold hget
  split <;> rfl

theorem get_reads : Script.Reads (get now key : Script ν _) := by
  intro db
  unfold get
  split <;> rfl

theorem mget_reads (keys : List String) : Script.Reads (mget now keys : Script ν _) :=
  fun _ => rfl

theorem zcard_reads : Script.Reads (zcard now key : Script ν _) := by
  intro db
  unfold zcard
  split <;> rfl

end

end Lib.Redis
