/-
  What the sliding window script of the Redis store does to its keys.

  The script ends before it writes anything if its deadline is not accepted
  (`slidingWindowScript_invalid`).  Otherwise it prunes the stamps of the key,
  and grants the request if fewer than the limit are left
  (`slidingWindowScript_grant`, `slidingWindowScript_refuse`).  The member of a
  request ends with the text of its number, which tells the number up to
  `10 ^ 14` only (`stampMember_inj`).
-/
import ArmatureRatelimit.Scripts.Numbers

open Lib Lib.Redis

namespace ArmatureRatelimit

namespace RedisStore

variable {ν : Type}

/-- The three keys of the script: the stamps, the limit and the counter. -/
structure WindowKeys where
  key : String
  maxkey : String
  seqkey : String
  key_ne_max : key ≠ maxkey
  seq_ne_max : seqkey ≠ maxkey
  seq_ne_key : seqkey ≠ key

/-- The stamps that the script keeps. -/
def keptStamps (cutoff : ℤ) (z : KeyMap String ℤ) : KeyMap String ℤ :=
  z.retain fun s => decide (s < 0 ∨ luaInt cutoff < s)

/-- The member that the script adds. -/
def stampMember (now seq : ℤ) : String := luaText now ++ "-" ++ luaText seq

/-- The script finds room for a request among so many stamps. -/
def FindsRoom (maxRequests : ℤ) (count : ℕ) : Prop := luaInt count < luaInt maxRequests

instance (maxRequests : ℤ) (count : ℕ) : Decidable (FindsRoom maxRequests count) :=
  inferInstanceAs (Decidable (_ < _))

/-- What it says is left when it grants a request. -/
def leftAfter (maxRequests : ℤ) (count : ℕ) : ℤ :=
  luaInt (luaInt (luaInt maxRequests - luaInt count) - 1)

theorem findsRoom_def {maxRequests : ℤ} {count : ℕ} :
    FindsRoom maxRequests count ↔ luaInt count < luaInt maxRequests := .rfl

theorem FindsRoom.lt {maxRequests : ℤ} {count : ℕ} (h : FindsRoom maxRequests count) :
    count < maxRequests := lt_of_luaInt_lt h

/-- Below `2 ^ 53` the doubles compare as the numbers do. -/
theorem findsRoom_iff {maxRequests count : ℕ} (hmax : maxRequests < 2 ^ 53) :
    FindsRoom maxRequests count ↔ count < maxRequests := by
  refine ⟨fun h => by exact_mod_cast h.lt, fun h => ?_⟩
  unfold FindsRoom
  rw [luaInt_eq (by omega), luaInt_eq (by omega)]
  exact_mod_cast h

theorem leftAfter_eq {maxRequests count : ℕ} (hmax : maxRequests < 2 ^ 53)
    (hcount : count < maxRequests) : leftAfter maxRequests count = maxRequests - count - 1 := by
  unfold leftAfter
  rw [luaInt_eq (n := (maxRequests : ℤ)) (by omega), luaInt_eq (n := (count : ℤ)) (by omega),
    luaInt_eq (n := (maxRequests : ℤ) - count) (by omega), luaInt_eq (by omega)]

/-- Members with different numbers are different, whatever their stamps, up to
    the first number that is too long for the text. -/
theorem stampMember_inj {a b : ℤ} {m n : ℕ} (hm : m < 10 ^ 14) (hn : n ≤ 10 ^ 14)
    (h : stampMember a m = stampMember b n) : m = n := by
  have htext : ∀ (s : ℤ) (k : ℕ), (stampMember s k).toList =
      (luaText s).toList ++ '-' :: (Printf.general 14 k).toList := by
    intro s k
    rw [stampMember, String.toList_append, String.toList_append, List.append_assoc]
    rfl
  have hlist := congrArg String.toList h
  rw [htext, htext] at hlist
  exact Printf.numbered_general_inj (by decide) (by decide) hm hn hlist

theorem stampMember_ne {a b : ℤ} {i q : ℕ} (hi : i ≤ q) (hq : q < 10 ^ 14) :
    stampMember a (luaInt i) ≠ stampMember b (luaInt ((q + 1 : ℕ) : ℤ)) := by
  rw [luaInt_eq (by omega), luaInt_eq (by omega)]
  intro heq
  have := stampMember_inj (by omega) (by omega) heq
  omega

/-- The stamps that the script leaves when it only prunes. -/
def prunedEntry (server cutoff : ℤ) : Option (Entry ν) → Option (Entry ν)
  | some ⟨.zset z, d⟩ =>
    if Entry.live server (⟨.zset z, d⟩ : Entry ν) = false then some ⟨.zset z, d⟩
    else if (keptStamps cutoff z).size = 0 then none
    else some ⟨.zset (keptStamps cutoff z), d⟩
  | e => e

/-- The stamps that are left were there, or are those that are kept. -/
theorem prunedEntry_cases {server cutoff : ℤ} {e : Option (Entry ν)} {z : KeyMap String ℤ}
    {d : Option ℤ} (h : prunedEntry server cutoff e = some ⟨.zset z, d⟩) :
    ∃ z₀, e = some ⟨.zset z₀, d⟩ ∧ (z = z₀ ∨ z = keptStamps cutoff z₀) := by
  unfold prunedEntry at h
  split at h
  · rename_i z₀ d₀
    split_ifs at h
    · exact ⟨z, h, .inl rfl⟩
    · obtain ⟨⟨⟩, rfl⟩ := Entry.mk.inj (Option.some.inj h)
      exact ⟨z₀, rfl, .inr rfl⟩
  · exact ⟨z, h, .inl rfl⟩

section
variable (K : WindowKeys) (server maxRequests now cutoff windowSecs : ℤ) (db : Db ν)

/-- The script on its keys. -/
abbrev windowScript : Script ν (ℤ × ℤ) :=
  slidingWindowScript server K.key K.maxkey K.seqkey maxRequests now cutoff windowSecs

/-- A deadline that is not accepted ends the script before it writes anything. -/
theorem slidingWindowScript_invalid (h : int64Max < server + 1000 * slidingTtl windowSecs) :
    ∃ msg, windowScript K server maxRequests now cutoff windowSecs db = (.error msg, db) := by
  have hinvalid : ¬ ValidTtl server (some (slidingTtl windowSecs)) := by
    rintro ⟨t, ht, hle⟩
    obtain rfl := Option.some.inj ht
    omega
  obtain ⟨msg, hmsg⟩ := deadlineOf_invalid hinvalid "set"
  exact ⟨msg, Script.bind_error (by simp only [setEx, hmsg]) _⟩

end

section
variable {K : WindowKeys} {server windowSecs : ℤ} {db : Db ν} {z : KeyMap String ℤ}
  {d d' : Option ℤ} {q : ℤ}

theorem prunedEntry_eq {key : String} (hz : zsetAt server key db = some (z, d)) (cutoff : ℤ) :
    (match find server key db with
      | none => db.lookup key
      | some _ => if (keptStamps cutoff z).size = 0 then none
        else some ⟨.zset (keptStamps cutoff z), d⟩) =
      prunedEntry server cutoff (db.lookup key) := by
  rcases viewAt_cases hz with ⟨hfind, -, -⟩ | ⟨v, hfind, hv⟩
  · rw [hfind]
    cases he : db.lookup key with
    | none => rfl
    | some e =>
      have hdead : e.live server = false := by
        rw [find, he, Option.filter_some] at hfind
        simpa using hfind
      obtain ⟨v, d₀⟩ := e
      cases v with
      | zset z₀ => simp only [prunedEntry, hdead, if_true]
      | hash h | int n | number n => rfl
  · obtain ⟨he, hlive⟩ := Option.filter_eq_some_iff.mp hfind
    cases v <;> cases hv
    rw [hfind, he]
    simp only [prunedEntry, hlive, Bool.true_eq_false, if_false]

/-- The script up to its count, and whatever follows. -/
theorem windowScript_count (hpos : 0 ≤ windowSecs)
    (hvalid : server + 1000 * slidingTtl windowSecs ≤ int64Max)
    (hz : zsetAt server K.key db = some (z, d)) (maxRequests cutoff : ℤ) : ∃ db' d',
      (∀ next : ℕ → Script ν (ℤ × ℤ), (do
        setEx server K.maxkey (.ofNumber (luaInt maxRequests)) (some (slidingTtl windowSecs))
        zremrangebyscore server K.key 0 (luaInt cutoff)
        let count ← zcard server K.key
        next count) db = next (keptStamps cutoff z).size db') ∧
      zsetAt server K.key db' = some (keptStamps cutoff z, d') ∧
      db'.lookup K.seqkey = db.lookup K.seqkey ∧
      db'.lookup K.key = prunedEntry server cutoff (db.lookup K.key) := by
  have hset := setEx_valid (slidingTtl_pos hpos) hvalid K.maxkey
    (.ofNumber (luaInt maxRequests)) db
  have hlookup : ∀ k, k ≠ K.maxkey → (db.insert K.maxkey ⟨.ofNumber (luaInt maxRequests),
      some (server + 1000 * slidingTtl windowSecs)⟩).lookup k = db.lookup k :=
    fun k hk => AList.lookup_insert_ne hk
  have hz' := (viewAt_congr (hlookup K.key K.key_ne_max)).trans hz
  obtain ⟨db', d', hrem, hz'', hframe, hkey⟩ := zremrangebyscore_zsetAt hz' 0 (luaInt cutoff)
  refine ⟨db', d', ?_, hz'', ?_, ?_⟩
  · intro next
    rw [Script.bind_ok hset, Script.bind_ok hrem, Script.bind_ok (zcard_zsetAt hz'')]
    rfl
  · rw [hframe K.seqkey K.seq_ne_key, hlookup K.seqkey K.seq_ne_max]
  · rw [hkey, find_congr (hlookup K.key K.key_ne_max), hlookup K.key K.key_ne_max]
    exact prunedEntry_eq hz cutoff

/-- **A request that is granted**: its stamp is added under a new number, and
    the set and the counter get one deadline. -/
theorem slidingWindowScript_grant (hpos : 0 ≤ windowSecs)
    (hvalid : server + 1000 * slidingTtl windowSecs ≤ int64Max)
    (hz : zsetAt server K.key db = some (z, d)) (hq : intAt server K.seqkey db = some (q, d'))
    {maxRequests cutoff : ℤ} (hroom : FindsRoom maxRequests (keptStamps cutoff z).size)
    (hover : q ≠ int64Max) (now : ℤ) :
    ∃ db', windowScript K server maxRequests now cutoff windowSecs db =
        (.ok (1, leftAfter maxRequests (keptStamps cutoff z).size), db') ∧
      db'.lookup K.key = some ⟨.zset ((keptStamps cutoff z).insert
        (stampMember (luaInt now) (luaInt (q + 1))) (luaInt now)),
        some (server + 1000 * slidingTtl windowSecs)⟩ ∧
      db'.lookup K.seqkey = some ⟨.int (q + 1), some (server + 1000 * slidingTtl windowSecs)⟩ := by
  obtain ⟨db₂, d₂, hrun, hz₂, hseq₂, -⟩ := windowScript_count hpos hvalid hz maxRequests cutoff
  have hq₂ := (viewAt_congr hseq₂).trans hq
  have httl := slidingTtl_pos hpos
  -- INCR and EXPIRE of the counter
  have hincr := incr_intAt hq₂ hover
  have hexp := expire_insert (viewAt_live hq₂ (.int (q + 1))) httl hvalid K.seqkey db₂
  -- ZADD and EXPIRE of the stamps
  have hz₄ : zsetAt server K.key ((db₂.insert K.seqkey ⟨.int (q + 1), d'⟩).insert K.seqkey
      ⟨.int (q + 1), some (server + 1000 * slidingTtl windowSecs)⟩) = _ :=
    (viewAt_congr (by rw [AList.lookup_insert_ne K.seq_ne_key.symm,
      AList.lookup_insert_ne K.seq_ne_key.symm])).trans hz₂
  have hmember : luaText (luaInt now) ++ "-" ++ luaText (luaInt (q + 1)) =
    stampMember (luaInt now) (luaInt (q + 1)) := rfl
  have hadd := zadd_zsetAt hz₄ (luaInt now) (stampMember (luaInt now) (luaInt (q + 1)))
  have hexp' := expire_insert (viewAt_live hz₄
    (.zset ((keptStamps cutoff z).insert (stampMember (luaInt now) (luaInt (q + 1)))
      (luaInt now)))) httl hvalid K.key
  refine ⟨?_, (hrun _).trans ?_, ?_, ?_⟩
  rotate_left
  · rw [if_pos (findsRoom_def.mp hroom), Script.bind_ok hincr, Script.bind_ok hexp,
      hmember, Script.bind_ok hadd, Script.bind_ok (hexp' _)]
    rfl
  · exact AList.lookup_insert _
  · rw [AList.lookup_insert_ne K.seq_ne_key, AList.lookup_insert_ne K.seq_ne_key,
      AList.lookup_insert]

/-- A full window only prunes. -/
theorem slidingWindowScript_full (hpos : 0 ≤ windowSecs)
    (hvalid : server + 1000 * slidingTtl windowSecs ≤ int64Max)
    (hz : zsetAt server K.key db = some (z, d)) {maxRequests cutoff : ℤ}
    (h : ¬ FindsRoom maxRequests (keptStamps cutoff z).size) (now : ℤ) :
    ∃ db', windowScript K server maxRequests now cutoff windowSecs db = (.ok (0, 0), db') ∧
      db'.lookup K.key = prunedEntry server cutoff (db.lookup K.key) ∧
      db'.lookup K.seqkey = db.lookup K.seqkey := by
  obtain ⟨db₂, d₂, hrun, -, hseq₂, hkey₂⟩ := windowScript_count hpos hvalid hz maxRequests cutoff
  refine ⟨db₂, (hrun _).trans ?_, hkey₂, hseq₂⟩
  rw [if_neg (findsRoom_def.not.mp h)]
  rfl

/-- A counter at its end refuses the request after pruning. -/
theorem slidingWindowScript_overflow (hpos : 0 ≤ windowSecs)
    (hvalid : server + 1000 * slidingTtl windowSecs ≤ int64Max)
    (hz : zsetAt server K.key db = some (z, d))
    (hq : intAt server K.seqkey db = some (int64Max, d')) {maxRequests cutoff : ℤ}
    (hroom : FindsRoom maxRequests (keptStamps cutoff z).size) (now : ℤ) :
    ∃ db' msg, windowScript K server maxRequests now cutoff windowSecs db = (.error msg, db') ∧
      db'.lookup K.key = prunedEntry server cutoff (db.lookup K.key) ∧
      db'.lookup K.seqkey = db.lookup K.seqkey := by
  obtain ⟨db₂, d₂, hrun, -, hseq₂, hkey₂⟩ := windowScript_count hpos hvalid hz maxRequests cutoff
  obtain ⟨msg, hmsg⟩ := incr_overflow ((viewAt_congr hseq₂).trans hq)
  refine ⟨db₂, msg, (hrun _).trans ?_, hkey₂, hseq₂⟩
  rw [if_pos (findsRoom_def.mp hroom)]
  exact Script.bind_error hmsg _

/-- A request that is refused only prunes. -/
theorem slidingWindowScript_refuse (hpos : 0 ≤ windowSecs)
    (hvalid : server + 1000 * slidingTtl windowSecs ≤ int64Max)
    (hz : zsetAt server K.key db = some (z, d)) (hq : intAt server K.seqkey db = some (q, d'))
    {maxRequests cutoff : ℤ}
    (h : ¬ (FindsRoom maxRequests (keptStamps cutoff z).size ∧ q ≠ int64Max)) (now : ℤ) :
    ∃ db' r, windowScript K server maxRequests now cutoff windowSecs db = (r, db') ∧
      (∀ n, r ≠ .ok (1, n)) ∧ db'.lookup K.key = prunedEntry server cutoff (db.lookup K.key) ∧
      db'.lookup K.seqkey = db.lookup K.seqkey := by
  by_cases hroom : FindsRoom maxRequests (keptStamps cutoff z).size
  · obtain rfl : q = int64Max := by
      by_contra hq'
      exact h ⟨hroom, hq'⟩
    obtain ⟨db', msg, hrun, hkey, hseq⟩ :=
      slidingWindowScript_overflow hpos hvalid hz hq hroom now
    exact ⟨db', .error msg, hrun, fun _ => nofun, hkey, hseq⟩
  · obtain ⟨db', hrun, hkey, hseq⟩ := slidingWindowScript_full hpos hvalid hz hroom now
    exact ⟨db', .ok (0, 0), hrun, fun _ => nofun, hkey, hseq⟩

/-- **What the script answers**, by what it keeps and what the counter holds. -/
theorem slidingWindowScript_answer (hpos : 0 ≤ windowSecs)
    (hvalid : server + 1000 * slidingTtl windowSecs ≤ int64Max)
    (hz : zsetAt server K.key db = some (z, d)) (hq : intAt server K.seqkey db = some (q, d'))
    (maxRequests now cutoff : ℤ) :
    (¬ FindsRoom maxRequests (keptStamps cutoff z).size →
      (windowScript K server maxRequests now cutoff windowSecs db).1 = .ok (0, 0)) ∧
    (FindsRoom maxRequests (keptStamps cutoff z).size → q ≠ int64Max →
      (windowScript K server maxRequests now cutoff windowSecs db).1 =
        .ok (1, leftAfter maxRequests (keptStamps cutoff z).size)) ∧
    (FindsRoom maxRequests (keptStamps cutoff z).size → q = int64Max →
      ∃ msg, (windowScript K server maxRequests now cutoff windowSecs db).1 = .error msg) := by
  refine ⟨fun hroom => ?_, fun hroom hover => ?_, ?_⟩
  · obtain ⟨db', hrun, -⟩ := slidingWindowScript_full hpos hvalid hz hroom now
    rw [hrun]
  · obtain ⟨db', hrun, -⟩ := slidingWindowScript_grant hpos hvalid hz hq hroom hover now
    rw [hrun]
  · rintro hroom rfl
    obtain ⟨db', msg, hrun, -⟩ := slidingWindowScript_overflow hpos hvalid hz hq hroom now
    exact ⟨msg, by rw [hrun]⟩

/-- The limit is recorded, whatever the script answers. -/
theorem slidingWindowScript_limit (hpos : 0 ≤ windowSecs)
    (hvalid : server + 1000 * slidingTtl windowSecs ≤ int64Max) (maxRequests now cutoff : ℤ)
    (db : Db ν) : (windowScript K server maxRequests now cutoff windowSecs db).2.lookup K.maxkey =
      some ⟨.ofNumber (luaInt maxRequests), some (server + 1000 * slidingTtl windowSecs)⟩ := by
  unfold windowScript slidingWindowScript
  rw [Script.bind_ok (setEx_valid (slidingTtl_pos hpos) hvalid K.maxkey _ db)]
  refine Eq.trans (Script.Leaves.bind (zremrangebyscore_leaves K.key_ne_max.symm _ _) ?_ _)
    (AList.lookup_insert _)
  intro _
  refine .bind zcard_leaves fun count => ?_
  refine .ite ?_ (.pure _)
  refine .bind (incr_leaves K.seq_ne_max.symm) fun seq => ?_
  refine .bind (expire_leaves K.seq_ne_max.symm _) fun _ => ?_
  refine .bind (zadd_leaves K.key_ne_max.symm _ _) fun _ => ?_
  exact .bind (expire_leaves K.key_ne_max.symm _) fun _ => .pure _

end

end RedisStore

/-! ## Checks -/

open RedisStore

/-- The keys of a sliding window check. -/
def windowKeys (store : RedisStore) (digest : String) : WindowKeys where
  key := store.key ("sw:" ++ digest)
  maxkey := store.key ("swmax:" ++ digest)
  seqkey := store.key ("swseq:" ++ digest)
  key_ne_max := key_ne (by decide) (by decide) (by decide)
  seq_ne_max := key_ne (by decide) (by decide) (by decide)
  seq_ne_key := key_ne (by decide) (by decide) (by decide)

/-- The script grants the request. -/
def Granted (r : Except String (ℤ × ℤ)) : Prop := ∃ n, r = .ok (1, n)

/-- The stamp that a check sends. -/
def sentStamp (env : RedisEnv) : ℤ := asI64 (Duration.asMillis env.unix.toNat)

section
variable {env : RedisEnv} (h : Duration.asMillis env.unix.toNat < 2 ^ 53)
include h

theorem sentStamp_eq : sentStamp env = Duration.asMillis env.unix.toNat :=
  asI64_of_lt (lt_trans h (by decide))

/-- In the range of the doubles a stamp is stored as it is sent. -/
theorem sentStamp_exact : luaInt (sentStamp env) = sentStamp env := by
  rw [sentStamp_eq h]
  exact luaInt_eq h

end

section
variable {ν : Type}

/-- The script of a check. -/
def sentScript (K : WindowKeys) (maxRequests window : ℕ) (env : RedisEnv) : Script ν (ℤ × ℤ) :=
  windowScript K env.server maxRequests (sentStamp env)
    (sentStamp env - asI64 (Duration.asMillis window)) (Duration.asSecs window)

/-- A check leaves the keys as they were and is not admitted, or as its script
    does, and is admitted only if the script grants it. -/
theorem slidingWindowCheck_executes (store : RedisStore) (keyDigest : String → String)
    (env : RedisEnv) (key : String) (maxRequests window : ℕ) (db : Db ν) :
    let r := store.slidingWindowCheck keyDigest env key maxRequests window db
    let x := sentScript (windowKeys store (keyDigest key)) maxRequests window env db
    r.2 = db ∧ isAdmitted r.1 = false ∨
      r.2 = x.2 ∧ (isAdmitted r.1 = true → 0 ≤ env.unix ∧ Granted x.1) := by
  simp only [slidingWindowCheck, sinceEpoch]
  by_cases hunix : 0 ≤ env.unix
  · simp only [hunix, if_true]
    split_ifs
    · exact .inl ⟨rfl, rfl⟩
    · refine (withOpTimeout_executes store env _ _ db).imp_right ?_
      rintro ⟨hstate, hadm⟩
      refine ⟨hstate, fun h => ⟨trivial, ?_⟩⟩
      obtain ⟨⟨code, left⟩, hok, hone⟩ := hadm h
      obtain rfl : code = 1 := eq_of_beq hone
      exact ⟨left, hok⟩
  · simp only [hunix, if_false]
    exact .inl ⟨trivial, rfl⟩

end

end ArmatureRatelimit
