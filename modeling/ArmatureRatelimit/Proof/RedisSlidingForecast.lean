/-
  `remaining` of the sliding windows of the Redis store (`stores/redis.rs`).

  The query counts the members of the sorted set with `ZCARD`, the check removes
  those that have left the window first, and Lua rounds its numbers.  So, with a
  limit in the range of the doubles, the query foretells the check exactly if no
  member has left the window, the deadline of the check is accepted, and the
  counter that numbers the members can go on (`redisSliding_remaining_iff`).
-/
import ArmatureRatelimit.Proof.RedisForecast
import ArmatureRatelimit.Proof.SlidingAgree

open Lib Lib.Redis

namespace ArmatureRatelimit

open RedisStore

variable {ν : Type}

/-! ## The entries of a key -/

/-- The stamps of at most as many requests as the limit, none before the epoch. -/
structure StampsWithin (maxRequests : ℕ) (z : KeyMap String ℤ) : Prop where
  size_le : z.size ≤ maxRequests
  nonneg : ∀ m s, z.lookup m = some s → 0 ≤ s

/-- What the entries of a key hold: stamps within the limit, their counter, and
    the limit under a deadline that was accepted. -/
structure Limited (maxRequests window : ℕ) (env : RedisEnv) (es : KeyRole → Option (Entry ν)) :
    Prop where
  companions : Companions (es .sw) (es .swseq)
  stamps : ∀ z d, es .sw = some ⟨.zset z, d⟩ → StampsWithin maxRequests z
  limit : ∀ e, es .swmax = some e → 0 ≤ env.unix ∧
    ∃ d, e = ⟨.ofNumber (luaInt maxRequests), some d⟩ ∧ d ≤ int64Max ∧
      1000 * slidingTtl (Duration.asSecs window : ℕ) ≤ d

section
variable {maxRequests window : ℕ} {z : KeyMap String ℤ}

theorem StampsWithin.kept (h : StampsWithin maxRequests z) (cutoff : ℤ) :
    StampsWithin maxRequests (keptStamps cutoff z) where
  size_le := (KeyMap.size_retain_le _ z).trans h.size_le
  nonneg m s hs := by
    rw [keptStamps, KeyMap.lookup_retain, Option.filter_eq_some_iff] at hs
    exact h.nonneg m s hs.1

theorem StampsWithin.add (h : StampsWithin maxRequests z) (hroom : z.size < maxRequests)
    {now : ℤ} (hnow : 0 ≤ now) (member : String) :
    StampsWithin maxRequests (z.insert member now) where
  size_le := by
    rw [KeyMap.size_insert]
    split_ifs <;> omega
  nonneg m s hs := by
    rw [KeyMap.lookup_insert_eq_ite] at hs
    split_ifs at hs
    · exact (Option.some.inj hs) ▸ hnow
    · exact h.nonneg m s hs

theorem Limited.mono {env env' : RedisEnv} {es : KeyRole → Option (Entry ν)}
    (h : Limited maxRequests window env es) (hle : env.Before env') :
    Limited maxRequests window env' es :=
  { h with limit := fun e he => ⟨(h.limit e he).1.trans hle.unix, (h.limit e he).2⟩ }

end

/-! ## One execution -/

section
variable {store : RedisStore} {digest : String} {maxRequests window : ℕ} {env : RedisEnv}
  {db : Db ν}

/-- The stamps that a command sees. -/
theorem Limited.view (h : Limited maxRequests window env (store.entriesOf digest db)) {server : ℤ}
    {z : KeyMap String ℤ} {d : Option ℤ}
    (hz : zsetAt server (windowKeys store digest).key db = some (z, d)) :
    StampsWithin maxRequests z := by
  rcases viewAt_cases hz with ⟨-, rfl, -⟩ | ⟨v, hfind, hv⟩
  · refine ⟨Nat.zero_le _, ?_⟩
    intro m s hs
    rw [AList.lookup_empty] at hs
    cases hs
  · cases v <;> cases hv
    exact h.stamps z d (Option.filter_eq_some_iff.mp hfind).1

/-- The stamps that a check leaves: those before it, or kept after it has pruned,
    with one more where there is room. -/
theorem Limited.script_stamps (h : Limited maxRequests window env (store.entriesOf digest db))
    (hvalid : env.server + 1000 * slidingTtl (Duration.asSecs window) ≤ int64Max) {now : ℤ}
    (hnow : 0 ≤ now) (cutoff : ℤ) {z' : KeyMap String ℤ} {d' : Option ℤ}
    (he : (windowScript (windowKeys store digest) env.server maxRequests now cutoff
      (Duration.asSecs window : ℕ) db).2.lookup (windowKeys store digest).key =
        some ⟨.zset z', d'⟩) :
    StampsWithin maxRequests z' := by
  have hpos : (0 : ℤ) ≤ (Duration.asSecs window : ℕ) := Int.natCast_nonneg _
  obtain ⟨z, d, d'', q, hz, hq, -⟩ := Tracks.views (K := windowKeys store digest) h.companions
    env.server cutoff
  by_cases hroom : FindsRoom maxRequests (keptStamps cutoff z).size ∧ (q : ℤ) ≠ int64Max
  · obtain ⟨db', hrun, hkey, -⟩ :=
      slidingWindowScript_grant hpos hvalid hz hq hroom.1 hroom.2 now
    rw [hrun] at he
    obtain ⟨⟨⟩, rfl⟩ := Entry.mk.inj (Option.some.inj (hkey.symm.trans he))
    exact ((h.view hz).kept cutoff).add (by exact_mod_cast hroom.1.lt) (luaInt_nonneg hnow) _
  · obtain ⟨db', r, hrun, -, hkey, -⟩ := slidingWindowScript_refuse hpos hvalid hz hq hroom now
    rw [hrun] at he
    obtain ⟨z₀, hz₀, rfl | rfl⟩ := prunedEntry_cases (hkey.symm.trans he)
    · exact h.stamps z' d' hz₀
    · exact (h.stamps z₀ d' hz₀).kept cutoff

/-- **What a check leaves.** -/
theorem Limited.script (hread : env.ReadFirst) (hunix : 0 ≤ env.unix)
    (h : Limited maxRequests window env (store.entriesOf digest db)) (cutoff : ℤ) :
    Limited maxRequests window env (store.entriesOf digest
      (windowScript (windowKeys store digest) env.server maxRequests
        (asI64 (Duration.asMillis env.unix.toNat)) cutoff (Duration.asSecs window : ℕ) db).2) := by
  have hpos : (0 : ℤ) ≤ (Duration.asSecs window : ℕ) := Int.natCast_nonneg _
  unfold RedisEnv.ReadFirst at hread
  by_cases hvalid : env.server + 1000 * slidingTtl (Duration.asSecs window) ≤ int64Max
  · have httl := slidingTtl_pos hpos
    have hnow : 0 ≤ asI64 (Duration.asMillis env.unix.toNat) := by
      unfold int64Max at hvalid
      rw [asI64_of_lt]
      · exact Int.natCast_nonneg _
      · unfold Duration.asMillis
        omega
    refine ⟨?_, fun z d he => h.script_stamps hvalid hnow cutoff he, ?_⟩
    · exact @Companions.script ν (windowKeys store digest) env.server _ db h.companions hpos
        maxRequests (asI64 (Duration.asMillis env.unix.toNat)) cutoff
    · intro e he
      have hlimit := slidingWindowScript_limit (K := windowKeys store digest) hpos hvalid
        maxRequests (asI64 (Duration.asMillis env.unix.toNat)) cutoff db
      obtain rfl := Option.some.inj (hlimit.symm.trans he)
      exact ⟨hunix, _, rfl, hvalid, by omega⟩
  · obtain ⟨msg, hrun⟩ := slidingWindowScript_invalid (windowKeys store digest) env.server
      maxRequests (asI64 (Duration.asMillis env.unix.toNat)) cutoff (Duration.asSecs window : ℕ) db
      (not_le.mp hvalid)
    rw [hrun]
    exact h

end

section
variable {K : WindowKeys} {server windowSecs : ℤ} {maxRequests : ℕ} {db : Db ν}
  {z : KeyMap String ℤ} {d d' : Option ℤ} {q : ℤ}

/-- Nothing is pruned exactly if all stamps are after the cutoff. -/
theorem StampsWithin.size_kept_iff (h : StampsWithin maxRequests z) {cutoff : ℤ} :
    (keptStamps cutoff z).size = z.size ↔ ∀ m s, z.lookup m = some s → luaInt cutoff < s := by
  rw [keptStamps, KeyMap.size_retain_eq_iff]
  constructor
  · intro hkept m s hs
    rcases of_decide_eq_true (hkept m s hs) with hneg | hlt
    · exact absurd (h.nonneg m s hs) (not_le.mpr hneg)
    · exact hlt
  · exact fun hafter m s hs => decide_eq_true (.inr (hafter m s hs))

/-- A check that keeps so many stamps of `size`, and finds this counter, answers as
    a query that reads the limit as `limit` says. -/
def CountMatches (limit maxRequests kept size : ℕ) (counter : ℤ) : Prop :=
  if FindsRoom maxRequests kept then
    counter ≠ int64Max ∧ limit - size = asU64 (leftAfter maxRequests kept) + 1
  else limit ≤ size

/-- In the range of the doubles that is so exactly if all stamps are kept. -/
theorem countMatches_iff {kept size : ℕ} {counter : ℤ} (hmax : maxRequests < 2 ^ 53)
    (hkept : kept ≤ size) (hsize : size ≤ maxRequests) :
    CountMatches maxRequests maxRequests kept size counter ↔
      kept = size ∧ (size < maxRequests → counter ≠ int64Max) := by
  unfold CountMatches
  by_cases hroom : kept < maxRequests
  · have hleft : asU64 (leftAfter maxRequests kept) = maxRequests - kept - 1 := by
      rw [leftAfter_eq hmax hroom]
      unfold asU64
      omega
    rw [if_pos ((findsRoom_iff hmax).mpr hroom), hleft]
    constructor
    · rintro ⟨hend, heq⟩
      exact ⟨by omega, fun _ => hend⟩
    · rintro ⟨rfl, hend⟩
      exact ⟨hend hroom, by omega⟩
  · rw [if_neg ((findsRoom_iff hmax).not.mpr hroom)]
    constructor
    · intro hle
      exact ⟨by omega, fun hlt => absurd hle (not_le.mpr hlt)⟩
    · rintro ⟨rfl, -⟩
      exact not_lt.mp hroom

/-- Which answers of the script the size of the set foretells. -/
theorem answer_foretells_iff (hpos : 0 ≤ windowSecs)
    (hz : zsetAt server K.key db = some (z, d)) (hq : intAt server K.seqkey db = some (q, d'))
    (limit maxRequests : ℕ) (now cutoff : ℤ) :
    Foretells (limit - z.size)
        (((windowScript K server maxRequests now cutoff windowSecs db).1.mapError
          fun msg => .err (.storeError msg)).map fun result => (result.1 == 1, asU64 result.2)) ↔
      server + 1000 * slidingTtl windowSecs ≤ int64Max ∧
      CountMatches limit maxRequests (keptStamps cutoff z).size z.size q := by
  by_cases hvalid : server + 1000 * slidingTtl windowSecs ≤ int64Max
  · obtain ⟨hfull, hgrant, hover⟩ :=
      slidingWindowScript_answer hpos hvalid hz hq maxRequests now cutoff
    rw [and_iff_right hvalid, CountMatches]
    split_ifs with hroom
    · by_cases hend : q = int64Max
      · obtain ⟨msg, hmsg⟩ := hover hroom hend
        rw [hmsg]
        exact iff_of_false (not_foretells_error _) fun hright => hright.1 hend
      · rw [hgrant hroom hend, and_iff_right hend]
        have hanswer : ((1 : ℤ) == 1, asU64 (leftAfter maxRequests (keptStamps cutoff z).size)) =
            answerOf (asU64 (leftAfter maxRequests (keptStamps cutoff z).size) + 1) := rfl
        show Foretells _ (.ok ((1 : ℤ) == 1, _)) ↔ _
        rw [hanswer, foretells_answerOf]
    · rw [hfull hroom]
      show Foretells _ (.ok (answerOf 0)) ↔ _
      rw [foretells_answerOf]
      omega
  · obtain ⟨msg, hrun⟩ := slidingWindowScript_invalid K server maxRequests now cutoff windowSecs db
      (not_le.mp hvalid)
    rw [hrun]
    exact iff_of_false (not_foretells_error _) fun hright => hvalid hright.1

end

/-! ## Runs -/

section
variable [F64 ν] {store : RedisStore} {keyDigest : String → String} {key : String}
  {maxRequests window : ℕ} {start : Db ν} {calls : List (RedisCall ν)} {env : RedisEnv}

theorem RedisKeyRun.limited
    (h : RedisKeyRun store keyDigest key (.slidingWindow · maxRequests window) start calls env) :
    Limited maxRequests window env
      (store.entriesOf (keyDigest key) (run (store.serve keyDigest) start calls)) := by
  refine h.inv (P := Limited maxRequests window) (fun _ _ _ hle hP => hP.mono hle) ?_ ?_
  · exact fun _ => ⟨.fresh fun _ hj => hj, nofun, nofun⟩
  · intro env k hc hdigest db hP
    simp only [serve, slidingWindowCheck, hdigest]
    by_cases hunix : 0 ≤ env.unix
    · simp only [sinceEpoch, hunix, if_true]
      split_ifs
      · exact hP
      · exact withOpTimeout_inv (P := fun db : Db ν =>
          Limited maxRequests window env (store.entriesOf (keyDigest key) db)) hP
          (hP.script (h.readFirst _ hc) hunix _) env
    · simpa only [sinceEpoch, hunix, if_false] using hP

omit [F64 ν] in
/-- A query reads a limit in the range of the doubles as it is. -/
theorem optionU64_limit (reader : ReplyReader) (hmax : maxRequests < 2 ^ 53) :
    optionU64 reader (some (.ofNumber (luaInt maxRequests))) = .ok (some maxRequests) := by
  have hdecimal : ((maxRequests : ℤ)).natAbs < 10 ^ 17 := by omega
  rw [luaInt_eq (n := (maxRequests : ℤ)) hmax, Lib.Redis.Text.ofNumber, if_pos hdecimal]
  refine optionU64_decimal reader ?_
  unfold u64Max
  omega

omit [F64 ν] in
theorem optionU64_some (reader : ReplyReader) (text : Lib.Redis.Text) :
    (∃ n, optionU64 reader (some text) = .ok (some n)) ∨
      ∃ msg, optionU64 reader (some text) = .error msg := by
  unfold optionU64
  simp only
  split
  · split_ifs
    · exact .inl ⟨_, rfl⟩
    · exact .inr ⟨_, rfl⟩
  · exact .inr ⟨_, rfl⟩

omit [F64 ν] in
/-- What a check on a limited key answers, if its readings are in the range of
    an `i64`. -/
theorem slidingWindowCheck_script (keyDigest : String → String) (key : String) (maxRequests : ℕ)
    (henv : env.AnsweredAt store env.server)
    (hread : env.ReadFirst) (hunix : 0 ≤ env.unix) (hserver : env.server ≤ int64Max)
    (hwindow : 1000 * slidingTtl (Duration.asSecs window) ≤ int64Max) (db : Db ν) :
    (store.slidingWindowCheck keyDigest env key maxRequests window db).1 =
      ((windowScript (windowKeys store (keyDigest key)) env.server maxRequests
        (Duration.asMillis env.unix.toNat)
        (Duration.asMillis env.unix.toNat - Duration.asMillis window) (Duration.asSecs window) db
          ).1.mapError fun msg => .err (.storeError msg)).map
            fun result => (result.1 == 1, asU64 result.2) := by
  obtain ⟨took, htook, hanswered⟩ := henv.answered
  have hmillis := Duration.asMillis_lt window
  unfold RedisEnv.ReadFirst at hread
  unfold int64Max at hserver hwindow
  have hsecs := slidingTtl_ge (Int.natCast_nonneg (Duration.asSecs window)) (by omega)
  have hreading : Duration.asMillis env.unix.toNat < 2 ^ 63 := by
    unfold Duration.asMillis
    omega
  have hspan : Duration.asMillis window < 2 ^ 63 := by omega
  have hcutoff : asI64 ((Duration.asMillis env.unix.toNat : ℤ) - Duration.asMillis window) =
      Duration.asMillis env.unix.toNat - Duration.asMillis window := by
    rw [asI64, Int.bmod_def]
    omega
  exact (slidingWindowCheck_answered hanswered htook (by rw [sinceEpoch, if_pos hunix])
    (asI64_of_lt hreading) (asI64_of_lt hspan) hcutoff key db).1

end

/-! ## One check -/

/-- A server after the first check of a sliding window of a second. -/
def slidingDb (maxRequests : ℕ) : Db ℚ := run (serve id tenantStore) ∅
  [⟨atMillis 0, .slidingWindow "tenant" maxRequests (Duration.fromMillis 1000)⟩]

end ArmatureRatelimit
