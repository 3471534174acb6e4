/-
  What the sliding windows of the two stores keep of a key: stamps, in the
  memory store as a log, in the Redis store as the scores of a sorted set.

  At a check the memory store drops the stamps before the cutoff
  (`pruneLog_instants`), the Redis store also those at the cutoff
  (`HoldsStamps.kept`).
-/
import ArmatureRatelimit.Proof.WindowMembers
import ArmatureRatelimit.Algorithms.SlidingWindow

open Lib Lib.Redis

namespace ArmatureRatelimit

open RedisStore

variable {ν : Type}

/-! ## Stamps -/

/-- The instant of a whole number of milliseconds. -/
def instantOf (ms : ℕ) : ℤ := Duration.fromMillis ms

/-- The stamps that Lua finds after a cutoff, and those not before it. -/
def afterEdge (cutoff : ℤ) (stamps : List ℕ) : List ℕ :=
  stamps.filter fun k => luaInt cutoff < luaInt (k : ℤ)

def fromEdge (cutoff : ℤ) (stamps : List ℕ) : List ℕ := stamps.filter fun k => cutoff ≤ (k : ℤ)

theorem fromEdge_eq {cutoff : ℤ} {stamps : List ℕ}
    (h : ∀ k ∈ stamps, luaInt (k : ℤ) ≠ luaInt cutoff) :
    fromEdge cutoff stamps = afterEdge cutoff stamps := by
  refine List.filter_congr ?_
  intro k hk
  refine decide_eq_decide.mpr ⟨fun hle => ?_, fun hlt => (lt_of_luaInt_lt hlt).le⟩
  exact lt_of_le_of_ne (luaInt_mono hle) (h k hk).symm

/-- A stamp at the edge makes the difference. -/
theorem afterEdge_lt {cutoff : ℤ} {stamps : List ℕ} {k : ℕ} (hk : k ∈ stamps)
    (hedge : (k : ℤ) = cutoff) : (afterEdge cutoff stamps).length <
      (fromEdge cutoff stamps).length := by
  have hsub : (afterEdge cutoff stamps).Sublist (fromEdge cutoff stamps) := by
    refine List.monotone_filter_right stamps ?_
    intro j hj
    simp only [decide_eq_true_eq] at hj ⊢
    exact (lt_of_luaInt_lt hj).le
  refine lt_of_le_of_ne hsub.length_le ?_
  intro hlen
  have hmem : k ∈ fromEdge cutoff stamps := List.mem_filter.mpr ⟨hk, by simp [hedge]⟩
  rw [← hsub.eq_of_length hlen] at hmem
  simp [afterEdge, hedge] at hmem

/-- Pruning stamps that a monotone map gives. -/
theorem pruneLog_map {f : ℕ → ℤ} (hf : Monotone f) {stamps : List ℕ}
    (hsorted : stamps.Pairwise (· ≤ ·)) {edge cutoff : ℤ}
    (hedge : ∀ k ∈ stamps, (cutoff ≤ f k ↔ edge ≤ (k : ℤ))) :
    pruneLog cutoff (stamps.map f) = (fromEdge edge stamps).map f := by
  have hmono : (stamps.map f).Pairwise (· ≤ ·) := hsorted.map f fun _ _ hab => hf hab
  unfold fromEdge
  rw [pruneLog_eq_filter hmono, List.filter_map]
  congr 1
  refine List.filter_congr ?_
  intro k hk
  exact decide_eq_decide.mpr (hedge k hk)

theorem instantOf_mono : Monotone instantOf := by
  intro a b hab
  simp only [instantOf, Duration.fromMillis]
  omega

/-- The memory store keeps the stamps that are not before the cutoff. -/
theorem pruneLog_instants {stamps : List ℕ} (hsorted : stamps.Pairwise (· ≤ ·)) (ms windowMs : ℕ) :
    pruneLog (instantOf ms - Duration.fromMillis windowMs) (stamps.map instantOf) =
      (fromEdge (ms - windowMs) stamps).map instantOf := by
  refine pruneLog_map instantOf_mono hsorted ?_
  intro k _
  simp only [instantOf, Duration.fromMillis]
  omega

/-! ## The set in Redis -/

/-- The scores of a sorted set, the last one added first. -/
def scoresOf (z : KeyMap String ℤ) : List ℤ := z.entries.map fun e => e.2

theorem scoresOf_kept (cutoff : ℤ) (z : KeyMap String ℤ) :
    scoresOf (keptStamps cutoff z) =
      (scoresOf z).filter fun s => decide (s < 0 ∨ luaInt cutoff < s) := by
  rw [scoresOf, scoresOf, List.filter_map]
  rfl

theorem size_eq_scoresOf (z : KeyMap String ℤ) : z.size = (scoresOf z).length :=
  (List.length_map _).symm

/-- The set holds these stamps, as Lua has them. -/
def HoldsStamps (stamps : List ℕ) (z : KeyMap String ℤ) : Prop :=
  scoresOf z = stamps.reverse.map fun k : ℕ => luaInt (k : ℤ)

theorem HoldsStamps.kept {stamps : List ℕ} {z : KeyMap String ℤ} (h : HoldsStamps stamps z)
    (cutoff : ℤ) : HoldsStamps (afterEdge cutoff stamps) (keptStamps cutoff z) := by
  unfold HoldsStamps afterEdge
  rw [scoresOf_kept, h, List.filter_map, List.filter_reverse]
  congr 2
  refine List.filter_congr ?_
  intro k _
  have := luaInt_natCast_nonneg k
  simp only [Function.comp_apply, decide_eq_decide]
  omega

theorem HoldsStamps.size {stamps : List ℕ} {z : KeyMap String ℤ} (h : HoldsStamps stamps z) :
    z.size = stamps.length := by
  rw [size_eq_scoresOf, h, List.length_map, List.length_reverse]

theorem HoldsStamps.add {stamps : List ℕ} {z : KeyMap String ℤ} (h : HoldsStamps stamps z)
    {member : String} (hnew : z.lookup member = none) (k : ℕ) :
    HoldsStamps (stamps ++ [k]) (z.insert member (luaInt (k : ℤ))) := by
  have hmem : member ∉ z := AList.lookup_eq_none.mp hnew
  unfold HoldsStamps scoresOf
  rw [AList.entries_insert_of_notMem hmem, List.map_cons, List.reverse_append]
  exact congrArg (fun l => luaInt (k : ℤ) :: l) h

theorem HoldsStamps.mem_iff {stamps : List ℕ} {z : KeyMap String ℤ} (h : HoldsStamps stamps z)
    (s : ℤ) : (∃ m, z.lookup m = some s) ↔ ∃ k ∈ stamps, luaInt (k : ℤ) = s := by
  have hscores : (∃ m, z.lookup m = some s) ↔ s ∈ scoresOf z := by
    simp only [scoresOf, List.mem_map, KeyMap.lookup_eq_some]
    constructor
    · rintro ⟨m, hm⟩
      exact ⟨_, hm, rfl⟩
    · rintro ⟨⟨m, s'⟩, hm, rfl⟩
      exact ⟨m, hm⟩
  rw [hscores, h, List.mem_map]
  simp only [List.mem_reverse]

/-! ## One execution of the script -/

section
variable (K : WindowKeys) (db : Db ν)

/-- The stamps under the key, whether or not it has expired. -/
def stampsAt : KeyMap String ℤ :=
  match db.lookup K.key with
  | some ⟨.zset z, _⟩ => z
  | _ => ∅

/-- The keys of a check have not expired. -/
def KeysLive (server : ℤ) : Prop :=
  (∀ e, db.lookup K.key = some e → e.live server = true) ∧
    ∀ e, db.lookup K.seqkey = some e → e.live server = true

end

section
variable {K : WindowKeys} {server : ℤ} {db : Db ν}

/-- What the script sees of keys that have not expired. -/
theorem Companions.views_live (h : Companions (db.lookup K.key) (db.lookup K.seqkey))
    (hlive : KeysLive K db server) : ∃ d d', ∃ q : ℕ,
      zsetAt server K.key db = some (stampsAt K db, d) ∧
      intAt server K.seqkey db = some ((q : ℤ), d') ∧
      ∀ m s, (stampsAt K db).lookup m = some s → ∃ i ≤ q, m = stampMember s (luaInt (i : ℕ)) := by
  have hz := find_live hlive.1
  have hc := find_live hlive.2
  have hnone : ∀ m s, (∅ : KeyMap String ℤ).lookup m = some s →
      ∃ i ≤ 0, m = stampMember s (luaInt (i : ℕ)) := by
    intro m s hm
    rw [AList.lookup_empty] at hm
    cases hm
  unfold stampsAt
  generalize db.lookup K.key = zs at h hz
  generalize db.lookup K.seqkey = cs at h hc
  cases h with
  | fresh _ => exact ⟨none, none, 0, viewAt_none hz, viewAt_none hc, hnone⟩
  | missing _ q d =>
    refine ⟨none, d, q, viewAt_none hz, viewAt_some hc rfl, fun m s hm => ?_⟩
    obtain ⟨i, hi, hm⟩ := hnone m s hm
    exact ⟨i, hi.trans (Nat.zero_le q), hm⟩
  | @present z q d holds _ =>
    exact ⟨some d, some d, q, viewAt_some hz rfl, viewAt_some hc rfl, holds.numbered⟩

theorem stampsAt_eq {z : KeyMap String ℤ} {d : Option ℤ}
    (h : db.lookup K.key = some ⟨.zset z, d⟩) : stampsAt K db = z := by
  unfold stampsAt
  rw [h]

/-- The stamps that pruning leaves. -/
theorem stampsAt_pruned {db' : Db ν} {cutoff : ℤ} (hlive : KeysLive K db server)
    (h : db'.lookup K.key = prunedEntry server cutoff (db.lookup K.key)) :
    stampsAt K db' = keptStamps cutoff (stampsAt K db) := by
  have hempty : keptStamps cutoff (∅ : KeyMap String ℤ) = ∅ := rfl
  unfold stampsAt
  rw [h]
  cases he : db.lookup K.key with
  | none => exact hempty.symm
  | some e =>
    have helive := hlive.1 e he
    obtain ⟨v, d⟩ := e
    cases v with
    | zset z =>
      simp only [prunedEntry, helive, Bool.true_eq_false, if_false]
      split_ifs with hsize
      · exact (AList.ext (List.eq_nil_of_length_eq_zero hsize)).symm
      · rfl
    | hash f => exact hempty.symm
    | int n | number n => exact hempty.symm

/-- **What the script answers and leaves**, when its deadline is accepted and the
    counter is in the range of the texts. -/
theorem Companions.execution (h : Companions (db.lookup K.key) (db.lookup K.seqkey))
    (hlive : KeysLive K db server) {windowSecs : ℤ} (hpos : 0 ≤ windowSecs)
    (hvalid : server + 1000 * slidingTtl windowSecs ≤ int64Max) (maxRequests now cutoff : ℤ) :
    ∃ r db', windowScript K server maxRequests now cutoff windowSecs db = (r, db') ∧
      (FindsRoom maxRequests (keptStamps cutoff (stampsAt K db)).size →
        integerAt server K.seqkey db < 10 ^ 14 →
        r = .ok (1, leftAfter maxRequests (keptStamps cutoff (stampsAt K db)).size) ∧
        ∃ member, (keptStamps cutoff (stampsAt K db)).lookup member = none ∧
          stampsAt K db' = (keptStamps cutoff (stampsAt K db)).insert member (luaInt now)) ∧
      (¬ FindsRoom maxRequests (keptStamps cutoff (stampsAt K db)).size →
        r = .ok (0, 0) ∧ stampsAt K db' = keptStamps cutoff (stampsAt K db)) := by
  obtain ⟨d, d', q, hz, hq, hnumbered⟩ := h.views_live hlive
  rw [integerAt_eq hq]
  by_cases hroom : FindsRoom maxRequests (keptStamps cutoff (stampsAt K db)).size
  · by_cases hover : (q : ℤ) = int64Max
    · refine ⟨_, _, rfl, fun _ hcount => ?_, fun hn => absurd hroom hn⟩
      rw [hover] at hcount
      exact absurd hcount (by decide)
    · obtain ⟨db', hrun, hkey, -⟩ := slidingWindowScript_grant hpos hvalid hz hq hroom hover now
      refine ⟨_, db', hrun, fun _ hcount => ⟨rfl, stampMember (luaInt now) (luaInt (q + 1)), ?_,
        stampsAt_eq hkey⟩, fun hn => absurd hroom hn⟩
      -- a member of that number would be numbered beyond the counter
      by_contra hmem
      obtain ⟨s, hs⟩ := Option.ne_none_iff_exists'.mp hmem
      rw [keptStamps, KeyMap.lookup_retain, Option.filter_eq_some_iff] at hs
      obtain ⟨i, hi, heq⟩ := hnumbered _ s hs.1
      have hne := stampMember_ne (a := s) (b := luaInt now) hi (by exact_mod_cast hcount)
      push_cast at hne
      exact hne heq.symm
  · obtain ⟨db', hrun, hkey, -⟩ := slidingWindowScript_full hpos hvalid hz hroom now
    exact ⟨_, db', hrun, fun hr => absurd hr hroom, fun _ => ⟨rfl, stampsAt_pruned hlive hkey⟩⟩

end

end ArmatureRatelimit
