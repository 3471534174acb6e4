/-
  What a token bucket of the memory store admits when callers overtake each
  other (`stores/memory.rs`), over exact rationals.

  A caller reads the clock before it gets the lock, so the bodies of a key run
  with readings in any order.  A body credits the time since the last refill, or
  none if its own reading is the older one, and moves `last_refill` to its
  reading either way: what the bucket regains is how far the readings move up,
  all in all.  `bucket_anyOrder`: by that measure the bucket is exact, whatever
  the order.
-/
import ArmatureRatelimit.Proof.Concurrent
import ArmatureRatelimit.Lib.MinPlus

open Lib

namespace ArmatureRatelimit

/-! ## Readings and replies -/

/-- How far readings move up, in seconds; moves down do not count. -/
def rise (nows : List ℤ) : ℚ :=
  gained (fun last now => Duration.secs (durationSince now last)) nows

/-- The calls of `key`, with their readings and replies. -/
def servedOn (key : String) (h : List ((String × ℤ) × Outcome (Bool × ℕ))) :
    List (ℤ × Outcome (Bool × ℕ)) :=
  h.filterMap fun e => if e.1.1 = key then some (e.1.2, e.2) else none

variable {key : String}

theorem servedOn_concat_self (h : List ((String × ℤ) × Outcome (Bool × ℕ))) (now : ℤ)
    (reply : Outcome (Bool × ℕ)) :
    servedOn key (h ++ [((key, now), reply)]) = servedOn key h ++ [(now, reply)] := by
  simp [servedOn]

theorem servedOn_concat_ne {k : String} (hk : k ≠ key)
    (h : List ((String × ℤ) × Outcome (Bool × ℕ))) (now : ℤ) (reply : Outcome (Bool × ℕ)) :
    servedOn key (h ++ [((k, now), reply)]) = servedOn key h := by
  simp [servedOn, hk]

theorem nowsOn_eq_servedOn (h : List ((String × ℤ) × Outcome (Bool × ℕ))) :
    nowsOn key (h.map Prod.fst) = (servedOn key h).map Prod.fst := by
  induction h with
  | nil => rfl
  | cons e h ih =>
    by_cases hk : e.1.1 = key
    · simp only [nowsOn, servedOn, List.map_cons, List.filter_cons, List.filterMap_cons, hk,
        decide_true, if_true] at ih ⊢
      rw [ih]
    · simp only [nowsOn, servedOn, List.map_cons, List.filter_cons, List.filterMap_cons, hk,
        decide_false, Bool.false_eq_true, if_false] at ih ⊢
      exact ih

/-- One token if the call is admitted. -/
def spent (e : ℤ × Outcome (Bool × ℕ)) : ℚ := if isAdmitted e.2 = true then 1 else 0

theorem admittedOn_eq_spent (h : List ((String × ℤ) × Outcome (Bool × ℕ))) :
    (admittedOn key h : ℚ) = ((servedOn key h).map spent).sum := by
  induction h using List.reverseRecOn with
  | nil => rfl
  | append_singleton h e ih =>
    obtain ⟨⟨k, now⟩, reply⟩ := e
    rw [admittedOn_append]
    by_cases hk : k = key
    · subst hk
      rw [servedOn_concat_self, List.map_append, List.sum_append, ← ih]
      by_cases ha : isAdmitted reply = true <;> simp [spent, ha]
    · rw [servedOn_concat_ne hk, ← ih]
      simp [hk]

/-! ## The bucket as a recovering account -/

section
variable (capacity : ℕ) (refillRate : ℚ)

/-- What the bucket regains from one call to the next. -/
def regain (last next : ℤ × Outcome (Bool × ℕ)) : ℚ :=
  refillRate * Duration.secs (durationSince next.1 last.1)

/-- The bucket after calls that were served so. -/
def bucketAfter (served : List (ℤ × Outcome (Bool × ℕ))) : Option (BucketState ℚ) :=
  (recovering (regain refillRate) spent (capacity : ℚ) served).map fun z => ⟨z.2, z.1.1⟩

/-- Together with the calls of every stretch up to now, `n` more than this one
    fit into the capacity and what is regained meanwhile. -/
def HasRoom (key : String) (before : List ((String × ℤ) × Outcome (Bool × ℕ))) (now : ℤ)
    (n : ℕ) : Prop :=
  ∀ stretch, stretch <:+ before → (admittedOn key stretch : ℚ) + 1 + n ≤
    capacity + refillRate * rise (nowsOn key (stretch.map Prod.fst) ++ [now])

end

variable {capacity : ℕ} {refillRate : ℚ}

theorem gained_regain (served : List (ℤ × Outcome (Bool × ℕ))) :
    gained (regain refillRate) served = refillRate * rise (served.map Prod.fst) := by
  induction served with
  | nil => simp [gained, rise]
  | cons a served ih =>
    cases served with
    | nil => simp [gained, rise]
    | cons b served =>
      simp only [gained, rise, List.map_cons, regain] at ih ⊢
      rw [ih, mul_add]

/-- The level of the bucket is that of the account. -/
theorem level_bucketAfter (served : List (ℤ × Outcome (Bool × ℕ)))
    (next : ℤ × Outcome (Bool × ℕ)) :
    BucketState.level capacity refillRate next.1 (bucketAfter capacity refillRate served) =
      clip (capacity : ℚ) ((recovering (regain refillRate) spent (capacity : ℚ) served).map
        fun last => last.2 + regain refillRate last.1 next) := by
  unfold bucketAfter
  cases recovering (regain refillRate) spent (capacity : ℚ) served with
  | none => rfl
  | some z =>
    simp only [Option.map_some, BucketState.level, clip, regain]
    rw [min_comm, mul_comm]

theorem bucketAfter_concat (served : List (ℤ × Outcome (Bool × ℕ)))
    (next : ℤ × Outcome (Bool × ℕ)) :
    bucketAfter capacity refillRate (served ++ [next]) = some
      ⟨BucketState.level capacity refillRate next.1 (bucketAfter capacity refillRate served) -
        spent next, next.1⟩ := by
  rw [level_bucketAfter, bucketAfter, recovering_concat, Option.map_some]

/-- **The run lemma.**  After any bodies the bucket of a key is what its own calls
    make of it. -/
theorem bucketRun_eq (hr : 0 ≤ refillRate) (calls : List (String × ℤ)) :
    (run (bucketCall capacity refillRate) .new calls).tokenBuckets.lookup key =
      bucketAfter capacity refillRate
        (servedOn key (history (bucketCall capacity refillRate) .new calls)) := by
  induction calls using List.reverseRecOn with
  | nil => rfl
  | append_singleton calls call ih =>
    obtain ⟨k, now⟩ := call
    rw [run_append, history_append, run_cons, run_nil, history, history, bucketCall_lookup]
    by_cases hk : k = key
    · subst hk
      have hreply : (bucketCall capacity refillRate (k, now)
          (run (bucketCall capacity refillRate) .new calls)).1 = .ok
            (BucketState.acquire capacity refillRate now now
              ((run (bucketCall capacity refillRate) .new calls).tokenBuckets.lookup k)).1 := rfl
      rw [if_pos rfl, hreply, ih, servedOn_concat_self, bucketAfter_concat,
        BucketState.acquire_rat hr]
      generalize bucketAfter capacity refillRate
        (servedOn k (history (bucketCall capacity refillRate) .new calls)) = e
      by_cases hone : 1 ≤ BucketState.level capacity refillRate now e
      · simp [hone, spent, isAdmitted]
      · simp [hone, spent, isAdmitted]
    · rw [if_neg hk, servedOn_concat_ne hk, ih]

theorem bucketRun_nonneg (hr : 0 ≤ refillRate) (calls : List (String × ℤ)) (b : BucketState ℚ)
    (hb : (run (bucketCall capacity refillRate) .new calls).tokenBuckets.lookup key = some b) :
    0 ≤ b.tokens := by
  induction calls using List.reverseRecOn generalizing b with
  | nil => cases hb
  | append_singleton calls call ih =>
    obtain ⟨k, now⟩ := call
    rw [run_append, run_cons, run_nil, bucketCall_lookup] at hb
    split_ifs at hb with hk
    · obtain rfl := Option.some.inj hb
      have hlevel : 0 ≤ BucketState.level capacity refillRate now
          ((run (bucketCall capacity refillRate) .new calls).tokenBuckets.lookup key) :=
        BucketState.level_nonneg hr ih
      rw [BucketState.acquire_rat_snd hr]
      simp only
      split_ifs <;> linarith
    · exact ih b hb

/-- The tokens of the bucket, by the calls of every stretch up to now. -/
theorem le_level_iff (before : List ((String × ℤ) × Outcome (Bool × ℕ))) (now : ℤ) (y : ℚ) :
    y ≤ BucketState.level capacity refillRate now
        (bucketAfter capacity refillRate (servedOn key before)) ↔
      ∀ stretch, stretch <:+ before → y + admittedOn key stretch ≤
        capacity + refillRate * rise (nowsOn key (stretch.map Prod.fst) ++ [now]) := by
  rw [level_bucketAfter _ (now, .ok (true, 0)), le_clip_recovering_iff]
  have hone : ∀ stretch, y + ((servedOn key stretch).map spent).sum ≤ (capacity : ℚ) +
        gained (regain refillRate) (servedOn key stretch ++ [(now, .ok (true, 0))]) ↔
      y + admittedOn key stretch ≤
        capacity + refillRate * rise (nowsOn key (stretch.map Prod.fst) ++ [now]) := by
    intro stretch
    rw [gained_regain, List.map_append, ← nowsOn_eq_servedOn, ← admittedOn_eq_spent]
    rfl
  constructor
  · intro hall stretch hsuf
    exact (hone stretch).mp (hall _ (hsuf.filterMap _))
  · intro hall part hsuf
    obtain ⟨stretch, hstretch, rfl⟩ := List.suffix_filterMap_iff.mp hsuf
    exact (hone stretch).mpr (hall stretch hstretch)

/-- The reply of a call, by the calls that got the lock before it. -/
theorem bucketReply_eq (hr : 0 ≤ refillRate) {calls : List (String × ℤ)}
    {before after : List ((String × ℤ) × Outcome (Bool × ℕ))} {now : ℤ}
    {reply : Outcome (Bool × ℕ)}
    (h : history (bucketCall capacity refillRate) .new calls =
      before ++ ((key, now), reply) :: after) :
    reply = .ok (if 1 ≤ BucketState.level capacity refillRate now
        (bucketAfter capacity refillRate (servedOn key before)) then
      (true, F64.toU64 (BucketState.level capacity refillRate now
        (bucketAfter capacity refillRate (servedOn key before)) - 1)) else (false, 0)) := by
  obtain ⟨hbefore, hreply⟩ := history_split h
  rw [hreply, show (bucketCall capacity refillRate (key, now)
      (run (bucketCall capacity refillRate) .new (before.map Prod.fst))).1 = .ok
        (BucketState.acquire capacity refillRate now now
          ((run (bucketCall capacity refillRate) .new (before.map Prod.fst)).tokenBuckets.lookup
            key)).1 from rfl,
    bucketRun_eq hr, ← hbefore, BucketState.acquire_rat_fst hr]

/-- A whole number fits under the floor of what fits. -/
theorem le_toU64_iff {x : ℚ} (h0 : 0 ≤ x) (hx : x < u64Max + 1) (n : ℕ) :
    n ≤ F64.toU64 x ↔ (n : ℚ) ≤ x := by
  have hfloor : 0 ≤ ⌊x⌋ := Int.floor_nonneg.mpr h0
  have hlt : ⌊x⌋ < (u64Max : ℤ) + 1 := by
    rw [Int.floor_lt]
    exact_mod_cast hx
  have hle : (n : ℤ) ≤ ⌊x⌋ ↔ (n : ℚ) ≤ x := by
    rw [Int.le_floor]
    norm_cast
  rw [← hle, F64.toU64_rat]
  omega

/-! ## Interleavings -/

/-- **The token bucket is exact in any order.**  In every interleaving of callers
    of any keys, a call is admitted if and only if it fits, with the admitted
    calls of every stretch before it, into the capacity and what the readings of
    the stretch regain; `remaining` says how many more would; and a stretch never
    admits more than that. -/
theorem bucket_anyOrder (hr : 0 < refillRate) (hrange : capacity ≤ u64Max) (clock : ℤ)
    (acts : List (SampledAct String)) :
    (∀ before now reply after,
      (bucketInterleaving capacity refillRate clock acts).executed =
          before ++ ((key, now), reply) :: after →
      ∃ admitted left, reply = .ok (admitted, left) ∧
        (admitted = true ↔ HasRoom capacity refillRate key before now 0) ∧
        (admitted = true → ∀ n, n ≤ left ↔ HasRoom capacity refillRate key before now n) ∧
        (admitted = false → left = 0)) ∧
    ∀ before stretch after,
      (bucketInterleaving capacity refillRate clock acts).executed = before ++ stretch ++ after →
      (admittedOn key stretch : ℚ) ≤
        capacity + refillRate * rise (nowsOn key (stretch.map Prod.fst)) := by
  have hseq := (interleave_sequential (bucketCall capacity refillRate) clock .new acts).2
  have hroom : ∀ before now n, HasRoom capacity refillRate key before now n ↔
      1 + (n : ℚ) ≤ BucketState.level capacity refillRate now
        (bucketAfter capacity refillRate (servedOn key before)) := by
    intro before now n
    rw [le_level_iff]
    refine forall₂_congr fun stretch _ => ?_
    rw [add_comm (1 + (n : ℚ)), add_assoc]
  constructor
  · intro before now reply after h
    have hreply := bucketReply_eq hr.le (hseq.symm.trans h)
    have hcap := BucketState.level_le capacity refillRate now
      (bucketAfter capacity refillRate (servedOn key before))
    simp only [hroom, Nat.cast_zero, add_zero]
    generalize BucketState.level capacity refillRate now
      (bucketAfter capacity refillRate (servedOn key before)) = level at hreply hcap ⊢
    by_cases hone : 1 ≤ level
    · refine ⟨true, F64.toU64 (level - 1), by rw [hreply, if_pos hone], by simp [hone], ?_,
        nofun⟩
      intro _ n
      have hmax : (capacity : ℚ) ≤ u64Max := by exact_mod_cast hrange
      rw [le_toU64_iff (by linarith) (by linarith)]
      constructor <;> intro hle <;> linarith
    · exact ⟨false, 0, by rw [hreply, if_neg hone], by simp [hone], nofun, fun _ => rfl⟩
  · intro before stretch after h
    have hfull : before ++ stretch = history (bucketCall capacity refillRate) .new
        ((before ++ stretch).map Prod.fst) := by
      have hall := hseq.symm.trans h
      have hcalls := congrArg (List.map Prod.fst) hall
      rw [map_fst_history, List.map_append] at hcalls
      rw [hcalls, history_append] at hall
      refine (List.append_inj hall ?_).1.symm
      rw [length_history, List.length_map]
    rw [nowsOn_eq_servedOn, admittedOn_eq_spent, ← gained_regain]
    rcases eq_or_ne (servedOn key stretch) [] with hnil | hne
    · rw [hnil]
      simp [gained]
    · have hlevel : ∀ z, recovering (regain refillRate) spent (capacity : ℚ)
          (servedOn key (before ++ stretch)) = some z → 0 ≤ z.2 := by
        intro z hz
        refine @bucketRun_nonneg key capacity refillRate hr.le ((before ++ stretch).map Prod.fst)
          ⟨z.2, z.1.1⟩ ?_
        rw [bucketRun_eq hr.le, ← hfull, bucketAfter, hz, Option.map_some]
      have hstretch := (le_recovering_iff _ 0).mp hlevel (servedOn key stretch)
        ((List.suffix_append before stretch).filterMap _) hne
      rwa [zero_add] at hstretch

/-- The late caller of `lateCaller`: of one token, refilled in a second, its turn
    back and the next one up regain a second for the second time, and the fourth
    call, the third one admitted, has room. -/
theorem bucket_anyOrder_lateCaller :
    (3 : ℚ) ≤ (1 : ℕ) + 1 * rise [0, 1000000000, 0, 1000000000] := by
  have hstretch := (@bucket_anyOrder "client" 1 1 one_pos (by decide) 0 lateCaller).2 []
    (bucketInterleaving 1 1 0 lateCaller).executed [] (by simp)
  have hnows : nowsOn "client" ((bucketInterleaving 1 1 0 lateCaller).executed.map Prod.fst) =
      [0, 1000000000, 0, 1000000000] := by decide
  have hthree : admittedOn "client" (bucketInterleaving 1 1 0 lateCaller).executed = 3 := by
    decide +kernel
  rw [hnows, hthree] at hstretch
  exact_mod_cast hstretch

end ArmatureRatelimit
