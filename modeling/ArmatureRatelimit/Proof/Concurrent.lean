/-
  The token buckets of the memory store under concurrent callers.

  A caller reads the clock before it gets the lock, so locked bodies may run
  with readings that are out of order, and a late caller moves `last_refill`
  back.  The next body that refills from there credits a stretch of time for
  the second time.  `bucket_rate_bound`: in every interleaving in which no body
  does that (`CreditsOnce`), the admitted calls keep to the rate of the bucket.
-/
import ArmatureRatelimit.Stores.Memory
import ArmatureRatelimit.Lib.Sampled

open Lib

namespace ArmatureRatelimit

/-! ## Readings -/

/-- Whenever a body runs with a later reading than the body before it, no body
    that ran earlier had a later reading than that one. -/
def CreditsOnce (nows : List ℤ) : Prop :=
  ∀ pre last now post, nows = pre ++ last :: now :: post → now ≤ last ∨ ∀ m ∈ pre, m ≤ last

theorem CreditsOnce.init {nows : List ℤ} {now : ℤ} (h : CreditsOnce (nows ++ [now])) :
    CreditsOnce nows := fun pre last now' post heq =>
  h pre last now' (post ++ [now]) (by rw [heq]; simp)

/-- Before a body that refills, the last reading was the latest one. -/
theorem CreditsOnce.le_last {nows : List ℤ} {now last : ℤ} (h : CreditsOnce (nows ++ [now]))
    (hlast : nows.getLast? = some last) (hlt : last < now) : ∀ m ∈ nows, m ≤ last := by
  obtain ⟨pre, rfl⟩ := List.getLast?_eq_some_iff.mp hlast
  intro m hm
  rcases List.mem_append.mp hm with hm | hm
  · rcases h pre last now [] (by simp) with hle | hall
    · omega
    · exact hall m hm
  · exact (List.mem_singleton.mp hm).le

theorem creditsOnce_of_sorted {nows : List ℤ} (h : nows.Pairwise (· ≤ ·)) : CreditsOnce nows := by
  rintro pre last now post rfl
  exact .inr fun m hm => (List.pairwise_append.mp h).2.2 m hm last (by simp)

/-! ## Calls -/

/-- The readings of the calls of `key`. -/
def nowsOn (key : String) (calls : List (String × ℤ)) : List ℤ :=
  (calls.filter fun c => decide (c.1 = key)).map Prod.snd

/-- How many calls of `key` were admitted. -/
def admittedOn (key : String) (h : List ((String × ℤ) × Outcome (Bool × ℕ))) : ℕ :=
  h.countP fun e => decide (e.1.1 = key) && isAdmitted e.2

theorem nowsOn_append_self (key : String) (calls : List (String × ℤ)) (now : ℤ) :
    nowsOn key (calls ++ [(key, now)]) = nowsOn key calls ++ [now] := by
  simp [nowsOn]

theorem nowsOn_append_ne {key k : String} (hk : k ≠ key) (calls : List (String × ℤ)) (now : ℤ) :
    nowsOn key (calls ++ [(k, now)]) = nowsOn key calls := by
  simp [nowsOn, hk]

section
variable (capacity : ℕ) (refillRate : ℚ)

/-- The locked body of a call: `token_bucket_check` with the caller's reading. -/
def bucketCall (call : String × ℤ) (s : MemoryStore ℚ) : Outcome (Bool × ℕ) × MemoryStore ℚ :=
  s.tokenBucketCheck call.1 capacity refillRate call.2

/-- What bodies with these readings leave in the entry: the tokens are still
    within what the bucket may spend until `hi`, less what was admitted. -/
def BucketInv (lo hi : ℤ) (nows : List ℤ) (admitted : ℕ) (e : Option (BucketState ℚ)) : Prop :=
  match e with
  | none => nows = [] ∧ admitted = 0
  | some b => nows.getLast? = some b.lastRefill ∧ 0 ≤ b.tokens ∧
      b.tokens + admitted ≤ capacity + refillRate * span lo hi

end

variable {capacity : ℕ} {refillRate : ℚ} {key : String}

/-- The refill keeps within the rate: `h` is the invariant for every bound on
    the readings so far. -/
theorem level_add_le (hr : 0 ≤ refillRate) {nows : List ℤ} {lo hi now : ℤ} {admitted : ℕ}
    {e : Option (BucketState ℚ)} (hc : CreditsOnce (nows ++ [now]))
    (hlo : ∀ m ∈ nows ++ [now], lo ≤ m) (hhi : ∀ m ∈ nows ++ [now], m ≤ hi)
    (h : ∀ hi, (∀ m ∈ nows, m ≤ hi) → BucketInv capacity refillRate lo hi nows admitted e) :
    0 ≤ BucketState.level capacity refillRate now e ∧
      BucketState.level capacity refillRate now e + admitted ≤
        capacity + refillRate * span lo hi := by
  have hnow := hhi now (by simp)
  have hlohi : lo ≤ hi := (hlo now (by simp)).trans hnow
  cases e with
  | none =>
    obtain ⟨-, rfl⟩ := h hi fun m hm => hhi m (by simp [hm])
    have := mul_nonneg hr (span_nonneg hlohi)
    simp only [BucketState.level, Nat.cast_zero]
    exact ⟨Nat.cast_nonneg _, by linarith⟩
  | some b =>
    have hhere := h hi fun m hm => hhi m (by simp [hm])
    have hcap : (0 : ℚ) ≤ capacity := Nat.cast_nonneg _
    rcases le_or_gt now b.lastRefill with hle | hlt
    · -- no time passes for the bucket
      simp only [BucketState.level, durationSince_of_le hle, Duration.secs, Nat.cast_zero,
        zero_div, zero_mul, add_zero]
      exact ⟨le_min hhere.2.1 hcap, (add_le_add_left (min_le_left _ _) _).trans hhere.2.2⟩
    · -- the bucket was last refilled at the latest reading so far
      have hlast := h b.lastRefill (hc.le_last hhere.1 hlt)
      simp only [BucketState.level, secs_durationSince hlt.le]
      have hpos := mul_nonneg (span_nonneg hlt.le) hr
      refine ⟨le_min (by linarith [hhere.2.1]) hcap, ?_⟩
      have hmin := min_le_left (b.tokens + span b.lastRefill now * refillRate) (capacity : ℚ)
      have hadd := span_add lo b.lastRefill now
      have hmono := mul_le_mul_of_nonneg_left
        (show span lo now ≤ span lo hi from span_mono hnow) hr
      calc min (b.tokens + span b.lastRefill now * refillRate) (capacity : ℚ) + admitted
          ≤ b.tokens + admitted + refillRate * span b.lastRefill now := by linarith
        _ ≤ capacity + refillRate * span lo b.lastRefill + refillRate * span b.lastRefill now := by
          linarith [hlast.2.2]
        _ = capacity + refillRate * span lo now := by rw [← hadd]; ring
        _ ≤ capacity + refillRate * span lo hi := by linarith

/-! ## Runs -/

/-- A call of another key leaves the entry; a call of the key runs its body. -/
theorem bucketCall_lookup (k : String) (now : ℤ) (s : MemoryStore ℚ) :
    (bucketCall capacity refillRate (k, now) s).2.tokenBuckets.lookup key =
      if k = key then
        some (BucketState.acquire capacity refillRate now now (s.tokenBuckets.lookup key)).2
      else s.tokenBuckets.lookup key := by
  split_ifs with hk
  · subst hk; exact AList.lookup_insert _
  · exact KeyMap.access_lookup_ne _ (Ne.symm hk) _

theorem admittedOn_append (h : List ((String × ℤ) × Outcome (Bool × ℕ)))
    (e : (String × ℤ) × Outcome (Bool × ℕ)) :
    admittedOn key (h ++ [e]) =
      admittedOn key h + if e.1.1 = key ∧ isAdmitted e.2 = true then 1 else 0 := by
  by_cases hk : e.1.1 = key <;> cases ha : isAdmitted e.2 <;>
    simp [admittedOn, hk, ha]

/-- **The run lemma.**  After bodies that credit no time twice, the entry of a
    key satisfies its invariant for all bounds on the readings. -/
theorem bucketRun_inv (hr : 0 ≤ refillRate) {calls : List (String × ℤ)}
    (hc : CreditsOnce (nowsOn key calls)) {lo : ℤ} (hlo : ∀ m ∈ nowsOn key calls, lo ≤ m) {hi : ℤ}
    (hhi : ∀ m ∈ nowsOn key calls, m ≤ hi) :
    BucketInv capacity refillRate lo hi (nowsOn key calls)
      (admittedOn key (history (bucketCall capacity refillRate) .new calls))
      ((run (bucketCall capacity refillRate) .new calls).tokenBuckets.lookup key) := by
  induction calls using List.reverseRecOn generalizing hi with
  | nil => exact ⟨rfl, rfl⟩
  | append_singleton calls call ih =>
    obtain ⟨k, now⟩ := call
    rw [run_append, history_append, run_cons, run_nil, history, history, admittedOn_append,
      bucketCall_lookup]
    by_cases hk : k = key
    · subst hk
      rw [nowsOn_append_self] at hc hlo hhi ⊢
      have hprev : ∀ hi, (∀ m ∈ nowsOn k calls, m ≤ hi) → BucketInv capacity refillRate lo hi
          (nowsOn k calls) (admittedOn k (history (bucketCall capacity refillRate) .new calls))
          ((run (bucketCall capacity refillRate) .new calls).tokenBuckets.lookup k) :=
        fun hi hhi => ih hc.init (fun m hm => hlo m (by simp [hm])) hhi
      obtain ⟨hnonneg, hle⟩ := level_add_le hr hc hlo hhi hprev
      have hout : (bucketCall capacity refillRate (k, now)
          (run (bucketCall capacity refillRate) .new calls)).1 = .ok
            (BucketState.acquire capacity refillRate now now
              ((run (bucketCall capacity refillRate) .new calls).tokenBuckets.lookup k)).1 := rfl
      rw [if_pos rfl, hout, BucketState.acquire_rat hr]
      generalize (run (bucketCall capacity refillRate) .new calls).tokenBuckets.lookup k = e at *
      by_cases hone : 1 ≤ BucketState.level capacity refillRate now e
      · simp only [hone, if_true, isAdmitted, and_self, BucketInv, List.getLast?_concat]
        push_cast
        exact ⟨trivial, by linarith, by linarith⟩
      · simp only [hone, if_false, isAdmitted, Bool.false_eq_true, and_false, add_zero, BucketInv,
          List.getLast?_concat]
        exact ⟨trivial, hnonneg, hle⟩
    · rw [nowsOn_append_ne hk] at hc hlo hhi ⊢
      simp only [hk, if_false, false_and, add_zero]
      exact ih hc hlo hhi

/-! ## Interleavings -/

section
variable (capacity : ℕ) (refillRate : ℚ) (clock : ℤ) (acts : List (SampledAct String))

/-- The calls of `token_bucket_check` on a new store, in two steps each. -/
def bucketInterleaving : SampledState String (Outcome (Bool × ℕ)) (MemoryStore ℚ) :=
  interleave (bucketCall capacity refillRate) clock .new acts

end

/-- **The rate of a bucket under concurrent callers.**  In every interleaving
    whose bodies credit no time twice to the bucket of `key`, the admitted calls
    of `key` are at most its capacity plus what is refilled between the smallest
    and the largest reading. -/
theorem bucket_rate_bound (hr : 0 < refillRate) (clock : ℤ) (acts : List (SampledAct String))
    (hc : CreditsOnce (nowsOn key
      ((bucketInterleaving capacity refillRate clock acts).executed.map Prod.fst)))
    {lo hi : ℤ}
    (hlo : IsLeast {m | m ∈ nowsOn key
      ((bucketInterleaving capacity refillRate clock acts).executed.map Prod.fst)} lo)
    (hhi : IsGreatest {m | m ∈ nowsOn key
      ((bucketInterleaving capacity refillRate clock acts).executed.map Prod.fst)} hi) :
    (admittedOn key (bucketInterleaving capacity refillRate clock acts).executed : ℚ) ≤
      capacity + refillRate * Duration.secs (durationSince hi lo) := by
  have hseq := (interleave_sequential (bucketCall capacity refillRate) clock .new acts).2
  have hinv : BucketInv capacity refillRate lo hi _ _ _ :=
    bucketRun_inv hr.le hc (fun m hm => hlo.2 hm) (fun m hm => hhi.2 hm)
  rw [secs_durationSince (hlo.2 hhi.1)]
  simp only [bucketInterleaving] at *
  rw [← hseq] at hinv
  generalize (run (bucketCall capacity refillRate) (.new : MemoryStore ℚ) _).tokenBuckets.lookup key
    = e at hinv
  cases e with
  | none =>
    have hnil := hinv.1 ▸ hlo.1
    exact absurd hnil List.not_mem_nil
  | some b => linarith [hinv.2.1, hinv.2.2]

/-- Two callers, one after the other. -/
def callersInTurn : List (SampledAct String) :=
  [.sample "client", .lock 0, .tick 1000000000, .sample "client", .lock 0]

theorem callersInTurn_rate :
    (admittedOn "client" (bucketInterleaving 1 1 0 callersInTurn).executed : ℚ) ≤
      (1 : ℕ) + 1 * Duration.secs (durationSince 1000000000 0) := by
  have hnows : nowsOn "client" ((bucketInterleaving 1 1 0 callersInTurn).executed.map Prod.fst) =
      [0, 1000000000] := by decide
  exact bucket_rate_bound one_pos 0 callersInTurn
    (by rw [hnows]; exact creditsOnce_of_sorted (by decide))
    (by rw [hnows]; simp [IsLeast, lowerBounds]) (by rw [hnows]; simp [IsGreatest, upperBounds])

/-- Two callers read the clock at 0 s and two at 1 s; one of the first two gets
    the lock after one of the others. -/
def lateCaller : List (SampledAct String) :=
  [.sample "client", .sample "client", .tick 1000000000, .sample "client", .sample "client",
    .lock 0, .lock 1, .lock 0, .lock 0]

/-- With one token, refilled in a second, three of the four are admitted within
    that second. -/
theorem lateCaller_exceeds_rate :
    nowsOn "client" ((bucketInterleaving 1 1 0 lateCaller).executed.map Prod.fst) =
        [0, 1000000000, 0, 1000000000] ∧
      ¬ (admittedOn "client" (bucketInterleaving 1 1 0 lateCaller).executed : ℚ) ≤
        (1 : ℕ) + 1 * Duration.secs (durationSince 1000000000 0) := by
  have hthree : admittedOn "client" (bucketInterleaving 1 1 0 lateCaller).executed = 3 := by
    decide +kernel
  refine ⟨by decide, ?_⟩
  rw [hthree, show durationSince 1000000000 0 = 1000000000 from rfl]
  norm_num [Duration.secs]

end ArmatureRatelimit
