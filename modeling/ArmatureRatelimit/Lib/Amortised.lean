/-
  Amortised accounts of runs whose inputs carry a time.

  An `Account` gives every state a balance at every time.  Time alone never
  lowers it; an input that gains adds one, and an input that loses may take up to
  `cost` away.  `Account.tally_le`: over an ordered run the gains are at most
  what the balance has grown by, and `cost` for every loss.

  The other way round, `left` is what inputs can still gain by asking for it:
  `min_le_tally` says that it will be gained, `tally_le_left` that no more will.
-/
import ArmatureRatelimit.Lib.Runs

namespace Lib

variable {σ ι ω τ K : Type} [Preorder τ] [Field K] [LinearOrder K] [IsStrictOrderedRing K]

/-- **The timed invariant rule.**  What time keeps, and every input at its time,
    holds at the end of an ordered run. -/
theorem run_inv_at {τ : Type} [Preorder τ] {step : ι → σ → ω × σ} {time : ι → τ}
    (good : τ → σ → Prop) (hmono : ∀ {t u s}, t ≤ u → good t s → good u s)
    (hstep : ∀ {i s}, good (time i) s → good (time i) (step i s).2) {is : List ι} {t u : τ} {s : σ}
    (hord : is.Pairwise fun i j => time i ≤ time j) (ht : ∀ i ∈ is, t ≤ time i)
    (hu : ∀ i ∈ is, time i ≤ u) (htu : t ≤ u) (hs : good t s) : good u (run step s is) := by
  induction is generalizing t s with
  | nil => exact hmono htu hs
  | cons i is ih =>
    rw [List.pairwise_cons] at hord
    exact ih hord.2 hord.1 (fun j hj => hu j (by simp [hj])) (hu i (by simp))
      (hstep (hmono (ht i (by simp)) hs))

/-- `good` is what the states of the run satisfy as time goes on. -/
structure Account (step : ι → σ → ω × σ) (time : ι → τ) (gain loss : ι → σ → Bool) (cost : K)
    (good : τ → σ → Prop) (balance : τ → σ → K) : Prop where
  good_mono : ∀ {t u s}, t ≤ u → good t s → good u s
  balance_mono : ∀ {t u s}, t ≤ u → good t s → balance t s ≤ balance u s
  good_step : ∀ {i s}, good (time i) s → good (time i) (step i s).2
  balance_step : ∀ {i s}, good (time i) s →
    balance (time i) s + (gain i s).toNat ≤
      balance (time i) (step i s).2 + cost * (loss i s).toNat

/-- **The account rule.** -/
theorem Account.tally_le {step : ι → σ → ω × σ} {time : ι → τ} {gain loss : ι → σ → Bool}
    {cost : K} {good : τ → σ → Prop} {balance : τ → σ → K}
    (account : Account step time gain loss cost good balance) {is : List ι} {t u : τ} {s : σ}
    (hord : is.Pairwise fun i j => time i ≤ time j) (ht : ∀ i ∈ is, t ≤ time i)
    (hu : ∀ i ∈ is, time i ≤ u) (htu : t ≤ u) (hs : good t s) :
    balance t s + tally step gain s is ≤
      balance u (run step s is) + cost * tally step loss s is := by
  induction is generalizing t s with
  | nil =>
    have hmono := account.balance_mono htu hs
    simpa [tally] using hmono
  | cons i is ih =>
    rw [List.pairwise_cons] at hord
    have hti := ht i (by simp)
    have hgood := account.good_mono hti hs
    have hmono := account.balance_mono hti hs
    have hstep := account.balance_step hgood
    have hrest := ih hord.2 hord.1 (fun j hj => hu j (by simp [hj])) (hu i (by simp))
      (account.good_step hgood)
    simp only [run_cons, tally, Nat.cast_add, mul_add]
    linarith

/-- **The reserve rule.**  If time does not lower what is left, and only an input
    that asks for it takes from it, then what is asked for is gained while any is
    left. -/
theorem min_le_tally {step : ι → σ → ω × σ} {asks : ι → Bool} {gain : ι → σ → Bool}
    (time : ι → τ) (left : τ → σ → ℕ) {is : List ι} {t : τ} {s : σ}
    (hmono : ∀ {t u s}, t ≤ u → left t s ≤ left u s)
    (hgain : ∀ i ∈ is, ∀ s, asks i = true → 0 < left (time i) s → gain i s = true)
    (hleft : ∀ i ∈ is, ∀ s,
      left (time i) s ≤ left (time i) (step i s).2 + (asks i).toNat)
    (hord : is.Pairwise fun i j => time i ≤ time j) (ht : ∀ i ∈ is, t ≤ time i) :
    min (left t s) (is.countP asks) ≤ tally step gain s is := by
  induction is generalizing t s with
  | nil => exact min_le_right _ _
  | cons i is ih =>
    rw [List.pairwise_cons] at hord
    have hrest : min (left (time i) (step i s).2) (is.countP asks) ≤
        tally step gain (step i s).2 is :=
      ih (fun j hj => hgain j (by simp [hj])) (fun j hj => hleft j (by simp [hj])) hord.2 hord.1
    have hlater : left t s ≤ left (time i) s := hmono (ht i (by simp))
    have hspent := hleft i (by simp) s
    have hasked := hgain i (by simp) s
    rw [List.countP_cons]
    simp only [tally]
    cases ha : asks i with
    | false =>
      simp only [ha, Bool.toNat_false, Bool.false_eq_true, if_false] at hspent ⊢
      omega
    | true =>
      simp only [ha, Bool.toNat_true, if_true] at hspent ⊢
      rcases Nat.eq_zero_or_pos (left (time i) s) with hzero | hpos
      · omega
      · rw [hasked ha hpos, Bool.toNat_true]
        omega

/-- No more is gained than was left, or than was asked for. -/
theorem tally_le_left {step : ι → σ → ω × σ} {asks : ι → Bool} {gain : ι → σ → Bool}
    (left : σ → ℕ) {is : List ι} (hasks : ∀ i s, gain i s = true → asks i = true)
    (hleft : ∀ i ∈ is, ∀ s, left (step i s).2 + (gain i s).toNat ≤ left s) (s : σ) :
    tally step gain s is ≤ min (left s) (is.countP asks) := by
  induction is generalizing s with
  | nil => exact Nat.zero_le _
  | cons i is ih =>
    have hrest := ih (fun j hj => hleft j (by simp [hj])) (step i s).2
    have hspent := hleft i (by simp) s
    have hasked := hasks i s
    rw [List.countP_cons]
    simp only [tally]
    cases hg : gain i s with
    | false =>
      simp only [hg, Bool.toNat_false] at hspent ⊢
      omega
    | true =>
      simp only [hg, Bool.toNat_true, hasked hg, if_true] at hspent ⊢
      omega

end Lib
