/-
  Greedy choices among the steps of a sequence.

  `Dominates chosen other`: in every prefix at least as many steps are chosen
  as in the other choice.  `dominates_of_refusals`: a choice dominates another
  one if every step that only the other takes ends a stretch in which the other
  has no more than the choice had before that step.
-/
import Mathlib

namespace Lib

/-- How many of the steps from `lo` up to but not including `hi` are taken. -/
def chosenIn (p : ℕ → Bool) (lo hi : ℕ) : ℕ := ((Finset.Ico lo hi).filter fun n => p n = true).card

theorem chosenIn_add (p : ℕ → Bool) {lo mid hi : ℕ} (h : lo ≤ mid) (h' : mid ≤ hi) :
    chosenIn p lo mid + chosenIn p mid hi = chosenIn p lo hi := by
  unfold chosenIn
  rw [← Finset.Ico_union_Ico_eq_Ico h h', Finset.filter_union, Finset.card_union_of_disjoint]
  exact (Finset.Ico_disjoint_Ico_consecutive lo mid hi).mono (Finset.filter_subset _ _)
    (Finset.filter_subset _ _)

theorem chosenIn_succ (p : ℕ → Bool) {lo n : ℕ} (h : lo ≤ n) :
    chosenIn p lo (n + 1) = chosenIn p lo n + (p n).toNat := by
  rw [← chosenIn_add p h (Nat.le_succ n)]
  congr 1
  rw [chosenIn, Nat.Ico_succ_singleton, Finset.filter_singleton]
  cases p n <;> rfl

/-- In every prefix at least as many steps are chosen. -/
def Dominates (chosen other : ℕ → Bool) : Prop := ∀ n, chosenIn other 0 n ≤ chosenIn chosen 0 n

/-- **The greedy rule.** -/
theorem dominates_of_refusals {chosen other : ℕ → Bool}
    (h : ∀ n, other n = true → chosen n = false →
      ∃ j ≤ n, chosenIn other j (n + 1) ≤ chosenIn chosen j n) :
    Dominates chosen other := by
  intro n
  induction n using Nat.strong_induction_on with
  | _ n ih =>
    cases n with
    | zero => exact Nat.le_refl _
    | succ n =>
      have hprev := ih n (Nat.lt_succ_self n)
      have hother := chosenIn_succ other (Nat.zero_le n)
      have hchosen := chosenIn_succ chosen (Nat.zero_le n)
      by_cases ho : other n = true
      · by_cases hc : chosen n = true
        · rw [ho] at hother
          rw [hc] at hchosen
          omega
        · rw [Bool.not_eq_true] at hc
          -- the stretch before `j` is dominated, and so is the one from `j` on
          obtain ⟨j, hj, hstretch⟩ := h n ho hc
          have hbefore := ih j (by omega)
          have hsplit := chosenIn_add other (Nat.zero_le j) (show j ≤ n + 1 by omega)
          have hsplit' := chosenIn_add chosen (Nat.zero_le j) hj
          omega
      · rw [Bool.not_eq_true] at ho
        rw [ho, Bool.toNat_false] at hother
        omega

end Lib
