/-
  Logs of bounded length.

  Each step may drop stamps from a log and may then add one of its own, if fewer
  than `max` are left (`LogStep`).  `card_le_of_logSteps`: of steps none of whose
  stamps is dropped until the last of them, at most `max` add one.  What a step
  may drop is a parameter, so that logs may be cleared by age, by expiry or as a
  whole.
-/
import ArmatureRatelimit.Lib.Counting

namespace Lib

variable {α : Type}

/-- A step from `log` to `log'`.  What it leaves of the log before it adds to it
    holds all that it must not drop. -/
def LogStep (max : ℕ) (mayDrop : α → Prop) (adds : Prop) (stamp : α) (log log' : Multiset α) :
    Prop :=
  ∃ live : Multiset α, (∀ kept ≤ log, (∀ x ∈ kept, ¬ mayDrop x) → kept ≤ live) ∧ live ≤ log' ∧
    (adds → live.card < max ∧ live + {stamp} ≤ log')

/-- A step that neither drops nor adds. -/
theorem LogStep.idle {max : ℕ} {mayDrop : α → Prop} {adds : Prop} {stamp : α} {log : Multiset α}
    (h : ¬ adds) : LogStep max mayDrop adds stamp log log :=
  ⟨log, fun _ hle _ => hle, le_rfl, fun ha => absurd ha h⟩

section
variable {max : ℕ} {mayDrop : ℕ → α → Prop} {adds : ℕ → Prop} {stamp : ℕ → α}
  {log : ℕ → Multiset α} {S : Finset ℕ}

/-- The stamps of the steps of `S` before step `n` are in the log. -/
theorem stamps_le_of_logSteps
    (h : ∀ n, LogStep max (mayDrop n) (adds n) (stamp n) (log n) (log (n + 1)))
    (hadds : ∀ m ∈ S, adds m) {last : ℕ}
    (hkept : ∀ m ∈ S, ∀ n, m < n → n ≤ last → ¬ mayDrop n (stamp m)) {n : ℕ} (hn : n ≤ last) :
    (S.filter (· < n)).val.map stamp ≤ log n := by
  induction n with
  | zero => simp
  | succ n ih =>
    obtain ⟨live, hkeeps, hle, hadded⟩ := h n
    have hlive : (S.filter (· < n)).val.map stamp ≤ live := by
      refine hkeeps _ (ih (by omega)) ?_
      intro x hx
      obtain ⟨m, hm, rfl⟩ := Multiset.mem_map.mp hx
      obtain ⟨hmS, hmn⟩ := Finset.mem_filter.mp hm
      exact hkept m hmS n hmn (by omega)
    by_cases hnS : n ∈ S
    · have hsplit : S.filter (· < n + 1) = insert n (S.filter (· < n)) := by
        ext m
        simp only [Finset.mem_filter, Finset.mem_insert]
        constructor
        · rintro ⟨hm, hlt⟩
          rcases Nat.lt_or_eq_of_le (Nat.lt_succ_iff.mp hlt) with hlt | rfl
          · exact .inr ⟨hm, hlt⟩
          · exact .inl rfl
        · rintro (rfl | ⟨hm, hlt⟩)
          · exact ⟨hnS, Nat.lt_succ_self _⟩
          · exact ⟨hm, by omega⟩
      have hnew : n ∉ S.filter (· < n) := by simp
      rw [hsplit, Finset.insert_val_of_notMem hnew, Multiset.map_cons, ← Multiset.singleton_add,
        add_comm]
      exact (Multiset.add_le_add_right hlive).trans (hadded (hadds n hnS)).2
    · have hsame : S.filter (· < n + 1) = S.filter (· < n) := by
        refine Finset.filter_congr fun m hm => ?_
        have hne : m ≠ n := fun he => hnS (he ▸ hm)
        omega
      rw [hsame]
      exact hlive.trans hle

variable (log adds stamp mayDrop) in
/-- **The counting rule.**  If no stamp of `S` is dropped until the last step of
    `S`, at most `max` steps are in `S`. -/
theorem card_le_of_logSteps
    (h : ∀ n, LogStep max (mayDrop n) (adds n) (stamp n) (log n) (log (n + 1)))
    (hadds : ∀ m ∈ S, adds m)
    (hkept : ∀ m ∈ S, ∀ n, m < n → (∃ k ∈ S, n ≤ k) → ¬ mayDrop n (stamp m)) : S.card ≤ max := by
  rcases S.eq_empty_or_nonempty with rfl | hne
  · exact Nat.zero_le _
  · have hlast := S.max'_mem hne
    have hkept' : ∀ m ∈ S, ∀ n, m < n → n ≤ S.max' hne → ¬ mayDrop n (stamp m) :=
      fun m hm n hmn hn => hkept m hm n hmn ⟨_, hlast, hn⟩
    obtain ⟨live, hkeeps, -, hadded⟩ := h (S.max' hne)
    have hlive : (S.filter (· < S.max' hne)).val.map stamp ≤ live := by
      refine hkeeps _ (stamps_le_of_logSteps h hadds hkept' le_rfl) ?_
      intro x hx
      obtain ⟨m, hm, rfl⟩ := Multiset.mem_map.mp hx
      obtain ⟨hmS, hlt⟩ := Finset.mem_filter.mp hm
      exact hkept' m hmS _ hlt le_rfl
    have hcard := Multiset.card_le_card hlive
    rw [Multiset.card_map, Finset.card_val] at hcard
    have hsucc := card_le_succ (T := S.filter (· < S.max' hne)) hne fun m hm hlt =>
      Finset.mem_filter.mpr ⟨hm, hlt⟩
    have hroom := (hadded (hadds _ hlast)).1
    omega

end

end Lib
