/-
  Clipped accounts: a level that each step first clips to a cap and then draws
  from.

  At step `n` the level becomes `min (cap n) level - used n`; before the first
  step there is no level, and only the cap counts.  Steps that are not `on`
  leave it as it is.  `Clipped.le_iff`: the level is at least `y` if and only
  if, from every earlier step on, what was used fits with `y` under the cap of
  that step.
-/
import Mathlib

namespace Lib

variable {K : Type} [AddCommGroup K] [LinearOrder K] [IsOrderedAddMonoid K]

/-- The lower of a cap and a level, if there is one. -/
def clip (c : K) : Option K → K
  | none => c
  | some z => min c z

omit [AddCommGroup K] [IsOrderedAddMonoid K] in
theorem le_clip {c y : K} {z : Option K} : y ≤ clip c z ↔ y ≤ c ∧ ∀ v, z = some v → y ≤ v := by
  cases z with
  | none => simp [clip]
  | some v => simp [clip]

/-- A level that starts missing and is clipped and drawn from at each step. -/
structure Clipped (on : ℕ → Prop) (cap used : ℕ → K) (level : ℕ → Option K) : Prop where
  zero : level 0 = none
  step : ∀ n, on n → level (n + 1) = some (clip (cap n) (level n) - used n)
  skip : ∀ n, ¬ on n → level (n + 1) = level n
  unused : ∀ n, ¬ on n → used n = 0

/-- **The closed form of a clipped account.** -/
theorem Clipped.le_iff {on : ℕ → Prop} {cap used : ℕ → K} {level : ℕ → Option K}
    (h : Clipped on cap used level) (n : ℕ) (y : K) :
    (∀ z, level n = some z → y ≤ z) ↔
      ∀ j < n, on j → y + ∑ m ∈ Finset.Ico j n, used m ≤ cap j := by
  induction n generalizing y with
  | zero => simp [h.zero]
  | succ n ih =>
    have hsum : ∀ j ≤ n, ∑ m ∈ Finset.Ico j (n + 1), used m =
        used n + ∑ m ∈ Finset.Ico j n, used m := fun j hj => by
      rw [Finset.sum_Ico_succ_top hj, add_comm]
    by_cases hon : on n
    · rw [h.step n hon]
      have hlevel : (∀ z, some (clip (cap n) (level n) - used n) = some z → y ≤ z) ↔
          y + used n ≤ clip (cap n) (level n) := by
        simp only [Option.some.injEq, forall_eq', le_sub_iff_add_le]
      rw [hlevel, le_clip, ih (y + used n)]
      constructor
      · rintro ⟨hcap, hall⟩ j hj honj
        rw [hsum j (by omega), ← add_assoc]
        rcases Nat.lt_or_eq_of_le (Nat.lt_succ_iff.mp hj) with hlt | rfl
        · exact hall j hlt honj
        · simpa using hcap
      · intro hall
        refine ⟨?_, ?_⟩
        · simpa [hsum n le_rfl] using hall n (Nat.lt_succ_self n) hon
        · intro j hj honj
          have := hall j (by omega) honj
          rwa [hsum j hj.le, ← add_assoc] at this
    · rw [h.skip n hon, ih y]
      constructor
      · intro hall j hj honj
        rcases Nat.lt_or_eq_of_le (Nat.lt_succ_iff.mp hj) with hlt | rfl
        · rw [hsum j hlt.le, h.unused n hon, zero_add]; exact hall j hlt honj
        · exact absurd honj hon
      · intro hall j hj honj
        have := hall j (by omega) honj
        rwa [hsum j hj.le, h.unused n hon, zero_add] at this

/-- What a step can draw: `y` fits under the clipped level of step `n` if and
    only if it fits, with what was used in between, under every cap up to it. -/
theorem Clipped.le_clip_iff {on : ℕ → Prop} {cap used : ℕ → K} {level : ℕ → Option K}
    (h : Clipped on cap used level) {n : ℕ} (hon : on n) (y : K) :
    y ≤ clip (cap n) (level n) ↔
      ∀ j ≤ n, on j → y + ∑ m ∈ Finset.Ico j n, used m ≤ cap j := by
  rw [le_clip, h.le_iff n y]
  constructor
  · rintro ⟨hcap, hall⟩ j hj honj
    rcases Nat.lt_or_eq_of_le hj with hlt | rfl
    · exact hall j hlt honj
    · simpa using hcap
  · intro hall
    exact ⟨by simpa using hall n le_rfl hon, fun j hj honj => hall j hj.le honj⟩

/-! ## Lists of steps -/

section
variable {ι : Type} (gain : ι → ι → K) (used : ι → K) (c : K)

/-- What is gained along a list of steps, with `gain a b` between `a` and `b`. -/
def gained : List ι → K
  | a :: b :: steps => gain a b + gained (b :: steps)
  | _ => 0

/-- The last step, with the level that it leaves. -/
def recovering (steps : List ι) : Option (ι × K) :=
  steps.foldl (fun z i => some (i, clip c (z.map fun last => last.2 + gain last.1 i) - used i)) none

variable {gain used c}

omit [LinearOrder K] [IsOrderedAddMonoid K] in
theorem gained_concat (a : ι) (steps : List ι) (b i : ι) :
    gained gain (a :: steps ++ [b, i]) = gained gain (a :: steps ++ [b]) + gain b i := by
  induction steps generalizing a with
  | nil => simp [gained]
  | cons x steps ih =>
    simp only [List.cons_append, gained] at ih ⊢
    rw [ih, add_assoc]

omit [LinearOrder K] [IsOrderedAddMonoid K] in
theorem gained_concat_of_last {steps : List ι} {last : ι} (h : steps.getLast? = some last) (i : ι) :
    gained gain (steps ++ [i]) = gained gain steps + gain last i := by
  obtain ⟨front, rfl⟩ := List.getLast?_eq_some_iff.mp h
  cases front with
  | nil => simp [gained]
  | cons a front =>
    rw [List.append_assoc]
    exact gained_concat a front last i

omit [IsOrderedAddMonoid K] in
theorem recovering_concat (steps : List ι) (i : ι) :
    recovering gain used c (steps ++ [i]) = some (i,
      clip c ((recovering gain used c steps).map fun last => last.2 + gain last.1 i) - used i) := by
  simp only [recovering, List.foldl_append, List.foldl_cons, List.foldl_nil]

omit [IsOrderedAddMonoid K] in
theorem getLast_of_recovering {steps : List ι} {z : ι × K}
    (h : recovering gain used c steps = some z) : steps.getLast? = some z.1 := by
  rcases List.eq_nil_or_concat steps with rfl | ⟨front, i, rfl⟩
  · cases h
  · rw [List.concat_eq_append] at h ⊢
    rw [recovering_concat] at h
    obtain rfl := Option.some.inj h
    exact List.getLast?_concat

/-- The next step from a level whose closed form is known. -/
theorem le_clip_of_le_iff {steps : List ι}
    (h : ∀ y, (∀ z, recovering gain used c steps = some z → y ≤ z.2) ↔
      ∀ part, part <:+ steps → part ≠ [] → y + (part.map used).sum ≤ c + gained gain part)
    (i : ι) (y : K) :
    y ≤ clip c ((recovering gain used c steps).map fun last => last.2 + gain last.1 i) ↔
      ∀ part, part <:+ steps → y + (part.map used).sum ≤ c + gained gain (part ++ [i]) := by
  rw [le_clip]
  have hnil : y + (([] : List ι).map used).sum ≤ c + gained gain ([] ++ [i]) ↔ y ≤ c := by
    simp [gained]
  cases hz : recovering gain used c steps with
  | none =>
    have hempty : steps = [] := by
      rcases List.eq_nil_or_concat steps with rfl | ⟨front, j, rfl⟩
      · rfl
      · rw [List.concat_eq_append, recovering_concat] at hz; cases hz
    subst hempty
    simp only [Option.map_none, List.suffix_nil, forall_eq, hnil]
    exact ⟨fun hy => hy.1, fun hy => ⟨hy, nofun⟩⟩
  | some z =>
    have hlast := getLast_of_recovering hz
    have hlevel : (∀ v, ((some z).map fun last => last.2 + gain last.1 i) = some v → y ≤ v) ↔
        ∀ part, part <:+ steps → part ≠ [] →
          y - gain z.1 i + (part.map used).sum ≤ c + gained gain part := by
      rw [← h (y - gain z.1 i), hz]
      simp only [Option.map_some, Option.some.injEq, forall_eq', sub_le_iff_le_add]
    have hpart : ∀ part, part <:+ steps → part ≠ [] →
        (y - gain z.1 i + (part.map used).sum ≤ c + gained gain part ↔
          y + (part.map used).sum ≤ c + gained gain (part ++ [i])) := by
      intro part hsuf hne
      have hend : part.getLast? = some z.1 := by
        obtain ⟨front, rfl⟩ := hsuf
        rwa [List.getLast?_append_of_ne_nil front hne] at hlast
      rw [gained_concat_of_last hend, sub_add_eq_add_sub, sub_le_iff_le_add, add_assoc]
    rw [hlevel]
    constructor
    · rintro ⟨hcap, hall⟩ part hsuf
      rcases eq_or_ne part [] with rfl | hne
      · exact hnil.mpr hcap
      · exact (hpart part hsuf hne).mp (hall part hsuf hne)
    · intro hall
      refine ⟨hnil.mp (hall [] (List.nil_suffix)), ?_⟩
      intro part hsuf hne
      exact (hpart part hsuf hne).mpr (hall part hsuf)

/-- **The closed form of a recovering account.** -/
theorem le_recovering_iff (steps : List ι) (y : K) :
    (∀ z, recovering gain used c steps = some z → y ≤ z.2) ↔
      ∀ part, part <:+ steps → part ≠ [] → y + (part.map used).sum ≤ c + gained gain part := by
  induction steps using List.reverseRecOn generalizing y with
  | nil =>
    refine ⟨fun _ part hsuf hne => absurd (List.suffix_nil.mp hsuf) hne, fun _ z hz => ?_⟩
    cases hz
  | append_singleton steps i ih =>
    have hlevel : (∀ z, recovering gain used c (steps ++ [i]) = some z → y ≤ z.2) ↔
        y + used i ≤
          clip c ((recovering gain used c steps).map fun last => last.2 + gain last.1 i) := by
      simp only [recovering_concat, Option.some.injEq, forall_eq', le_sub_iff_add_le]
    rw [hlevel, le_clip_of_le_iff ih]
    constructor
    · intro hall part hsuf hne
      rcases List.suffix_concat_iff.mp hsuf with rfl | ⟨front, rfl, hfront⟩
      · exact absurd rfl hne
      · have hthis := hall front hfront
        rw [List.map_append, List.sum_append, List.map_singleton, List.sum_singleton]
        rwa [add_assoc, add_comm (used i)] at hthis
    · intro hall part hsuf
      have hthis := hall (part ++ [i]) (by
        obtain ⟨rest, rfl⟩ := hsuf
        exact ⟨rest, by simp⟩) (by simp)
      rw [List.map_append, List.sum_append, List.map_singleton, List.sum_singleton] at hthis
      rwa [add_assoc, add_comm (used i)]

/-- What a step can draw after the steps so far. -/
theorem le_clip_recovering_iff (steps : List ι) (i : ι) (y : K) :
    y ≤ clip c ((recovering gain used c steps).map fun last => last.2 + gain last.1 i) ↔
      ∀ part, part <:+ steps → y + (part.map used).sum ≤ c + gained gain (part ++ [i]) :=
  le_clip_of_le_iff (le_recovering_iff steps) i y

end

end Lib
