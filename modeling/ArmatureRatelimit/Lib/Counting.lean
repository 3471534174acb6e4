/-
  Counting the items of a finite set.

  `card_le_succ` sets the last item apart, `card_le_of_labels` counts by labels
  that lie close together, and `card_le_of_tiles` cuts time into tiles.  `Spaced`
  items are labelled by integers such that two different labels are at least `gap`
  apart: an interval shorter than `k * gap` meets at most `k` labels
  (`Spaced.card_image_le`), so if at most `c` items carry each label, at most
  `k * c` items have theirs in it (`Spaced.card_le`).
-/
import Mathlib

namespace Lib

variable {α : Type}

/-- If all items but the last are in `T`, there is at most one more than in `T`. -/
theorem card_le_succ {S T : Finset ℕ} (hne : S.Nonempty)
    (h : ∀ m ∈ S, m < S.max' hne → m ∈ T) : S.card ≤ T.card + 1 := by
  have hsub : S.erase (S.max' hne) ⊆ T := by
    intro m hm
    exact h m (Finset.mem_of_mem_erase hm) (S.lt_max'_of_mem_erase_max' hne hm)
  have hcard := Finset.card_le_card hsub
  rw [Finset.card_erase_of_mem (S.max'_mem hne)] at hcard
  omega

/-- If at most `c` items carry each label, and no two labels are more than `k`
    apart, there are at most `c` items for each of `k + 1` labels. -/
theorem card_le_of_labels {S : Finset α} (label : α → ℕ) {k c : ℕ}
    (hnear : ∀ x ∈ S, ∀ y ∈ S, label y ≤ label x + k)
    (hc : ∀ v, (S.filter fun x => label x = v).card ≤ c) : S.card ≤ c * (k + 1) := by
  rcases S.eq_empty_or_nonempty with rfl | hne
  · exact Nat.zero_le _
  obtain ⟨first, hfirst, hmin⟩ := S.exists_min_image label hne
  have himage : S.image label ⊆ Finset.Icc (label first) (label first + k) := by
    intro v hv
    obtain ⟨x, hx, rfl⟩ := Finset.mem_image.mp hv
    exact Finset.mem_Icc.mpr ⟨hmin x hx, hnear first hfirst x hx⟩
  have hcard := Finset.card_le_card himage
  rw [Nat.card_Icc] at hcard
  calc S.card ≤ c * (S.image label).card :=
        Finset.card_le_mul_card_image S c fun v _ => hc v
    _ ≤ c * (k + 1) := Nat.mul_le_mul_left c (by omega)

/-- **The tiling rule.**  If at most `c` items fit in less than a tile of time,
    a span holds at most `c` for every tile that is begun in it. -/
theorem card_le_of_tiles {S : Finset α} (time : α → ℤ) {tile span c : ℕ} (htile : 0 < tile)
    (hspan : ∀ x ∈ S, ∀ y ∈ S, time y ≤ time x + span)
    (hc : ∀ T ⊆ S, (∀ x ∈ T, ∀ y ∈ T, time y < time x + tile) → T.card ≤ c) :
    S.card ≤ c * (span / tile + 1) := by
  rcases S.eq_empty_or_nonempty with rfl | hne
  · exact Nat.zero_le _
  obtain ⟨first, hfirst, hmin⟩ := S.exists_min_image time hne
  have hcell : ∀ x ∈ S, ((time x - time first).toNat : ℤ) = time x - time first := fun x hx =>
    Int.toNat_of_nonneg (sub_nonneg.mpr (hmin x hx))
  refine card_le_of_labels (fun x => (time x - time first).toNat / tile) ?_ ?_
  · intro x _ y hy
    have hy' := hcell y hy
    have hle := hspan first hfirst y hy
    exact (Nat.div_le_div_right (by omega)).trans (Nat.le_add_left _ _)
  · intro v
    refine hc _ (Finset.filter_subset _ _) ?_
    intro x hx y hy
    obtain ⟨hxS, hxv⟩ := Finset.mem_filter.mp hx
    obtain ⟨hyS, hyv⟩ := Finset.mem_filter.mp hy
    have hx' := hcell x hxS
    have hy' := hcell y hyS
    have hlow := Nat.div_mul_le_self (time x - time first).toNat tile
    have hhigh := Nat.lt_div_mul_add (a := (time y - time first).toNat) htile
    rw [hxv] at hlow
    rw [hyv] at hhigh
    omega

/-! ## Spaced labels -/

/-- The labels of two items of `S` are equal or at least `gap` apart. -/
def Spaced (gap : ℤ) (label : α → ℤ) (S : Finset α) : Prop :=
  ∀ x ∈ S, ∀ y ∈ S, label x = label y ∨ label x + gap ≤ label y ∨ label y + gap ≤ label x

namespace Spaced

variable {gap : ℤ} {label : α → ℤ} {S : Finset α}

/-- Labels that fall into the same cell of a grid of width `gap` are equal. -/
theorem eq_of_cell (h : Spaced gap label S) (hgap : 0 < gap) (lo : ℤ) {x y : α} (hx : x ∈ S)
    (hy : y ∈ S) (hcell : (label x - lo) / gap = (label y - lo) / gap) : label x = label y := by
  have hdx := Int.mul_ediv_add_emod (label x - lo) gap
  have hdy := Int.mul_ediv_add_emod (label y - lo) gap
  have hx0 := Int.emod_nonneg (label x - lo) hgap.ne'
  have hy0 := Int.emod_nonneg (label y - lo) hgap.ne'
  have hx1 := Int.emod_lt_of_pos (label x - lo) hgap
  have hy1 := Int.emod_lt_of_pos (label y - lo) hgap
  rw [hcell] at hdx
  rcases h x hx y hy with heq | hlt | hlt
  · exact heq
  · omega
  · omega

theorem card_image_le (h : Spaced gap label S) (hgap : 0 < gap) (lo : ℤ) (k : ℕ)
    (hS : ∀ x ∈ S, lo ≤ label x ∧ label x < lo + k * gap) : (S.image label).card ≤ k := by
  rw [← Finset.card_range k]
  refine Finset.card_le_card_of_injOn (fun v => ((v - lo) / gap).toNat) ?_ ?_
  · intro v hv
    obtain ⟨x, hx, rfl⟩ := Finset.mem_image.mp hv
    have hlo : 0 ≤ label x - lo := by linarith [(hS x hx).1]
    have hlt : (label x - lo) / gap < k :=
      Int.ediv_lt_of_lt_mul hgap (by linarith [(hS x hx).2])
    have hnonneg := Int.ediv_nonneg hlo hgap.le
    simp only [Finset.coe_range, Set.mem_Iio]
    omega
  · intro v hv w hw hcell
    obtain ⟨x, hx, rfl⟩ := Finset.mem_image.mp hv
    obtain ⟨y, hy, rfl⟩ := Finset.mem_image.mp hw
    have hx0 : 0 ≤ (label x - lo) / gap := Int.ediv_nonneg (by linarith [(hS x hx).1]) hgap.le
    have hy0 : 0 ≤ (label y - lo) / gap := Int.ediv_nonneg (by linarith [(hS y hy).1]) hgap.le
    simp only at hcell
    exact h.eq_of_cell hgap lo hx hy (by omega)

/-- **The counting rule.** -/
theorem card_le (h : Spaced gap label S) (hgap : 0 < gap) (lo : ℤ) (k c : ℕ)
    (hS : ∀ x ∈ S, lo ≤ label x ∧ label x < lo + k * gap)
    (hc : ∀ v, (S.filter fun x => label x = v).card ≤ c) : S.card ≤ k * c := by
  calc S.card ≤ c * (S.image label).card :=
        Finset.card_le_mul_card_image S c fun v _ => hc v
    _ ≤ c * k := Nat.mul_le_mul_left c (h.card_image_le hgap lo k hS)
    _ = k * c := Nat.mul_comm c k

end Spaced

end Lib
