/-
  The `n` oldest entries of a list of keys with stamps.

  Equal stamps leave open which entries these are: an arrangement of the list
  has `n` entries in front that are no later than the others (`OldestFirst`),
  and breaks ties in some way.  Counting the stamps tells which two entries an
  arrangement can put on different sides (`MayPart`): those that it does, it may
  (`OldestFirst.mayPart`), and those that it may, some arrangement does, which
  even sorts the list (`MayPart.parting`).  So removing the `n` oldest entries
  of a map never parts two keys the wrong way, whatever the arrangement, exactly
  if no such two keys may be parted (`ListsStamps.parts_iff`).
-/
import ArmatureRatelimit.Lib.KeyMap

namespace Lib

variable {κ α : Type} [LinearOrder α]

/-- None of the first `n` entries is later than any of the others. -/
def OldestFirst (n : ℕ) (l : List (κ × α)) : Prop :=
  ∀ a ∈ l.take n, ∀ b ∈ l.drop n, a.2 ≤ b.2

/-- An entry with stamp `t` may be among the `n` oldest of `l` while one with
    stamp `t'` is not. -/
structure MayPart (n : ℕ) (l : List (κ × α)) (t t' : α) : Prop where
  le : t ≤ t'
  /-- fewer than `n` entries are older than `t` -/
  older : l.countP (fun a => a.2 < t) < n
  /-- more than `n` entries are no later than `t'` -/
  noLater : n < l.countP (fun a => a.2 ≤ t')

theorem MayPart.perm {n : ℕ} {l l' : List (κ × α)} {t t' : α} (h : MayPart n l t t')
    (hperm : l.Perm l') : MayPart n l' t t' :=
  ⟨h.le, hperm.countP_eq _ ▸ h.older, hperm.countP_eq _ ▸ h.noLater⟩

omit [LinearOrder α] in
theorem countP_take_add_drop (n : ℕ) (l : List (κ × α)) (p : κ × α → Bool) :
    (l.take n).countP p + (l.drop n).countP p = l.countP p := by
  rw [← List.countP_append, List.take_append_drop]

omit [LinearOrder α] in
theorem length_take_of_mem_drop {n : ℕ} {l : List (κ × α)} {a : κ × α} (h : a ∈ l.drop n) :
    (l.take n).length = n := by
  have hpos := List.length_pos_of_mem h
  rw [List.length_drop] at hpos
  rw [List.length_take]
  omega

/-- What an arrangement parts may be parted. -/
theorem OldestFirst.mayPart {n : ℕ} {l : List (κ × α)} (h : OldestFirst n l) {a b : κ × α}
    (ha : a ∈ l.take n) (hb : b ∈ l.drop n) : MayPart n l a.2 b.2 := by
  have hlen := length_take_of_mem_drop hb
  refine ⟨h a ha b hb, ?_, ?_⟩
  · have hfront : (l.take n).countP (fun x => x.2 < a.2) < (l.take n).length :=
      List.countP_lt_length_iff.mpr ⟨a, ha, by simp⟩
    have hrest : (l.drop n).countP (fun x => x.2 < a.2) = 0 := by
      refine List.countP_eq_zero.mpr fun x hx => ?_
      simpa using h a ha x hx
    rw [← countP_take_add_drop n, hrest]
    omega
  · have hfront : (l.take n).countP (fun x => x.2 ≤ b.2) = (l.take n).length := by
      refine List.countP_eq_length.mpr fun x hx => ?_
      simpa using h x hx b hb
    have hrest : 0 < (l.drop n).countP (fun x => x.2 ≤ b.2) :=
      List.countP_pos_iff.mpr ⟨b, hb, by simp⟩
    rw [← countP_take_add_drop n, hfront]
    omega

/-! ## An arrangement for two keys -/

section
variable [DecidableEq κ] (first last : κ)

/-- Among entries with the same stamp one key comes first and one last. -/
def tieRank (key : κ) : ℕ := if key = first then 0 else if key = last then 2 else 1

/-- What entries are sorted by: the stamp, and then the rank of the key. -/
def rankedStamp (a : κ × α) : α ×ₗ ℕ := toLex (a.2, tieRank first last a.1)

/-- The list sorted by stamps, with ties broken by the rank. -/
def parting (l : List (κ × α)) : List (κ × α) :=
  l.mergeSort fun a b => decide (rankedStamp first last a ≤ rankedStamp first last b)

theorem parting_perm (l : List (κ × α)) : (parting first last l).Perm l := List.mergeSort_perm _ _

theorem parting_ranked (l : List (κ × α)) : (parting first last l).Pairwise fun a b =>
    rankedStamp first last a ≤ rankedStamp first last b := by
  have hsorted := @List.pairwise_mergeSort (κ × α)
    (fun a b => decide (rankedStamp first last a ≤ rankedStamp first last b))
    (fun a b c hab hbc => by simpa using le_trans (of_decide_eq_true hab) (of_decide_eq_true hbc))
    (fun a b => by simpa using le_total (rankedStamp first last a) (rankedStamp first last b)) l
  exact hsorted.imp of_decide_eq_true

variable {first last}

theorem rankedStamp_le_iff {a b : κ × α} : rankedStamp first last a ≤ rankedStamp first last b ↔
    a.2 < b.2 ∨ a.2 = b.2 ∧ tieRank first last a.1 ≤ tieRank first last b.1 :=
  Prod.Lex.toLex_le_toLex

variable (first last) in
theorem parting_sorted (l : List (κ × α)) :
    (parting first last l).Pairwise fun a b => a.2 ≤ b.2 := by
  refine (parting_ranked first last l).imp fun h => ?_
  rcases rankedStamp_le_iff.mp h with hlt | ⟨heq, -⟩
  · exact hlt.le
  · exact heq.le

theorem eq_first_of_rank_le {key : κ} (h : tieRank first last key ≤ tieRank first last first) :
    key = first := by
  rw [show tieRank first last first = 0 from if_pos rfl] at h
  unfold tieRank at h
  split_ifs at h with hfirst hlast
  · exact hfirst
  · omega
  · omega

theorem eq_last_of_le_rank (hne : first ≠ last) {key : κ}
    (h : tieRank first last last ≤ tieRank first last key) : key = last := by
  have hrank : tieRank first last last = 2 := by
    unfold tieRank
    rw [if_neg hne.symm, if_pos rfl]
  rw [hrank] at h
  unfold tieRank at h
  split_ifs at h with hfirst hlast
  · omega
  · exact hlast
  · omega

/-- What may be parted is parted by some arrangement: the first key is in front,
    and the last one is not. -/
theorem MayPart.parting {n : ℕ} {l : List (κ × α)} {t t' : α} (h : MayPart n l t t')
    (hkeys : (l.map Prod.fst).Nodup) (hne : first ≠ last) (ha : (first, t) ∈ l)
    (hb : (last, t') ∈ l) :
    (first, t) ∈ (Lib.parting first last l).take n ∧
      (last, t') ∈ (Lib.parting first last l).drop n := by
  have hperm := parting_perm first last l
  have hranked := parting_ranked first last l
  have hcounts := h.perm hperm.symm
  have hkeys' : ((Lib.parting first last l).map Prod.fst).Nodup :=
    (hperm.map Prod.fst).nodup_iff.mpr hkeys
  replace ha := hperm.symm.subset ha
  replace hb := hperm.symm.subset hb
  generalize Lib.parting first last l = p at hranked hcounts hkeys' ha hb ⊢
  rw [← List.take_append_drop n p] at hranked hkeys' ha hb
  have hcross := (List.pairwise_append.mp hranked).2.2
  rw [List.map_append, List.nodup_append] at hkeys'
  have hother : ∀ x ∈ p.take n, ∀ y ∈ p.drop n, x.1 ≠ y.1 := fun x hx y hy =>
    hkeys'.2.2 _ (List.mem_map_of_mem hx) _ (List.mem_map_of_mem hy)
  constructor
  · refine (List.mem_append.mp ha).resolve_right fun hback => ?_
    -- everything in front would be older
    have hfront : (p.take n).countP (fun x => x.2 < t) = (p.take n).length := by
      refine List.countP_eq_length.mpr fun x hx => decide_eq_true ?_
      rcases rankedStamp_le_iff.mp (hcross x hx _ hback) with hlt | ⟨-, hrank⟩
      · exact hlt
      · exact absurd (eq_first_of_rank_le hrank) (hother x hx _ hback)
    have holder := hcounts.older
    rw [← countP_take_add_drop n, hfront, length_take_of_mem_drop hback] at holder
    omega
  · refine (List.mem_append.mp hb).resolve_left fun hfront => ?_
    -- everything behind would be later
    have hback : (p.drop n).countP (fun x => x.2 ≤ t') = 0 := by
      refine List.countP_eq_zero.mpr fun x hx => ?_
      rw [decide_eq_true_eq, not_le]
      rcases rankedStamp_le_iff.mp (hcross _ hfront x hx) with hlt | ⟨-, hrank⟩
      · exact hlt
      · exact absurd (eq_last_of_le_rank hne hrank).symm (hother _ hfront x hx)
    have hnoLater := hcounts.noLater
    have hle : (p.take n).countP (fun x => x.2 ≤ t') ≤ n :=
      List.countP_le_length.trans (List.length_take_le n p)
    rw [← countP_take_add_drop n, hback] at hnoLater
    omega

end

/-! ## Removing the oldest entries of a map -/

section
variable {β : Type} [DecidableEq κ] {f : β → Option α} {m : KeyMap κ β} {l p : List (κ × α)}

omit [LinearOrder α] in
/-- The list has the keys of the map whose values have a stamp, once each, with
    these stamps. -/
structure ListsStamps (f : β → Option α) (m : KeyMap κ β) (l : List (κ × α)) : Prop where
  mem_iff : ∀ key t, (key, t) ∈ l ↔ ∃ x, m.lookup key = some x ∧ f x = some t
  nodup : (l.map Prod.fst).Nodup

omit [LinearOrder α] in
theorem ListsStamps.perm (h : ListsStamps f m l) (hperm : p.Perm l) : ListsStamps f m p :=
  ⟨fun key t => hperm.mem_iff.trans (h.mem_iff key t),
    (hperm.map Prod.fst).nodup_iff.mpr h.nodup⟩

omit [LinearOrder α] in
/-- Remove the keys of the first `n` entries of the list. -/
def removeFirst (n : ℕ) (l : List (κ × α)) (m : KeyMap κ β) : KeyMap κ β :=
  m.removeAll ((l.take n).map Prod.fst)

omit [LinearOrder α] in
theorem ListsStamps.gone_iff (h : ListsStamps f m l) {n : ℕ} {key : κ} {x : β} {t : α}
    (hx : m.lookup key = some x) (ht : f x = some t) :
    (removeFirst n l m).lookup key = none ↔ (key, t) ∈ l.take n := by
  rw [removeFirst, KeyMap.lookup_removeAll]
  constructor
  · intro hgone
    split_ifs at hgone with hmem
    · obtain ⟨⟨k, u⟩, hu, rfl⟩ := List.mem_map.mp hmem
      obtain ⟨y, hy, hstamp⟩ := (h.mem_iff k u).mp (List.mem_of_mem_take hu)
      obtain rfl := Option.some.inj (hy.symm.trans hx)
      obtain rfl := Option.some.inj (hstamp.symm.trans ht)
      exact hu
    · rw [hx] at hgone
      cases hgone
  · intro hmem
    rw [if_pos (List.mem_map_of_mem hmem)]

omit [LinearOrder α] in
theorem ListsStamps.kept_iff (h : ListsStamps f m l) {n : ℕ} {key : κ} {x : β} {t : α}
    (ht : f x = some t) :
    (removeFirst n l m).lookup key = some x ↔ m.lookup key = some x ∧ (key, t) ∈ l.drop n := by
  have hnodup := h.nodup
  rw [← List.take_append_drop n l, List.map_append, List.nodup_append] at hnodup
  rw [removeFirst, KeyMap.lookup_removeAll]
  constructor
  · intro hkept
    split_ifs at hkept with hmem
    refine ⟨hkept, ?_⟩
    have hlisted := (h.mem_iff key t).mpr ⟨x, hkept, ht⟩
    rw [← List.take_append_drop n l] at hlisted
    exact (List.mem_append.mp hlisted).resolve_left fun hfront => hmem (List.mem_map_of_mem hfront)
  · rintro ⟨hx, hmem⟩
    rw [if_neg fun hfront => hnodup.2.2 _ hfront _ (List.mem_map_of_mem hmem) rfl]
    exact hx

/-- **Which keys a removal may part.**  `wrong` says which entry may not go while
    which other stays, and `arrange` gives the arrangements that are possible,
    all there are where it matters. -/
theorem ListsStamps.parts_iff (h : ListsStamps f m l) (wrong : κ → β → κ → β → Prop)
    (hwrong : ∀ key x, ¬ wrong key x key x) {ι : Type} {n : ℕ} {arrange : ι → List (κ × α)}
    (hperm : ∀ i, (arrange i).Perm l) (holdest : ∀ i, OldestFirst n (arrange i))
    (hall : 0 < n → n < l.length → ∀ first last, ∃ i, arrange i = Lib.parting first last l)
    (hstamped : ∀ key x, m.lookup key = some x → ∃ t, f x = some t) :
    (∀ i key x key' x', m.lookup key = some x → (removeFirst n (arrange i) m).lookup key = none →
        (removeFirst n (arrange i) m).lookup key' = some x' → ¬ wrong key x key' x') ↔
      ∀ key x t key' x' t', m.lookup key = some x → f x = some t → m.lookup key' = some x' →
        f x' = some t' → wrong key x key' x' → ¬ MayPart n l t t' := by
  constructor
  · intro hspared key x t key' x' t' hx ht hx' ht' hkeys hpart
    have hne : key ≠ key' := by
      rintro rfl
      obtain rfl := Option.some.inj (hx.symm.trans hx')
      exact hwrong key x hkeys
    have hlength : n < l.length := hpart.noLater.trans_le List.countP_le_length
    obtain ⟨i, hi⟩ := hall (Nat.zero_lt_of_lt hpart.older) hlength key key'
    obtain ⟨hfront, hback⟩ := hpart.parting h.nodup hne ((h.mem_iff key t).mpr ⟨x, hx, ht⟩)
      ((h.mem_iff key' t').mpr ⟨x', hx', ht'⟩)
    rw [← hi] at hfront hback
    have hlists := h.perm (hperm i)
    exact hspared i key x key' x' hx ((hlists.gone_iff hx ht).mpr hfront)
      ((hlists.kept_iff ht').mpr ⟨hx', hback⟩) hkeys
  · intro hclear i key x key' x' hx hgone hkept hkeys
    have hlists := h.perm (hperm i)
    obtain ⟨t, ht⟩ := hstamped key x hx
    have hfront := (hlists.gone_iff hx ht).mp hgone
    have hx' : m.lookup key' = some x' := by
      rw [removeFirst, KeyMap.lookup_removeAll] at hkept
      split_ifs at hkept
      exact hkept
    obtain ⟨t', ht'⟩ := hstamped key' x' hx'
    have hback := ((hlists.kept_iff ht').mp hkept).2
    exact hclear key x t key' x' t' hx ht hx' ht' hkeys
      (((holdest i).mayPart hfront hback).perm (hperm i))

end

end Lib
