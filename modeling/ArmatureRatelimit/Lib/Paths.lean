/-
  Paths as lists of segments: a rooted path is the text in which a separator
  stands before each of its segments.

  Splitting a rooted path gives its segments back (`splitOn_rooted`), and what
  stands before a separator in a rooted path is rooted itself
  (`rooted_of_append`).

  Resolving a list of segments leaves some of them out and takes others as steps
  back.  Two lists resolve to the same one exactly when they can be edited into
  each other without moving from where they lead (`resolve_eq_iff`).
-/
import Mathlib

namespace Lib.Paths

variable {α : Type} [DecidableEq α] {sep : α}

/-- A separator before each segment. -/
def rooted (sep : α) (segments : List (List α)) : List α := segments.flatMap fun s => sep :: s

omit [DecidableEq α] in
@[simp] theorem rooted_nil : rooted sep [] = [] := rfl

omit [DecidableEq α] in
@[simp] theorem rooted_cons (s : List α) (segments : List (List α)) :
    rooted sep (s :: segments) = sep :: (s ++ rooted sep segments) := rfl

omit [DecidableEq α] in
theorem rooted_append (xs ys : List (List α)) :
    rooted sep (xs ++ ys) = rooted sep xs ++ rooted sep ys := List.flatMap_append

omit [DecidableEq α] in
/-- The segments joined by the separator, after one more. -/
theorem cons_intercalate {segments : List (List α)} (h : segments ≠ []) :
    sep :: [sep].intercalate segments = rooted sep segments := by
  induction segments with
  | nil => exact absurd rfl h
  | cons s rest ih =>
    cases rest with
    | nil => simp
    | cons s' rest =>
      rw [rooted_cons, ← ih (List.cons_ne_nil _ _)]
      simp [List.intercalate]

theorem splitOn_rooted {segments : List (List α)} (h : ∀ s ∈ segments, sep ∉ s) :
    (rooted sep segments).splitOn sep = [] :: segments := by
  induction segments with
  | nil => rfl
  | cons s rest ih =>
    have hrest := ih fun s' hs' => h s' (by simp [hs'])
    have hs : sep ∉ s := h s (by simp)
    rw [rooted_cons, List.splitOn_cons_eq_if_modifyHead, if_pos (by simp)]
    congr 1
    cases rest with
    | nil => simpa using List.splitOn_eq_singleton hs
    | cons s' rest =>
      rw [rooted_cons, List.splitOn_append_cons_self_of_not_mem hs]
      rw [rooted_cons, List.splitOn_cons_eq_if_modifyHead, if_pos (by simp)] at hrest
      rw [(List.cons.inj hrest).2]

theorem not_mem_of_mem_splitOn {xs s : List α} (h : s ∈ xs.splitOn sep) : sep ∉ s := by
  induction xs generalizing s with
  | nil =>
    obtain rfl : s = [] := by simpa using h
    exact List.not_mem_nil
  | cons x xs ih =>
    rw [List.splitOn_cons_eq_if_modifyHead] at h
    split_ifs at h with hx
    · rcases List.mem_cons.mp h with rfl | h
      · exact List.not_mem_nil
      · exact ih h
    · cases hsplit : xs.splitOn sep with
      | nil => exact absurd hsplit (List.splitOn_ne_nil _ _)
      | cons t ts =>
        rw [hsplit, List.modifyHead_cons] at h
        rcases List.mem_cons.mp h with rfl | h
        · have hx' : sep ≠ x := by
            rintro rfl
            exact hx (by simp)
          have ht : sep ∉ t := ih (by rw [hsplit]; simp)
          simp [hx', ht]
        · exact ih (by rw [hsplit]; simp [h])

theorem mem_of_mem_splitOn {xs s : List α} {c : α} (h : s ∈ xs.splitOn sep) (hc : c ∈ s) :
    c ∈ xs := by
  have hxs : List.intercalate [sep] (xs.splitOn sep) = xs := List.intercalate_splitOn sep
  rw [← hxs, List.intercalate, List.mem_flatten]
  refine ⟨s, ?_, hc⟩
  generalize xs.splitOn sep = ts at h
  induction ts with
  | nil => cases h
  | cons t ts ih =>
    cases ts with
    | nil => simpa using h
    | cons t' ts =>
      rcases List.mem_cons.mp h with rfl | h
      · simp
      · have := ih h
        simp only [List.intersperse_cons_cons, List.mem_cons] at this ⊢
        tauto

omit [DecidableEq α] in
/-- What stands before a separator of a rooted path is rooted itself. -/
theorem rooted_of_append {segments : List (List α)} (h : ∀ s ∈ segments, sep ∉ s)
    {t rest : List α} (heq : t ++ sep :: rest = rooted sep segments) :
    ∃ k, t = rooted sep (segments.take k) := by
  induction segments generalizing t with
  | nil => simp at heq
  | cons s segments ih =>
    cases t with
    | nil => exact ⟨0, rfl⟩
    | cons c t =>
      rw [rooted_cons, List.cons_append] at heq
      obtain ⟨rfl, htail⟩ := List.cons.inj heq
      -- the separator comes after the first segment
      rcases List.append_eq_append_iff.mp htail with ⟨as, hs, hrest⟩ | ⟨bs, rfl, hrest⟩
      · cases as with
        | nil =>
          rw [List.append_nil] at hs
          exact ⟨1, by simp [hs]⟩
        | cons a as =>
          obtain ⟨rfl, -⟩ := List.cons.inj hrest
          exact absurd (by simp [hs]) (h s (by simp))
      · obtain ⟨k, rfl⟩ := ih (fun s' hs' => h s' (by simp [hs'])) hrest.symm
        exact ⟨k + 1, by simp⟩

/-! ## Resolving -/

section Resolve

variable {β : Type} {skip back good : β → Prop} [DecidablePred skip] [DecidablePred back]

/-- One segment: it says nothing, it leads back, or it leads on. -/
def push (skip back : β → Prop) [DecidablePred skip] [DecidablePred back] (stack : List β)
    (x : β) : List β :=
  if skip x then stack else if back x then stack.dropLast else stack ++ [x]

/-- Where a list of segments leads. -/
def resolve (skip back : β → Prop) [DecidablePred skip] [DecidablePred back] (xs : List β) :
    List β := xs.foldl (push skip back) []

/-- Leaving out a segment that says nothing, a good one with the step back that
    follows it, or a step back at the root. -/
inductive Edit (skip back good : β → Prop) : List β → List β → Prop
  | skip (xs ys : List β) {x : β} (hx : skip x) : Edit skip back good (xs ++ x :: ys) (xs ++ ys)
  | pop (xs ys : List β) {x b : β} (hx : good x) (hb : back b) :
    Edit skip back good (xs ++ x :: b :: ys) (xs ++ ys)
  | root (ys : List β) {b : β} (hb : back b) : Edit skip back good (b :: ys) ys

theorem resolve_concat (xs : List β) (x : β) :
    resolve skip back (xs ++ [x]) = push skip back (resolve skip back xs) x := by
  rw [resolve, List.foldl_append]
  rfl

theorem Edit.resolve_eq (hback : ∀ b, back b → ¬ skip b) (hgood : ∀ x, good x → ¬ skip x ∧ ¬ back x)
    {xs ys : List β} (h : Edit skip back good xs ys) :
    resolve skip back xs = resolve skip back ys := by
  unfold resolve
  cases h with
  | skip xs ys hx => rw [List.foldl_append, List.foldl_append, List.foldl_cons, push, if_pos hx]
  | pop xs ys hx hb =>
    rw [List.foldl_append, List.foldl_append, List.foldl_cons, List.foldl_cons, push, push,
      if_neg (hgood _ hx).1, if_neg (hgood _ hx).2, if_neg (hback _ hb), if_pos hb,
      List.dropLast_concat]
  | root ys hb => rw [List.foldl_cons, push, if_neg (hback _ hb), if_pos hb, List.dropLast_nil]

omit [DecidablePred skip] [DecidablePred back] in
theorem Edit.append {xs ys : List β} (h : Edit skip back good xs ys) (zs : List β) :
    Edit skip back good (xs ++ zs) (ys ++ zs) := by
  cases h with
  | skip xs ys hx => simpa using Edit.skip xs (ys ++ zs) hx
  | pop xs ys hx hb => simpa using Edit.pop xs (ys ++ zs) hx hb
  | root ys hb => exact Edit.root (ys ++ zs) hb

omit [DecidablePred skip] [DecidablePred back] in
theorem eqvGen_append {xs ys : List β} (h : Relation.EqvGen (Edit skip back good) xs ys)
    (zs : List β) : Relation.EqvGen (Edit skip back good) (xs ++ zs) (ys ++ zs) := by
  induction h with
  | rel xs ys h => exact .rel _ _ (h.append zs)
  | refl xs => exact .refl _
  | symm xs ys _ ih => exact .symm _ _ ih
  | trans xs ys ws _ _ ih₁ ih₂ => exact .trans _ _ _ ih₁ ih₂

theorem resolve_good {xs : List β} (h : ∀ x ∈ xs, skip x ∨ back x ∨ good x) :
    ∀ x ∈ resolve skip back xs, good x := by
  induction xs using List.reverseRecOn with
  | nil => exact fun x hx => absurd hx List.not_mem_nil
  | append_singleton xs x ih =>
    have ih := ih fun y hy => h y (by simp [hy])
    rw [resolve_concat, push]
    split_ifs with hskip hback
    · exact ih
    · exact fun y hy => ih y (List.dropLast_subset _ hy)
    · intro y hy
      rcases List.mem_append.mp hy with hy | hy
      · exact ih y hy
      · obtain rfl := List.mem_singleton.mp hy
        exact ((h y (by simp)).resolve_left hskip).resolve_left hback

/-- The edits lead to the resolved list. -/
theorem eqvGen_resolve {xs : List β} (h : ∀ x ∈ xs, skip x ∨ back x ∨ good x) :
    Relation.EqvGen (Edit skip back good) xs (resolve skip back xs) := by
  induction xs using List.reverseRecOn with
  | nil => exact .refl _
  | append_singleton xs x ih =>
    have hxs : ∀ y ∈ xs, skip y ∨ back y ∨ good y := fun y hy => h y (by simp [hy])
    refine .trans _ _ _ (eqvGen_append (ih hxs) [x]) ?_
    rw [resolve_concat, push]
    split_ifs with hskip hback
    · simpa using Relation.EqvGen.rel _ _
        (@Edit.skip _ skip back good (resolve skip back xs) [] x hskip)
    · rcases List.eq_nil_or_concat (resolve skip back xs) with hnil | ⟨ys, y, hlast⟩
      · rw [hnil]
        exact .rel _ _ (.root [] hback)
      · have hy : good y := resolve_good hxs y (by rw [hlast]; simp)
        rw [hlast, List.concat_eq_append, List.dropLast_concat, List.append_assoc]
        simpa using Relation.EqvGen.rel _ _ (@Edit.pop _ skip back good ys [] y x hy hback)
    · exact .refl _

/-- **When two lists of segments lead to one place.** -/
theorem resolve_eq_iff (hback : ∀ b, back b → ¬ skip b)
    (hgood : ∀ x, good x → ¬ skip x ∧ ¬ back x) {xs ys : List β}
    (hxs : ∀ x ∈ xs, skip x ∨ back x ∨ good x) (hys : ∀ y ∈ ys, skip y ∨ back y ∨ good y) :
    resolve skip back xs = resolve skip back ys ↔
      Relation.EqvGen (Edit skip back good) xs ys := by
  constructor
  · intro h
    exact .trans _ _ _ (h ▸ eqvGen_resolve hxs) (.symm _ _ (eqvGen_resolve hys))
  · intro h
    clear hxs hys
    induction h with
    | rel xs ys h => exact h.resolve_eq hback hgood
    | refl xs => rfl
    | symm xs ys _ ih => exact ih.symm
    | trans xs ys zs _ _ ih₁ ih₂ => exact ih₁.trans ih₂

end Resolve

end Lib.Paths
