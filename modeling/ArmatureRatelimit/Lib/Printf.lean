/-
  Whole numbers as C's `%.pg` prints them.

  A number of at most `p` digits is printed as its decimal (`general_of_lt`).  A
  longer one is rounded to its first `p` digits and printed in scientific
  notation, without the zeros at the end of its digits, so different numbers can
  have one text.  Up to the first number that is too long a text that ends with a
  number tells it (`numbered_general_inj`).
-/
import ArmatureRatelimit.Lib.Texts

namespace Lib.Printf

/-! ## Notations -/

/-- The nearest whole number to a quotient, ties to even. -/
def roundedDiv (n d : ℕ) : ℕ :=
  if 2 * (n % d) < d then n / d
  else if d < 2 * (n % d) then n / d + 1
  else n / d + n / d % 2

/-- The first `p` digits of a number, rounded, and its exponent of ten. -/
def significand (p n : ℕ) : ℕ × ℕ :=
  let exponent := (Nat.toDigits 10 n).length - 1
  let digits := roundedDiv n (10 ^ (exponent + 1 - p))
  -- rounding up to the next power of ten
  if digits = 10 ^ p then (10 ^ (p - 1), exponent + 1) else (digits, exponent)

/-- Digits with a point after the first one, if there are more. -/
def pointed : List Char → List Char
  | c :: d :: ds => c :: '.' :: d :: ds
  | ds => ds

/-- `%e` without the zeros at the end of the digits. -/
def scientific (p n : ℕ) : String :=
  let (digits, exponent) := significand p n
  String.ofList (pointed ((Nat.toDigits 10 digits).rdropWhile fun c => c == '0')) ++ "e+" ++
    (if exponent < 10 then "0" else "") ++ Nat.repr exponent

/-- `%.pg`. -/
def general (p : ℕ) (n : ℤ) : String :=
  let text := if n.natAbs < 10 ^ p then Nat.repr n.natAbs else scientific p n.natAbs
  if n < 0 then "-" ++ text else text

/-! ## Texts -/

theorem general_of_lt {p n : ℕ} (h : n < 10 ^ p) : general p (n : ℤ) = Nat.repr n := by
  simp only [general, Int.natAbs_natCast, h, if_true, not_lt.mpr (Int.natCast_nonneg n), if_false]

theorem general_of_le {p n : ℕ} (h : 10 ^ p ≤ n) : general p (n : ℤ) = scientific p n := by
  simp only [general, Int.natAbs_natCast, not_lt.mpr h, not_lt.mpr (Int.natCast_nonneg n), if_false]

theorem mem_pointed {c : Char} {ds : List Char} (h : c ∈ pointed ds) : c ∈ ds ∨ c = '.' := by
  unfold pointed at h
  split at h
  · simp only [List.mem_cons] at h ⊢
    tauto
  · exact .inl h

/-- What a scientific notation is made of. -/
theorem mem_scientific {c : Char} {p n : ℕ} (h : c ∈ (scientific p n).toList) :
    c.isDigit = true ∨ c ∈ ['.', 'e', '+'] := by
  simp only [scientific, String.toList_append, String.toList_ofList, List.mem_append] at h
  rcases h with ((hdigits | hmark) | hzero) | hexponent
  · rcases mem_pointed hdigits with hdigit | rfl
    · exact .inl (Nat.isDigit_of_mem_toDigits (by decide) le_rfl
        ((List.rdropWhile_prefix _ _).subset hdigit))
    · simp
  · refine .inr ?_
    simp only [String.reduceToList, List.mem_cons, List.not_mem_nil, or_false] at hmark ⊢
    tauto
  · split_ifs at hzero
    · obtain rfl : c = '0' := by simpa using hzero
      exact .inl rfl
    · cases hzero
  · exact .inl (Texts.isDigit_of_mem_repr hexponent)

theorem e_mem_scientific (p n : ℕ) : 'e' ∈ (scientific p n).toList := by
  simp only [scientific, String.toList_append, List.mem_append]
  exact .inl (.inl (.inr (by decide)))

/-- A text that ends with a number, up to the first one that is too long. -/
theorem numbered_general_inj {sep : Char} (hdigit : sep.isDigit = false)
    (hsep : sep ∉ ['.', 'e', '+']) {xs ys : List Char} {p m n : ℕ} (hm : m < 10 ^ p)
    (hn : n ≤ 10 ^ p) (h : xs ++ sep :: (general p (m : ℤ)).toList =
      ys ++ sep :: (general p (n : ℤ)).toList) : m = n := by
  rw [general_of_lt hm] at h
  rcases hn.lt_or_eq with hlt | rfl
  · rw [general_of_lt hlt] at h
    exact (Texts.numbered_inj hdigit h).2
  · rw [general_of_le le_rfl] at h
    have hfree : sep ∉ (scientific p (10 ^ p)).toList := by
      intro hmem
      rcases mem_scientific hmem with htrue | hmark
      · rw [hdigit] at htrue
        cases htrue
      · exact hsep hmark
    have htext := (Texts.append_sep_inj (Texts.not_mem_repr hdigit m) hfree h).2
    have hmem : 'e' ∈ (Nat.repr m).toList := by
      rw [htext]
      exact e_mem_scientific p (10 ^ p)
    exact absurd (Texts.isDigit_of_mem_repr hmem) (by decide)

/-- The next one is printed as the first one. -/
example : general 3 1000 = general 3 1001 := by decide +kernel

end Lib.Printf
