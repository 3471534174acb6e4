/-
  The whole numbers of the scripts, which Lua carries as doubles.

  A number is exact below `2 ^ 53` (`luaInt_eq`), and rounding keeps the order of
  numbers beyond that (`luaInt_mono`).  So a count that is rounded below a limit is
  below it (`lt_of_luaInt_lt`), and a time to live loses a second at most
  (`slidingTtl_ge`).
-/
import ArmatureRatelimit.Stores.Redis

open Lib Lib.Redis

namespace ArmatureRatelimit

namespace RedisStore

/-! ## Exact numbers -/

theorem luaInt_eq {n : ℤ} (h : n.natAbs < 2 ^ 53) : luaInt n = n := by
  have hlog : Nat.log2 n.natAbs - 52 = 0 := by
    rcases Nat.eq_zero_or_pos n.natAbs with hzero | hpos
    · rw [hzero]; rfl
    · have := (Nat.log2_lt hpos.ne').mpr h
      omega
  unfold luaInt
  simp only [hlog, pow_zero, div_one, mul_one]
  exact F64.roundEven_intCast n

/-- Beyond `2 ^ 53` a count is rounded to a double, but not to a smaller one. -/
theorem le_luaInt {n : ℤ} (h : 2 ^ 53 ≤ n) : 2 ^ 53 ≤ luaInt n := by
  have hpos : n.natAbs ≠ 0 := by omega
  have hlog : 53 ≤ Nat.log2 n.natAbs := (Nat.le_log2 hpos).mpr (by omega)
  have hle : (2 : ℕ) ^ Nat.log2 n.natAbs ≤ n.natAbs := Nat.log2_self_le hpos
  obtain ⟨e, he⟩ : ∃ e, Nat.log2 n.natAbs = e + 1 + 52 := ⟨Nat.log2 n.natAbs - 53, by omega⟩
  have hn : (2 : ℤ) ^ 52 * 2 ^ (e + 1) ≤ n := by
    rw [← pow_add, add_comm 52, ← he]
    calc (2 : ℤ) ^ Nat.log2 n.natAbs ≤ (n.natAbs : ℤ) := by exact_mod_cast hle
      _ = n := Int.natAbs_of_nonneg (by omega)
  have hround : (2 : ℤ) ^ 52 ≤ F64.roundEven ((n : ℚ) / 2 ^ (e + 1)) := by
    refine F64.le_roundEven ?_
    rw [le_div_iff₀ (by positivity)]
    exact_mod_cast hn
  have hexp : Nat.log2 n.natAbs - 52 = e + 1 := by omega
  unfold luaInt
  simp only [hexp]
  calc (2 : ℤ) ^ 53 = 2 ^ 52 * 2 ^ 1 := by norm_num
    _ ≤ F64.roundEven ((n : ℚ) / 2 ^ (e + 1)) * 2 ^ (e + 1) :=
      mul_le_mul hround (pow_le_pow_right₀ (by norm_num) (by omega)) (by positivity)
        ((by positivity : (0 : ℤ) ≤ 2 ^ 52).trans hround)

/-- The count of a counter stays in the range of a reply. -/
theorem luaInt_le {n : ℤ} (h : 2 ^ 53 ≤ n) (hn : n ≤ int64Max) : luaInt n ≤ 2 ^ 63 := by
  have hpos : n.natAbs ≠ 0 := by omega
  have hmax : n < 2 ^ 63 := by
    simp only [int64Max] at hn
    omega
  have hlog : Nat.log2 n.natAbs < 63 := (Nat.log2_lt hpos).mpr (by omega)
  obtain ⟨d, hd⟩ : ∃ d, 63 = d + (Nat.log2 n.natAbs - 52) :=
    ⟨63 - (Nat.log2 n.natAbs - 52), by omega⟩
  unfold luaInt
  generalize Nat.log2 n.natAbs - 52 = e at hd ⊢
  have hround : F64.roundEven ((n : ℚ) / 2 ^ e) ≤ 2 ^ d := by
    refine F64.roundEven_le ?_
    rw [div_le_iff₀ (by positivity)]
    push_cast
    rw [← pow_add, ← hd]
    exact_mod_cast hmax.le
  calc F64.roundEven ((n : ℚ) / 2 ^ e) * 2 ^ e ≤ 2 ^ d * 2 ^ e :=
      mul_le_mul_of_nonneg_right hround (by positivity)
    _ = 2 ^ 63 := by rw [← pow_add, ← hd]

/-! ## Order -/

theorem luaInt_neg (n : ℤ) : luaInt (-n) = -luaInt n := by
  unfold luaInt
  simp only [Int.natAbs_neg, Int.cast_neg, neg_div, F64.roundEven_neg, neg_mul]

theorem luaInt_mono_of_nonneg {m n : ℤ} (hm : 0 ≤ m) (h : m ≤ n) : luaInt m ≤ luaInt n := by
  rcases hm.eq_or_lt with rfl | hpos
  · rw [luaInt_eq (by decide)]
    exact mul_nonneg (F64.le_roundEven (by positivity)) (by positivity)
  have hm' : m.natAbs ≠ 0 := by omega
  have hn' : n.natAbs ≠ 0 := by omega
  have hlog : Nat.log2 m.natAbs ≤ Nat.log2 n.natAbs :=
    (Nat.le_log2 hn').mpr ((Nat.log2_self_le hm').trans (by omega))
  unfold luaInt
  simp only
  generalize ha : Nat.log2 m.natAbs - 52 = a
  generalize hb : Nat.log2 n.natAbs - 52 = b
  rcases (by omega : a = b ∨ a + 1 ≤ b ∧ Nat.log2 n.natAbs = b + 52) with rfl | ⟨hab, hnlog⟩
  · refine mul_le_mul_of_nonneg_right (F64.roundEven_mono ?_) (by positivity)
    have hq : (m : ℚ) ≤ n := by exact_mod_cast h
    gcongr
  · -- a power of two lies between the two numbers, and it is a double
    have hmlt : m ≤ 2 ^ 53 * 2 ^ a := by
      have hlt := (Nat.log2_lt hm').mp (Nat.lt_succ_self (Nat.log2 m.natAbs))
      have hpow : (2 : ℕ) ^ (Nat.log2 m.natAbs + 1) ≤ 2 ^ (53 + a) :=
        Nat.pow_le_pow_right (by decide) (by omega)
      rw [← pow_add]
      exact_mod_cast (by omega : m ≤ ((2 ^ (53 + a) : ℕ) : ℤ))
    have hnle : 2 ^ 52 * 2 ^ b ≤ n := by
      have hle := Nat.log2_self_le hn'
      rw [← pow_add, add_comm, ← hnlog]
      exact_mod_cast (by omega : ((2 ^ Nat.log2 n.natAbs : ℕ) : ℤ) ≤ n)
    calc F64.roundEven ((m : ℚ) / 2 ^ a) * 2 ^ a ≤ 2 ^ 53 * 2 ^ a := by
          refine mul_le_mul_of_nonneg_right (F64.roundEven_le ?_) (by positivity)
          rw [div_le_iff₀ (by positivity)]
          exact_mod_cast hmlt
      _ = 2 ^ 52 * 2 ^ (a + 1) := by ring
      _ ≤ 2 ^ 52 * 2 ^ b := by gcongr; norm_num
      _ ≤ F64.roundEven ((n : ℚ) / 2 ^ b) * 2 ^ b := by
          refine mul_le_mul_of_nonneg_right (F64.le_roundEven ?_) (by positivity)
          rw [le_div_iff₀ (by positivity)]
          exact_mod_cast hnle

theorem luaInt_mono : Monotone luaInt := by
  intro m n h
  rcases le_total 0 m with hm | hm
  · exact luaInt_mono_of_nonneg hm h
  · rcases le_total 0 n with hn | hn
    · have hleft := luaInt_mono_of_nonneg le_rfl (neg_nonneg.mpr hm)
      have hright := luaInt_mono_of_nonneg le_rfl hn
      rw [luaInt_neg] at hleft
      rw [luaInt_eq (by decide)] at hleft hright
      omega
    · have hneg := luaInt_mono_of_nonneg (neg_nonneg.mpr hn) (neg_le_neg h)
      rw [luaInt_neg, luaInt_neg] at hneg
      omega

/-- Rounding does not bring two numbers past each other. -/
theorem lt_of_luaInt_lt {m n : ℤ} (h : luaInt m < luaInt n) : m < n :=
  luaInt_mono.reflect_lt h

/-- What is below an exact number stays below it. -/
theorem luaInt_lt {n : ℤ} {s : ℕ} (hs : s < 2 ^ 53) (h : n < s) : luaInt n < s := by
  have hle := luaInt_mono (by omega : n ≤ (s : ℤ) - 1)
  rw [luaInt_eq (n := (s : ℤ) - 1) (by omega)] at hle
  omega

/-- Only an exact number is rounded to itself, up to the end of the range. -/
theorem eq_of_luaInt_eq {n : ℤ} {s : ℕ} (hn : n < 2 ^ 53) (hs : s < 2 ^ 53)
    (h : luaInt n = luaInt s) : n = s := by
  rw [luaInt_eq (n := (s : ℤ)) hs] at h
  rcases lt_trichotomy n s with hlt | heq | hgt
  · exact absurd h (luaInt_lt hs hlt).ne
  · exact heq
  · rwa [luaInt_eq (by omega)] at h

theorem luaInt_nonneg {n : ℤ} (h : 0 ≤ n) : 0 ≤ luaInt n := by
  have hmono := luaInt_mono h
  rwa [luaInt_eq (n := 0) (by decide)] at hmono

theorem luaInt_natCast_nonneg (n : ℕ) : 0 ≤ luaInt n := luaInt_nonneg (Int.natCast_nonneg n)

/-! ## Times to live -/

section
variable {secs : ℤ}

theorem slidingTtl_eq (h : secs.natAbs + 10 < 2 ^ 53) : slidingTtl secs = secs + 10 := by
  rw [slidingTtl, luaInt_eq (n := secs) (by omega), luaInt_eq (by omega)]

theorem slidingTtl_large (h : 2 ^ 53 ≤ secs + 10) : 2 ^ 53 ≤ slidingTtl secs := by
  have hsecs := luaInt_mono (by omega : (2 : ℤ) ^ 53 - 10 ≤ secs)
  rw [luaInt_eq (n := 2 ^ 53 - 10) (by decide)] at hsecs
  exact le_luaInt (by omega)

theorem slidingTtl_pos (h : 0 ≤ secs) : 0 < slidingTtl secs := by
  have hsecs := luaInt_mono h
  rw [luaInt_eq (n := 0) (by decide)] at hsecs
  have httl := luaInt_mono (by omega : (10 : ℤ) ≤ luaInt secs + 10)
  rw [luaInt_eq (n := 10) (by decide)] at httl
  unfold slidingTtl
  omega

/-- Up to `2 ^ 54` the even numbers are doubles. -/
theorem luaInt_even {k : ℤ} (hlo : 2 ^ 52 ≤ k) (hhi : k < 2 ^ 53) : luaInt (2 * k) = 2 * k := by
  have hlog : Nat.log2 (2 * k).natAbs = 53 := by
    have hlt := (Nat.log2_lt (n := (2 * k).natAbs) (k := 54) (by omega)).mpr (by omega)
    have hle := (Nat.le_log2 (n := (2 * k).natAbs) (k := 53) (by omega)).mpr (by omega)
    omega
  have hhalf : ((2 * k : ℤ) : ℚ) / 2 ^ (53 - 52) = (k : ℤ) := by
    push_cast
    ring
  unfold luaInt
  simp only [hlog]
  rw [hhalf, F64.roundEven_intCast]
  ring

/-- Below `2 ^ 54` a double is at most one less than the number. -/
theorem luaInt_below {n : ℤ} (h : 2 ^ 53 ≤ n) (hn : n < 2 ^ 54) :
    ∃ k, luaInt n = 2 * k ∧ n ≤ luaInt n + 1 := by
  have hlow := luaInt_mono (by omega : 2 * (n / 2) ≤ n)
  rw [luaInt_even (by omega) (by omega)] at hlow
  have hlog : Nat.log2 n.natAbs = 53 := by
    have hlt := (Nat.log2_lt (n := n.natAbs) (k := 54) (by omega)).mpr (by omega)
    have hle := (Nat.le_log2 (n := n.natAbs) (k := 53) (by omega)).mpr (by omega)
    omega
  refine ⟨F64.roundEven ((n : ℚ) / 2 ^ (53 - 52)), ?_, by omega⟩
  unfold luaInt
  simp only [hlog]
  ring

/-- A time to live that a server may accept is at most a second short. -/
theorem slidingTtl_ge (h : 0 ≤ secs) (httl : slidingTtl secs < 2 ^ 54) :
    secs + 9 ≤ slidingTtl secs := by
  have hpow : luaInt (2 ^ 54) = 2 ^ 54 := by decide +kernel
  by_cases hsmall : secs + 10 < 2 ^ 53
  · rw [slidingTtl_eq (by omega)]
    omega
  by_cases hexact : secs < 2 ^ 53
  · -- the sum alone is rounded
    rw [slidingTtl, luaInt_eq (n := secs) (by omega)] at httl ⊢
    obtain ⟨k, -, hle⟩ := luaInt_below (n := secs + 10) (by omega) (by omega)
    omega
  · -- the window is rounded to an even number, and the sum is one too
    have hfit : luaInt secs + 10 < 2 ^ 54 := by
      by_contra hge
      have hle := luaInt_mono (not_lt.mp hge)
      rw [hpow] at hle
      unfold slidingTtl at httl
      omega
    have hsecs : secs < 2 ^ 54 := by
      by_contra hge
      have hle := luaInt_mono (not_lt.mp hge)
      omega
    obtain ⟨k, hk, hle⟩ := luaInt_below (n := secs) (by omega) hsecs
    have hsum := luaInt_even (k := k + 5) (by omega) (by omega)
    rw [slidingTtl, hk, show 2 * k + 10 = 2 * (k + 5) by ring, hsum]
    omega

end

end RedisStore

end ArmatureRatelimit
