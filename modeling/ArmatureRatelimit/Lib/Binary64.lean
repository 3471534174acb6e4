/-
  Bounds on `binary64` arithmetic, over the logical model of `Float`.

  A float that is unpacked has its mantissa and exponent in the ranges of the
  format (`Canonical`), so that floats compare with a power of two by their
  exponents.  `recip_lt_binade`: the rounded quotient `1 / x` is below a power
  of two exactly when `x` is above its inverse.
-/
import Mathlib

open Float.Model Float.Model.UnpackedFloat

namespace Lib.Binary64

/-! ## Fields -/

theorem toNat_implicit (mantissa : BitVec 52) :
    (1#1 ++ mantissa).toNat = 2 ^ 52 + mantissa.toNat := by
  rw [BitVec.toNat_append, ← Nat.shiftLeft_add_eq_or_of_lt mantissa.isLt]
  simp [Nat.shiftLeft_eq]

/-- What the fields of a packed float denote. -/
def ofFields (s : Sign) (exponent : BitVec 11) (mantissa : BitVec 52) : UnpackedFloat :=
  if exponent = -1#_ then
    if mantissa = 0#_ then .infinity s else .notANumber
  else if exponent = 0#_ then
    if h : mantissa = 0#_ then .zero s
    else .finite s mantissa.toNat ((exponent.toNat : ℤ) - 1075 + 1)
      (by simpa [BitVec.toNat_pos, BitVec.pos_iff_ne_zero] using h)
  else .finite s (1#1 ++ mantissa).toNat (exponent.toNat - 1075) (by rw [toNat_implicit]; omega)

theorem unpack_eq (b : BitVec Format.binary64.numBits) :
    UnpackedFloat.unpack Format.binary64 b =
      ofFields (Sign.ofBitVec (unpackSign b)) (unpackExponent b) (unpackMantissa b) := rfl

theorem unpackSign_packComponents (s : Sign) (exponent : BitVec 11) (mantissa : BitVec 52) :
    unpackSign (packComponents Format.binary64 s exponent mantissa) = s.toBitVec := by
  ext i hi
  obtain rfl : i = 0 := by omega
  simp only [unpackSign, packComponents, BitVec.extractLsb, BitVec.getElem_cast,
    BitVec.getElem_extractLsb']
  show ((s.toBitVec ++ exponent) ++ mantissa).getLsbD 63 = _
  rw [BitVec.getLsbD_append, BitVec.getLsbD_append, if_neg (by decide), if_neg (by decide)]
  exact BitVec.getLsbD_eq_getElem hi

theorem unpack_packComponents (s : Sign) (exponent : BitVec 11) (mantissa : BitVec 52) :
    UnpackedFloat.unpack Format.binary64 (packComponents Format.binary64 s exponent mantissa) =
      ofFields s exponent mantissa := by
  rw [unpack_eq, unpackSign_packComponents, unpackExponent_packComponents,
    unpackMantissa_packComponents]
  cases s <;> rfl

/-! ## Canonical floats -/

/-- The ranges of the mantissa and the exponent of a finite float. -/
def Canonical : UnpackedFloat → Prop
  | .finite _ m e _ => m < 2 ^ 53 ∧ -1074 ≤ e ∧ e ≤ 971 ∧ (2 ^ 52 ≤ m ∨ e = -1074)
  | _ => True

theorem unpack_canonical (b : BitVec Format.binary64.numBits) :
    Canonical (UnpackedFloat.unpack Format.binary64 b) := by
  rw [unpack_eq]
  generalize unpackExponent b = exponent, unpackMantissa b = mantissa
  have hm : mantissa.toNat < 2 ^ 52 := mantissa.isLt
  have he : exponent.toNat < 2 ^ 11 := exponent.isLt
  unfold ofFields
  split_ifs with hinf hnan hzero hm0
  · trivial
  · trivial
  · trivial
  · subst hzero
    exact ⟨by omega, by simp, by simp, .inr (by simp)⟩
  · have hexp : exponent.toNat ≠ 2047 := fun h => hinf (BitVec.eq_of_toNat_eq h)
    have hexp0 : exponent.toNat ≠ 0 := fun h => hzero (BitVec.eq_of_toNat_eq h)
    rw [Canonical, toNat_implicit]
    omega

/-! ## Comparison with a power of two -/

/-- The float `2 ^ (52 + k)`. -/
def binade (k : ℤ) : UnpackedFloat := .finite .positive (2 ^ 52) k (by decide)

theorem lt_binade {m : ℕ} {e k : ℤ} (hm : 0 < m) :
    (UnpackedFloat.finite .positive m e hm).lt (binade k) = true ↔ e < k ∨ e = k ∧ m < 2 ^ 52 := by
  simp only [UnpackedFloat.lt, binade, UnpackedFloat.compare, beq_iff_eq, Option.some.injEq,
    Ordering.then_eq_lt, compare_lt_iff_lt, compare_eq_iff_eq]

theorem binade_lt {m : ℕ} {e k : ℤ} (hm : 0 < m) :
    (binade k).lt (.finite .positive m e hm) = true ↔ k < e ∨ k = e ∧ 2 ^ 52 < m := by
  simp only [UnpackedFloat.lt, binade, UnpackedFloat.compare, beq_iff_eq, Option.some.injEq,
    Ordering.then_eq_lt, compare_lt_iff_lt, compare_eq_iff_eq]

/-! ## Packing -/

/-- A positive float, packed. -/
theorem unpack_pack (m : ℕ) (e : ℤ) (hm : 0 < m) :
    UnpackedFloat.unpack Format.binary64
        (UnpackedFloat.pack Format.binary64 (.finite .positive m e hm)) =
      if 2 ^ 11 ≤ (e + 1075).toNat + 1 then .infinity .positive
      else if m.log2 = 52 then
        ofFields .positive (BitVec.ofNat 11 (e + 1075).toNat) (BitVec.ofNat 52 m)
      else ofFields .positive 0#11 (BitVec.ofNat 52 m) := by
  have hbias : e + Format.binary64.exponentBias + Format.binary64.mantissaBitsWithoutImplicit =
      e + 1075 := by
    simp [Format.exponentBias]; omega
  have hbits : m.log2 + 1 = Format.binary64.mantissaBits ↔ m.log2 = 52 := by
    simp [Format.mantissaBits]
  unfold UnpackedFloat.pack
  simp only [hbias, hbits]
  split_ifs with hinf hnormal
  · exact unpack_packComponents .positive _ _
  · exact unpack_packComponents .positive _ _
  · exact unpack_packComponents .positive _ _

/-- Packing keeps a float below a power of two: what it loses of a mantissa that
    is not normal does not matter there. -/
theorem unpack_pack_lt {m : ℕ} {e k : ℤ} (hm : 0 < m) (hk : 0 ≤ k) (hk' : k ≤ 971)
    (he : e < k) :
    (UnpackedFloat.unpack Format.binary64
      (UnpackedFloat.pack Format.binary64 (.finite .positive m e hm))).lt (binade k) = true := by
  rw [unpack_pack, if_neg (by omega)]
  have below (exponent : BitVec 11) (mantissa : BitVec 52) (h : exponent.toNat < 1075 + k) :
      (ofFields .positive exponent mantissa).lt (binade k) = true := by
    unfold ofFields
    split_ifs with hinf hnan hzero hm0
    · rw [hinf] at h
      simp at h
      omega
    · rw [hinf] at h
      simp at h
      omega
    · rfl
    · rw [lt_binade, hzero]
      simp
      omega
    · rw [lt_binade]
      omega
  split_ifs
  · refine below _ _ ?_
    rw [BitVec.toNat_ofNat]
    omega
  · exact below _ _ (by simp; omega)

/-- A normal float that is not below a power of two is not packed below it. -/
theorem not_unpack_pack_lt {m : ℕ} {e k : ℤ} (hm : 0 < m) (hlog : m.log2 = 52) (hk : 0 ≤ k)
    (he : k ≤ e) :
    (UnpackedFloat.unpack Format.binary64
      (UnpackedFloat.pack Format.binary64 (.finite .positive m e hm))).lt (binade k) = false := by
  rw [unpack_pack, if_pos hlog]
  split_ifs with hinf
  · rfl
  · have hexp : (BitVec.ofNat 11 (e + 1075).toNat).toNat = (e + 1075).toNat := by
      rw [BitVec.toNat_ofNat]
      omega
    rw [Bool.eq_false_iff]
    unfold ofFields
    split_ifs with hones hnan hzero hm0
    · rw [hones] at hexp
      simp at hexp
      omega
    · rw [hones] at hexp
      simp at hexp
      omega
    · rw [hzero] at hexp
      simp at hexp
      omega
    · rw [hzero] at hexp
      simp at hexp
      omega
    · rw [ne_eq, lt_binade, toNat_implicit, hexp]
      omega

/-! ## Rounding -/

theorem targetExponent_eq (t : ℤ) :
    Format.binary64.targetExponent t = max (t - 53) (-1074) := by
  simp [Format.targetExponent, Format.mantissaBits, Format.minExponent]

theorem roundedMantissa_ofAccuracy (q : ℕ) (acc : Accuracy) :
    (ExtendedMantissa.ofMantissaAndAccuracy q acc).roundedMantissa = acc.roundToNearestEven q := by
  rcases acc with _ | (_ | _ | _) <;> rfl

theorem roundToNearestEven_bounds (q : ℕ) (acc : Accuracy) :
    q ≤ acc.roundToNearestEven q ∧ acc.roundToNearestEven q ≤ q + 1 := by
  rcases acc with _ | (_ | _ | _) <;> simp only [Accuracy.roundToNearestEven] <;> omega

theorem shiftToTarget_zero {q : ℕ} {e : ℤ} {acc : Accuracy}
    (h : Format.binary64.targetExponent (totalExponent q e) ≤ e) :
    shiftToTargetExponent Format.binary64 q e acc =
      (ExtendedMantissa.ofMantissaAndAccuracy q acc, e) := by
  have hzero : (Format.binary64.targetExponent (totalExponent q e) - e).toNat = 0 := by omega
  simp only [shiftToTargetExponent, shiftToExponent, hzero, Nat.cast_zero, add_zero]
  rfl

/-- A power of two that is too large by one bit is shifted by that bit. -/
theorem shiftToTarget_one {e : ℤ} (he : -1074 ≤ e) :
    shiftToTargetExponent Format.binary64 (2 ^ 53) e .exact =
      (ExtendedMantissa.ofMantissaAndAccuracy (2 ^ 52) .exact, e + 1) := by
  have hone : (Format.binary64.targetExponent (totalExponent (2 ^ 53) e) - e).toNat = 1 := by
    rw [targetExponent_eq, totalExponent, Nat.log2_two_pow]
    omega
  simp only [shiftToTargetExponent, shiftToExponent, hone]
  rfl

/-- A mantissa that keeps its exponent is rounded in place. -/
theorem round_in_place {s : Sign} {q : ℕ} {e : ℤ} {acc : Accuracy}
    (hq : Format.binary64.targetExponent (totalExponent q e) ≤ e)
    (hr : Format.binary64.targetExponent (totalExponent (acc.roundToNearestEven q) e) ≤ e)
    (hpos : 0 < acc.roundToNearestEven q) :
    roundWithAccuracy Format.binary64 s q e acc =
      .finite s (acc.roundToNearestEven q) e hpos := by
  unfold roundWithAccuracy
  simp only [shiftToTarget_zero hq, roundedMantissa_ofAccuracy, shiftToTarget_zero hr]
  exact dif_neg hpos.ne'

/-- A mantissa that is rounded up to a power of two gets the next exponent. -/
theorem round_carry {s : Sign} {q : ℕ} {e : ℤ} {acc : Accuracy}
    (hq : Format.binary64.targetExponent (totalExponent q e) ≤ e)
    (hr : acc.roundToNearestEven q = 2 ^ 53) (he : -1074 ≤ e) :
    roundWithAccuracy Format.binary64 s q e acc = .finite s (2 ^ 52) (e + 1) (by decide) := by
  unfold roundWithAccuracy
  simp only [shiftToTarget_zero hq, roundedMantissa_ofAccuracy, hr, shiftToTarget_one he]
  rfl

theorem round_two_pow {s : Sign} {e : ℤ} (he : -1074 ≤ e) :
    roundWithAccuracy Format.binary64 s (2 ^ 53) e .exact =
      .finite s (2 ^ 52) (e + 1) (by decide) := by
  have hnext : Format.binary64.targetExponent (totalExponent (2 ^ 52) (e + 1)) ≤ e + 1 := by
    rw [targetExponent_eq, totalExponent, Nat.log2_two_pow]
    omega
  have hround : (ExtendedMantissa.ofMantissaAndAccuracy (2 ^ 52) .exact).roundedMantissa =
      2 ^ 52 := rfl
  unfold roundWithAccuracy
  simp only [shiftToTarget_one he, hround, shiftToTarget_zero hnext]
  rfl

/-- **Rounding a quotient** that has all its bits, or is the next power of two. -/
theorem round_normal {s : Sign} {q : ℕ} {e : ℤ} {acc : Accuracy} (hlo : 2 ^ 52 ≤ q)
    (hhi : q < 2 ^ 53 ∨ q = 2 ^ 53 ∧ acc = .exact) (he : -1074 ≤ e) :
    ∃ m e' hm, roundWithAccuracy Format.binary64 s q e acc = .finite s m e' hm ∧ m.log2 = 52 ∧
      e ≤ e' ∧ e' ≤ e + 1 ∧ (q + 1 < 2 ^ 53 → e' = e) ∧ (q = 2 ^ 53 → e' = e + 1) := by
  have log52 {n : ℕ} (h : 2 ^ 52 ≤ n) (h' : n < 2 ^ 53) : n.log2 = 52 :=
    (Nat.log2_eq_iff (by omega)).mpr ⟨h, h'⟩
  rcases hhi with hlt | ⟨rfl, rfl⟩
  · have hq : Format.binary64.targetExponent (totalExponent q e) ≤ e := by
      rw [targetExponent_eq, totalExponent, log52 hlo hlt]
      omega
    have hbounds := roundToNearestEven_bounds q acc
    by_cases hcarry : acc.roundToNearestEven q = 2 ^ 53
    · exact ⟨_, _, _, round_carry hq hcarry he, by decide, by omega, by omega, by omega, by omega⟩
    · have hlog := log52 (hlo.trans hbounds.1) (by omega)
      have hr : Format.binary64.targetExponent
          (totalExponent (acc.roundToNearestEven q) e) ≤ e := by
        rw [targetExponent_eq, totalExponent, hlog]
        omega
      exact ⟨_, _, _, round_in_place hq hr (by omega), hlog, le_rfl, by omega, fun _ => rfl,
        by omega⟩
  · exact ⟨_, _, _, round_two_pow he, by decide, by omega, by omega, by omega, fun _ => rfl⟩

/-- A mantissa at the least exponent is rounded in place. -/
theorem round_least {s : Sign} {q : ℕ} {acc : Accuracy} (hq : 0 < q) (hq' : q + 1 < 2 ^ 53) :
    ∃ m hm, roundWithAccuracy Format.binary64 s q (-1074) acc = .finite s m (-1074) hm := by
  have least {n : ℕ} (hn : 0 < n) (hn' : n < 2 ^ 53) :
      Format.binary64.targetExponent (totalExponent n (-1074)) ≤ -1074 := by
    have hlog : n.log2 < 53 := (Nat.log2_lt hn.ne').mpr hn'
    rw [targetExponent_eq, totalExponent]
    omega
  obtain ⟨hlo, hhi⟩ := roundToNearestEven_bounds q acc
  exact ⟨_, _, round_in_place (least hq (by omega)) (least (by omega) (by omega)) (by omega)⟩

/-! ## The reciprocal -/

/-- The float `1`. -/
def one : UnpackedFloat := .finite .positive (2 ^ 52) (-52) (by decide)

/-- The reciprocal of a positive float, rounded. -/
theorem div_one (m : ℕ) (e : ℤ) (hm : 0 < m) :
    UnpackedFloat.div Format.binary64 one (.finite .positive m e hm) =
      roundWithAccuracy Format.binary64 .positive (divCore Format.binary64 (2 ^ 52) (-52) m e).1
        (divCore Format.binary64 (2 ^ 52) (-52) m e).2.1
        (divCore Format.binary64 (2 ^ 52) (-52) m e).2.2 := rfl

/-- The quotient of a float whose reciprocal is normal has all its bits. -/
theorem divCore_one {m : ℕ} {e : ℤ} (h : m.log2 + e ≤ 1021) :
    divCore Format.binary64 (2 ^ 52) (-52) m e =
      (2 ^ (53 + m.log2) / m, -53 - m.log2 - e, accuracyOfFraction (2 ^ (53 + m.log2) % m) m) := by
  have htarget : min (-52 - e) (Format.binary64.targetExponent
      (totalExponent (2 ^ 52) (-52) - totalExponent m e)) = -53 - m.log2 - e := by
    rw [targetExponent_eq, totalExponent, totalExponent, Nat.log2_two_pow]
    omega
  have hshift : (-52 - e - (-53 - m.log2 - e)).toNat = 1 + m.log2 := by omega
  simp only [divCore, htarget, hshift, Nat.shiftLeft_eq, ← pow_add]
  rw [show 52 + (1 + m.log2) = 53 + m.log2 by omega]

/-- The quotient of a float whose reciprocal may be subnormal. -/
theorem divCore_one_small {m : ℕ} {e : ℤ} (hm : m.log2 = 52) (he : 970 ≤ e) (he' : e ≤ 971) :
    divCore Format.binary64 (2 ^ 52) (-52) m e =
      (2 ^ (52 + (1022 - e).toNat) / m, -1074,
        accuracyOfFraction (2 ^ (52 + (1022 - e).toNat) % m) m) := by
  have htarget : min (-52 - e) (Format.binary64.targetExponent
      (totalExponent (2 ^ 52) (-52) - totalExponent m e)) = -1074 := by
    rw [targetExponent_eq, totalExponent, totalExponent, Nat.log2_two_pow, hm]
    omega
  have hshift : (-52 - e - (-1074)).toNat = (1022 - e).toNat := by omega
  simp only [divCore, htarget, hshift, Nat.shiftLeft_eq, ← pow_add]

/-- The quotient of a power of two: it is one itself exactly when the divisor is. -/
theorem quotient_bounds {m : ℕ} (hm : 0 < m) (hm53 : m < 2 ^ 53) :
    2 ^ 52 ≤ 2 ^ (53 + m.log2) / m ∧
      (m = 2 ^ m.log2 → 2 ^ (53 + m.log2) / m = 2 ^ 53 ∧ 2 ^ (53 + m.log2) % m = 0) ∧
      (m ≠ 2 ^ m.log2 → 2 ^ (53 + m.log2) / m + 1 < 2 ^ 53) := by
  obtain ⟨hlo, hhi⟩ := (Nat.log2_eq_iff hm.ne').mp rfl
  have hlog : m.log2 < 53 := (Nat.log2_lt hm.ne').mpr hm53
  generalize m.log2 = l at *
  have hpow : 2 ^ (53 + l) = 2 ^ 53 * 2 ^ l := pow_add _ _ _
  refine ⟨?_, ?_, ?_⟩
  · rw [Nat.le_div_iff_mul_le hm, hpow]
    rw [pow_succ] at hhi
    omega
  · rintro rfl
    rw [hpow]
    exact ⟨Nat.mul_div_cancel _ hm, Nat.mul_mod_left _ _⟩
  · intro hne
    have hsmall : 2 ^ l ≤ 2 ^ 52 := Nat.pow_le_pow_right (by norm_num) (by omega)
    have hquot : 2 ^ (53 + l) / m < 2 ^ 53 - 1 := by
      rw [Nat.div_lt_iff_lt_mul hm, hpow]
      have hstep : (2 ^ 53 - 1) * (2 ^ l + 1) ≤ (2 ^ 53 - 1) * m :=
        Nat.mul_le_mul_left _ (by omega)
      omega
    omega

/-- The binade of a positive float. -/
theorem two_zpow_log2_le {m : ℕ} {e : ℤ} (hm : 0 < m) :
    (2 : ℚ) ^ (m.log2 + e) ≤ m * 2 ^ e ∧ (m : ℚ) * 2 ^ e < 2 ^ (m.log2 + e + 1) := by
  have hlog := (Nat.log2_eq_iff hm.ne').mp rfl
  have hlo : ((2 ^ m.log2 : ℕ) : ℚ) ≤ m := by exact_mod_cast hlog.1
  have hhi : (m : ℚ) < ((2 ^ (m.log2 + 1) : ℕ) : ℚ) := by exact_mod_cast hlog.2
  have hpos : (0 : ℚ) < 2 ^ e := by positivity
  push_cast at hlo hhi
  rw [zpow_add₀ two_ne_zero, zpow_natCast, add_right_comm, zpow_add₀ two_ne_zero,
    show ((m.log2 : ℤ) + 1) = ((m.log2 + 1 : ℕ) : ℤ) by push_cast; rfl, zpow_natCast]
  exact ⟨mul_le_mul_of_nonneg_right hlo hpos.le, mul_lt_mul_of_pos_right hhi hpos⟩

/-- **The reciprocal and powers of two.**  The rounded `1 / x` is below
    `2 ^ (52 + k)` exactly when `x` is above its inverse. -/
theorem recip_lt_binade {m : ℕ} {e k : ℤ} (hm : 0 < m)
    (hc : Canonical (.finite .positive m e hm)) (hk : 0 ≤ k) (hk' : k ≤ 971) :
    (UnpackedFloat.unpack Format.binary64 (UnpackedFloat.pack Format.binary64
      (UnpackedFloat.div Format.binary64 one (.finite .positive m e hm)))).lt (binade k) = true ↔
      (2 : ℚ) ^ (-(52 + k)) < m * 2 ^ e := by
  obtain ⟨hm53, -, he971, hnormal⟩ := hc
  obtain ⟨hlo, hhi⟩ := two_zpow_log2_le (e := e) hm
  have hlog := (Nat.log2_eq_iff hm.ne').mp rfl
  have hlog53 : m.log2 < 53 := (Nat.log2_lt hm.ne').mpr hm53
  obtain ⟨hq, hpow, hother⟩ := quotient_bounds hm hm53
  rw [div_one]
  by_cases hT : m.log2 + e ≤ 1021
  · rw [divCore_one hT]
    have hhalf : 2 ^ (53 + m.log2) / m < 2 ^ 53 ∨ 2 ^ (53 + m.log2) / m = 2 ^ 53 ∧
        accuracyOfFraction (2 ^ (53 + m.log2) % m) m = .exact := by
      by_cases hm2 : m = 2 ^ m.log2
      · exact .inr ⟨(hpow hm2).1, if_pos (hpow hm2).2⟩
      · exact .inl (by have := hother hm2; omega)
    obtain ⟨m', e', hm', hround, hlog', hge, hle, hsame, hcarry⟩ :=
      round_normal (s := .positive) hq hhalf (by omega : -1074 ≤ -53 - (m.log2 : ℤ) - e)
    rw [hround]
    rcases lt_trichotomy ((m.log2 : ℤ) + e) (-(52 + k)) with hT' | hT' | hT'
    · -- the float is below the inverse, and its reciprocal not below the power
      have hbelow : (m : ℚ) * 2 ^ e ≤ 2 ^ (-(52 + k)) :=
        hhi.le.trans (zpow_le_zpow_right₀ one_le_two (by omega))
      rw [not_unpack_pack_lt hm' hlog' hk (by omega)]
      exact iff_of_false Bool.false_ne_true hbelow.not_gt
    · by_cases hm2 : m = 2 ^ m.log2
      · have heq : (m : ℚ) * 2 ^ e = 2 ^ (-(52 + k)) := by
          rw [← hT', zpow_add₀ two_ne_zero, zpow_natCast]
          congr 1
          exact_mod_cast hm2
        rw [not_unpack_pack_lt hm' hlog' hk (by have := hcarry (hpow hm2).1; omega)]
        exact iff_of_false Bool.false_ne_true heq.le.not_gt
      · have habove : (2 : ℚ) ^ (-(52 + k)) < m * 2 ^ e := by
          rw [← hT', zpow_add₀ two_ne_zero, zpow_natCast]
          have hlt : ((2 ^ m.log2 : ℕ) : ℚ) < m := by exact_mod_cast (by omega : 2 ^ m.log2 < m)
          push_cast at hlt
          exact mul_lt_mul_of_pos_right hlt (by positivity)
        exact iff_of_true (unpack_pack_lt hm' hk hk' (by have := hsame (hother hm2); omega)) habove
    · have habove : (2 : ℚ) ^ (-(52 + k)) < m * 2 ^ e :=
        (zpow_lt_zpow_right₀ one_lt_two hT').trans_le hlo
      exact iff_of_true (unpack_pack_lt hm' hk hk' (by omega)) habove
  · have he970 : 970 ≤ e := by omega
    have hlog52 : m.log2 = 52 := (Nat.log2_eq_iff hm.ne').mpr ⟨by omega, hm53⟩
    rw [divCore_one_small hlog52 he970 he971]
    have habove : (2 : ℚ) ^ (-(52 + k)) < m * 2 ^ e :=
      (zpow_lt_zpow_right₀ one_lt_two (by omega)).trans_le hlo
    have hpow : 2 ^ (52 + 51) ≤ 2 ^ (52 + (1022 - e).toNat) ∧
        2 ^ (52 + (1022 - e).toNat) ≤ 2 ^ (52 + 52) :=
      ⟨Nat.pow_le_pow_right (by norm_num) (by omega), Nat.pow_le_pow_right (by norm_num) (by omega)⟩
    have hpos : 0 < 2 ^ (52 + (1022 - e).toNat) / m := Nat.div_pos (by omega) hm
    have hsmall : 2 ^ (52 + (1022 - e).toNat) / m < 2 ^ 53 - 1 := by
      rw [Nat.div_lt_iff_lt_mul hm]
      omega
    obtain ⟨m', hm', hround⟩ := round_least (s := .positive) hpos (by omega)
    rw [hround]
    exact iff_of_true (unpack_pack_lt hm' hk hk' (by omega)) habove

end Lib.Binary64
