import Mathlib
import HostScript.Number.Binary

namespace HostScript.Number

open Float.Model Float.Model.UnpackedFloat

-- A positive double as a multiple of the least one.
def units (mantissa : Nat) (exponent : Int) : Nat :=
  mantissa * 2 ^ (exponent + 1074).toNat

-- The ways to write a positive double: with a full mantissa, or with the least exponent.
structure Canonical (mantissa : Nat) (exponent : Int) : Prop where
  small : mantissa < 2 ^ 53
  least : -1074 ≤ exponent
  full : 2 ^ 52 ≤ mantissa ∨ exponent = -1074

namespace Canonical

variable {m n : Nat} {e f : Int}

-- A larger exponent outweighs every mantissa.
theorem units_lt (hm : Canonical m e) (hn : Canonical n f) (h : e < f) : units m e < units n f := by
  have hfull : 2 ^ 52 ≤ n := by
    have := hn.full
    have := hm.least
    omega
  have hpow : 2 * 2 ^ (e + 1074).toNat ≤ 2 ^ (f + 1074).toNat := by
    rw [← Nat.pow_succ']
    have := hm.least
    exact Nat.pow_le_pow_right (by decide) (by omega)
  calc units m e < 2 ^ 53 * 2 ^ (e + 1074).toNat :=
        Nat.mul_lt_mul_of_pos_right hm.small (Nat.two_pow_pos _)
    _ = 2 ^ 52 * (2 * 2 ^ (e + 1074).toNat) := by ring
    _ ≤ n * 2 ^ (f + 1074).toNat := Nat.mul_le_mul hfull hpow

theorem compare_eq (hm : Canonical m e) (hn : Canonical n f) :
    (compare e f).then (compare m n) = compare (units m e) (units n f) := by
  rcases lt_trichotomy e f with h | rfl | h
  · rw [compare_lt_iff_lt.mpr h, compare_lt_iff_lt.mpr (hm.units_lt hn h)]
    rfl
  · have hpos : 0 < 2 ^ (e + 1074).toNat := Nat.two_pow_pos _
    rw [compare_eq_iff_eq.mpr (rfl : e = e), units, units]
    rcases lt_trichotomy m n with h | rfl | h
    · rw [compare_lt_iff_lt.mpr h, compare_lt_iff_lt.mpr (Nat.mul_lt_mul_of_pos_right h hpos)]
      rfl
    · rw [compare_eq_iff_eq.mpr (rfl : m = m), compare_eq_iff_eq.mpr rfl]
      rfl
    · rw [compare_gt_iff_gt.mpr h, compare_gt_iff_gt.mpr (Nat.mul_lt_mul_of_pos_right h hpos)]
      rfl
  · rw [compare_gt_iff_gt.mpr h, compare_gt_iff_gt.mpr (hn.units_lt hm h)]
    rfl

end Canonical

-- What is read from the bits of a double is written canonically.
theorem canonical_of_unpack {x : Float.Model} {s : Sign} {m : Nat} {e : Int} {h : 0 < m}
    (hx : x.unpack = .finite s m e h) : Canonical m e := by
  have hbits : (@unpackMantissa .binary64 x.toBits.toBitVec).toNat < 2 ^ 52 := BitVec.isLt _
  have hbias : (Format.binary64.exponentBias : Int) = 1023 := rfl
  simp only [Float.Model.unpack, UnpackedFloat.unpack] at hx
  split at hx
  · split at hx <;> cases hx
  · split at hx
    · rename_i hzero
      split at hx
      · cases hx
      · cases hx
        exact ⟨by omega, by simp [hzero, hbias], .inr (by simp [hzero, hbias])⟩
    · rename_i hzero
      cases hx
      have hpos : (@unpackExponent .binary64 x.toBits.toBitVec).toNat ≠ 0 := fun h0 =>
        hzero (BitVec.eq_of_toNat_eq (by simpa using h0))
      have hmantissa : (1#1 ++ @unpackMantissa .binary64 x.toBits.toBitVec).toNat =
          2 ^ 52 + (@unpackMantissa .binary64 x.toBits.toBitVec).toNat := by
        rw [BitVec.toNat_append, ← Nat.shiftLeft_add_eq_or_of_lt hbits]
        simp [Nat.shiftLeft_eq]
      refine ⟨by omega, ?_, .inl (by omega)⟩
      rw [hbias]
      omega

-- A double with a full mantissa is read back from its bits.
theorem unpack_pack {s : Sign} {m : Nat} {e : Int} (h : 0 < m) (hm : Canonical m e)
    (hfull : 2 ^ 52 ≤ m) (he : e ≤ 971) :
    (Float.Model.pack (.finite s m e h)).unpack = .finite s m e h := by
  have hlog : m.log2 = 52 := (Nat.log2_eq_iff (by omega)).mpr ⟨hfull, hm.small⟩
  have hbias : (Format.binary64.exponentBias : Int) = 1023 := rfl
  have hleast := hm.least
  obtain ⟨k, hk⟩ := Int.eq_ofNat_of_zero_le (a := e + 1075) (by omega)
  have hk₁ : BitVec.ofNat 11 k ≠ -1#11 := fun heq => by
    have := congrArg BitVec.toNat heq
    simp at this
    omega
  have hk₀ : BitVec.ofNat 11 k ≠ 0#11 := fun heq => by
    have := congrArg BitVec.toNat heq
    simp at this
    omega
  have hbiased : (e + Format.binary64.exponentBias +
      Format.binary64.mantissaBitsWithoutImplicit).toNat = k := by
    rw [hbias]
    simp only
    omega
  have hmantissa : (1#1 ++ BitVec.ofNat 52 m).toNat = m := by
    rw [BitVec.toNat_append, ← Nat.shiftLeft_add_eq_or_of_lt (BitVec.ofNat 52 m).isLt]
    simp [Nat.shiftLeft_eq]
    have := hm.small
    omega
  simp only [Float.Model.unpack, Float.Model.pack, UnpackedFloat.pack, hlog, hbiased]
  rw [if_neg (by omega), if_pos (by rfl)]
  simp only [UnpackedFloat.unpack, unpackMantissa_packComponents, unpackExponent_packComponents,
    unpackSign_packComponents, Sign.ofBitVec_toBitVec, if_neg hk₁, if_neg hk₀, hmantissa, hbias]
  congr 1
  simp
  omega

theorem shiftRight_exact (m k : Nat) :
    (⟨m * 2 ^ k, false, false⟩ : ExtendedMantissa) >>> k = ⟨m, false, false⟩ := by
  induction k generalizing m with
  | zero => simp [HShiftRight.hShiftRight, Nat.repeat]
  | succ k ih =>
      have hlast : (⟨m * 2 ^ (k + 1), false, false⟩ : ExtendedMantissa) >>> k =
          ⟨m * 2, false, false⟩ := by
        rw [Nat.pow_succ', ← Nat.mul_assoc]
        exact ih (m * 2)
      have hone : (⟨m * 2 ^ (k + 1), false, false⟩ : ExtendedMantissa) >>> (k + 1) =
          ((⟨m * 2 ^ (k + 1), false, false⟩ : ExtendedMantissa) >>> k).shiftRightOne := rfl
      rw [hone, hlast]
      simp [ExtendedMantissa.shiftRightOne]

theorem log2_mul_two_pow {m : Nat} (hm : m ≠ 0) (k : Nat) : (m * 2 ^ k).log2 = m.log2 + k := by
  refine (Nat.log2_eq_iff (Nat.mul_ne_zero hm (by positivity))).mpr ⟨?_, ?_⟩
  · rw [Nat.pow_add]
    exact Nat.mul_le_mul_right _ (Nat.log2_self_le hm)
  · rw [Nat.add_right_comm, Nat.pow_add]
    exact Nat.mul_lt_mul_of_pos_right Nat.lt_log2_self (Nat.two_pow_pos k)

-- A number that has a full mantissa somewhere needs no rounding.
theorem round_exact (s : Sign) {m n : Nat} {e f : Int} (h : 0 < n) (hn : Canonical n f)
    (hfull : 2 ^ 52 ≤ n) (he : -1074 ≤ e) (hunits : units m e = units n f) :
    round .binary64 s m e = .finite s n f h := by
  have hleast := hn.least
  have hlog : n.log2 = 52 := (Nat.log2_eq_iff (by omega)).mpr ⟨hfull, hn.small⟩
  have hm : m ≠ 0 := fun h0 => by
    rw [h0, units, units, Nat.zero_mul] at hunits
    exact absurd hunits.symm (Nat.mul_ne_zero (by omega) (by positivity))
  have htotal : (m.log2 : Int) + e = 52 + f := by
    have := congrArg Nat.log2 hunits
    rw [units, units, log2_mul_two_pow hm, log2_mul_two_pow (by omega), hlog] at this
    omega
  have htarget : Format.binary64.targetExponent (totalExponent m e) = f := by
    simp only [Format.targetExponent, totalExponent, Format.mantissaBits, Format.minExponent]
    norm_num
    omega
  have htarget' : Format.binary64.targetExponent (totalExponent n f) = f := by
    simp only [Format.targetExponent, totalExponent, Format.mantissaBits, Format.minExponent, hlog]
    norm_num
    omega
  -- The number has the mantissa and the exponent it ends up with, or more digits than it needs.
  have hsame : shiftToTargetExponent .binary64 n f .exact = (⟨n, false, false⟩, f) := by
    simp only [shiftToTargetExponent, shiftToExponent, htarget', Int.sub_self]
    simp [ExtendedMantissa.ofMantissaAndAccuracy, HShiftRight.hShiftRight, Nat.repeat]
  have hrounded : ∀ m' e', shiftToTargetExponent .binary64 m' e' .exact = (⟨n, false, false⟩, f) →
      roundWithAccuracy .binary64 s m' e' .exact = .finite s n f h := by
    intro m' e' hshift
    have hkeep : ExtendedMantissa.roundedMantissa ⟨n, false, false⟩ = n := rfl
    simp only [roundWithAccuracy, hshift, hkeep, hsame]
    rw [dif_neg (by omega)]
  simp only [UnpackedFloat.round, htarget, decreaseExponent]
  rcases le_total f e with hle | hle
  · have hmantissa : m <<< (e - f).toNat = n := by
      have hpow : (2 : Nat) ^ (e + 1074).toNat = 2 ^ (e - f).toNat * 2 ^ (f + 1074).toNat := by
        rw [← Nat.pow_add]
        congr 1
        omega
      rw [units, units, hpow, ← Nat.mul_assoc] at hunits
      rw [Nat.shiftLeft_eq]
      exact Nat.eq_of_mul_eq_mul_right (Nat.two_pow_pos _) hunits
    have hexponent : e - ((e - f).toNat : Int) = f := by omega
    rw [hmantissa, hexponent]
    exact hrounded n f hsame
  · have hnothing : (e - f).toNat = 0 := by omega
    have hmantissa : m = n * 2 ^ (f - e).toNat := by
      have hpow : (2 : Nat) ^ (f + 1074).toNat = 2 ^ (f - e).toNat * 2 ^ (e + 1074).toNat := by
        rw [← Nat.pow_add]
        congr 1
        omega
      rw [units, units, hpow, ← Nat.mul_assoc] at hunits
      exact Nat.eq_of_mul_eq_mul_right (Nat.two_pow_pos _) hunits
    rw [hnothing]
    refine hrounded _ _ ?_
    simp only [Nat.shiftLeft_zero, Int.natCast_zero, Int.sub_zero, shiftToTargetExponent,
      shiftToExponent, htarget, ExtendedMantissa.ofMantissaAndAccuracy]
    rw [hmantissa, shiftRight_exact]
    congr 1
    omega

-- Whole numbers up to 2 ^ 53 have a full mantissa.
theorem exists_full {n : Nat} (hn : 0 < n) (hle : n ≤ 2 ^ 53) :
    ∃ m e, Canonical m e ∧ 2 ^ 52 ≤ m ∧ e ≤ 971 ∧ units m e = units n 0 := by
  rcases Nat.lt_or_eq_of_le hle with hlt | rfl
  · have hlog : n.log2 < 53 := (Nat.log2_lt (by omega)).mpr hlt
    have hlow := Nat.log2_self_le (n := n) (by omega)
    have hhigh := Nat.lt_log2_self (n := n)
    have hfull : 2 ^ 52 ≤ n * 2 ^ (52 - n.log2) := by
      calc 2 ^ 52 = 2 ^ n.log2 * 2 ^ (52 - n.log2) := by rw [← Nat.pow_add]; congr 1; omega
        _ ≤ n * 2 ^ (52 - n.log2) := Nat.mul_le_mul_right _ hlow
    have hsmall : n * 2 ^ (52 - n.log2) < 2 ^ 53 := by
      calc n * 2 ^ (52 - n.log2) < 2 ^ (n.log2 + 1) * 2 ^ (52 - n.log2) :=
            Nat.mul_lt_mul_of_pos_right hhigh (Nat.two_pow_pos _)
        _ = 2 ^ 53 := by rw [← Nat.pow_add]; congr 1; omega
    refine ⟨n * 2 ^ (52 - n.log2), n.log2 - 52, ⟨hsmall, by omega, .inl hfull⟩, hfull, by omega, ?_⟩
    rw [units, units, Nat.mul_assoc, ← Nat.pow_add]
    congr 2
    omega
  · refine ⟨2 ^ 52, 1, ⟨by decide, by decide, .inl (Nat.le_refl _)⟩, Nat.le_refl _, by decide, ?_⟩
    rw [units, units, ← Nat.pow_add, ← Nat.pow_add]
    congr 1

-- A natural number as a double.
def whole (n : Nat) : Float :=
  (UInt64.ofNat n).toFloat

theorem whole_eq {n m : Nat} {e : Int} (hle : n ≤ 2 ^ 53) (hm : 0 < m) (h : Canonical m e)
    (hfull : 2 ^ 52 ≤ m) (hunits : units m e = units n 0) :
    whole n = ⟨Float.Model.pack (.finite .positive m e hm)⟩ := by
  have hn : 0 < n := Nat.pos_of_ne_zero fun h0 => by
    rw [h0, units, units, Nat.zero_mul] at hunits
    exact absurd hunits (Nat.mul_ne_zero (by omega) (by positivity))
  have hnat : (UInt64.ofNat n).toNat = n := by
    simp
    omega
  have hcompare : compare (n : Int) 0 = .gt := compare_gt_iff_gt.mpr (by omega)
  have hround : UnpackedFloat.ofUInt64 .binary64 (UInt64.ofNat n) = .finite .positive m e hm := by
    rw [UnpackedFloat.ofUInt64, hnat, UnpackedFloat.ofNat, UnpackedFloat.ofInt,
      UnpackedFloat.normalize, hcompare]
    exact round_exact _ hm h hfull (by decide) hunits.symm
  exact congrArg (fun u => Float.ofModel (Float.Model.pack u)) hround

theorem unpack_whole {n : Nat} (hn : 0 < n) (hle : n ≤ 2 ^ 53) :
    ∃ m e h, (whole n).toModel.unpack = .finite .positive m e h ∧ Canonical m e ∧
      units m e = units n 0 := by
  obtain ⟨m, e, hcanonical, hfull, he, hunits⟩ := exists_full hn hle
  have hm : 0 < m := by omega
  refine ⟨m, e, hm, ?_, hcanonical, hunits⟩
  rw [whole_eq hle hm hcanonical hfull hunits, unpack_pack hm hcanonical hfull he]

-- The number is written with a smaller exponent.
theorem units_decreaseExponent {m : Nat} {e target : Int} (hle : target ≤ e)
    (htarget : -1074 ≤ target) : units (decreaseExponent m e target).1 target = units m e := by
  rw [decreaseExponent, units, units, Nat.shiftLeft_eq, Nat.mul_assoc, ← Nat.pow_add]
  congr 2
  omega

-- Below 2 ^ 53 adding one is exact.
theorem whole_add_one {n : Nat} (hlt : n < 2 ^ 53) : whole n + whole 1 = whole (n + 1) := by
  rcases Nat.eq_zero_or_pos n with rfl | hn
  · rfl
  · obtain ⟨m₁, e₁, h₁, hunpack₁, hcanonical₁, hunits₁⟩ := unpack_whole hn (Nat.le_of_lt hlt)
    obtain ⟨m₂, e₂, h₂, hunpack₂, hcanonical₂, hunits₂⟩ :=
      unpack_whole (n := 1) (by decide) (by decide)
    obtain ⟨m, e, hcanonical, hfull, he, hunits⟩ := exists_full (n := n + 1) (by omega) hlt
    have hm : 0 < m := by omega
    have hleast : -1074 ≤ min e₁ e₂ := le_min hcanonical₁.least hcanonical₂.least
    have hsum : units ((decreaseExponent m₁ e₁ (min e₁ e₂)).1 +
        (decreaseExponent m₂ e₂ (min e₁ e₂)).1) (min e₁ e₂) = units m e := by
      rw [units, Nat.add_mul]
      have hleft := units_decreaseExponent (m := m₁) (min_le_left e₁ e₂) hleast
      have hright := units_decreaseExponent (m := m₂) (min_le_right e₁ e₂) hleast
      rw [units] at hleft hright
      rw [hleft, hright, hunits₁, hunits₂, hunits, units, units, units, ← Nat.add_mul]
    have hadd : UnpackedFloat.add .binary64 (whole n).toModel.unpack (whole 1).toModel.unpack =
        .finite .positive m e hm := by
      have hpos : 0 < (decreaseExponent m₁ e₁ (min e₁ e₂)).1 := by
        rw [decreaseExponent, Nat.shiftLeft_eq]
        positivity
      have hcompare : compare (((decreaseExponent m₁ e₁ (min e₁ e₂)).1 : Int) +
          (decreaseExponent m₂ e₂ (min e₁ e₂)).1) 0 = .gt := compare_gt_iff_gt.mpr (by omega)
      rw [hunpack₁, hunpack₂, UnpackedFloat.add]
      simp only [Sign.apply, UnpackedFloat.normalize, hcompare]
      exact round_exact _ hm hcanonical hfull hleast hsum
    rw [whole_eq hlt hm hcanonical hfull hunits, ← hadd]
    rfl

-- How doubles compare, in terms of what is read from their bits.
theorem lt_iff_compare {x y : Float} :
    x < y ↔ x.toModel.unpack.compare y.toModel.unpack = some .lt := by
  have hlt : x < y ↔ decide (x.toModel.unpack.lt y.toModel.unpack = true) = true := Iff.rfl
  rw [hlt, decide_eq_true_iff, UnpackedFloat.lt, beq_iff_eq]

theorem le_iff_compare {x y : Float} :
    x ≤ y ↔ (x.toModel.unpack.compare y.toModel.unpack).any (·.isLE) = true := by
  have hle : x ≤ y ↔ decide (x.toModel.unpack.le y.toModel.unpack = true) = true := Iff.rfl
  rw [hle, decide_eq_true_iff, UnpackedFloat.le]

theorem zero_eq : (0 : Float) = whole 0 := by
  rfl

theorem unpack_zero : (whole 0).toModel.unpack = .zero .positive := by
  rfl

theorem units_zero_pos {m : Nat} {e : Int} (h : 0 < m) : units 0 0 < units m e := by
  rw [units, Nat.zero_mul]
  exact Nat.mul_pos h (Nat.two_pow_pos _)

-- A whole number is compared with a positive number.
theorem whole_lt_iff_units {x : Float} {n m : Nat} {e : Int} {h : 0 < m} (hle : n ≤ 2 ^ 53)
    (hx : x.toModel.unpack = .finite .positive m e h) : whole n < x ↔ units n 0 < units m e := by
  rw [lt_iff_compare, hx]
  rcases Nat.eq_zero_or_pos n with rfl | hn
  · rw [unpack_zero]
    simp only [UnpackedFloat.compare, units_zero_pos h]
  · obtain ⟨m', e', h', hunpack, hcanonical, hunits⟩ := unpack_whole hn hle
    rw [hunpack, ← hunits, ← compare_lt_iff_lt, ← hcanonical.compare_eq (canonical_of_unpack hx)]
    simp [UnpackedFloat.compare]

-- Nothing is below a number that is not positive.
theorem not_whole_lt {x : Float} {n : Nat} (hx : ¬0 < x) (hle : n ≤ 2 ^ 53) : ¬whole n < x := by
  rw [zero_eq, lt_iff_compare, unpack_zero] at hx
  rw [lt_iff_compare]
  rcases Nat.eq_zero_or_pos n with rfl | hn
  · rwa [unpack_zero]
  · obtain ⟨m, e, h, hunpack, -, -⟩ := unpack_whole hn hle
    rw [hunpack]
    cases hu : x.toModel.unpack with
    | notANumber => simp [UnpackedFloat.compare]
    | infinity s => cases s <;> simp_all [UnpackedFloat.compare]
    | zero s => simp [UnpackedFloat.compare]
    | finite s m' e' h' => cases s <;> simp_all [UnpackedFloat.compare]

theorem mantissa_shiftRight (em : ExtendedMantissa) (k : Nat) :
    (em >>> k).mantissa = em.mantissa / 2 ^ k := by
  induction k with
  | zero => simp [HShiftRight.hShiftRight, Nat.repeat]
  | succ k ih =>
      have hone : (em >>> (k + 1)).mantissa = (em >>> k).mantissa / 2 := rfl
      rw [hone, ih, Nat.div_div_eq_div_mul, Nat.pow_succ]

-- The whole part of a positive number.
theorem roundToInt_eq {m : Nat} {e : Int} (h : -1074 ≤ e) :
    roundToInt .positive m e = (units m e / units 1 0 : Nat) := by
  have hmantissa : roundToInt .positive m e = (m * 2 ^ e.toNat / 2 ^ (-e).toNat : Nat) := by
    simp only [roundToInt, decreaseExponent, shiftToExponent, mantissa_shiftRight,
      ExtendedMantissa.ofMantissaAndAccuracy, Sign.apply, Int.sub_zero, Nat.shiftLeft_eq]
    congr 3
    omega
  rw [hmantissa, units, units, Nat.one_mul]
  congr 1
  rcases le_total 0 e with hle | hle
  · have hpow : (2 : Nat) ^ (e + 1074).toNat = 2 ^ e.toNat * 2 ^ (0 + 1074 : Int).toNat := by
      rw [← Nat.pow_add]
      congr 1
      omega
    have hnothing : (-e).toNat = 0 := by omega
    rw [hpow, ← Nat.mul_assoc, Nat.mul_div_cancel _ (Nat.two_pow_pos _), hnothing, Nat.pow_zero,
      Nat.div_one]
  · have hpow : (2 : Nat) ^ (0 + 1074 : Int).toNat = 2 ^ (-e).toNat * 2 ^ (e + 1074).toNat := by
      rw [← Nat.pow_add]
      congr 1
      omega
    have hnothing : e.toNat = 0 := by omega
    rw [hpow, Nat.mul_div_mul_right _ _ (Nat.two_pow_pos _), hnothing, Nat.pow_zero, Nat.mul_one]

-- The number of rounds that are counted up while they are below a positive number.
theorem lt_wholesBelow_iff {x : Float} {m : Nat} {e : Int} {h : 0 < m}
    (hx : x.toModel.unpack = .finite .positive m e h) (hle : units m e ≤ units (2 ^ 53) 0) (n : Nat) :
    n < wholesBelow x ↔ units n 0 < units m e := by
  have hunit : ∀ k, units k 0 = k * units 1 0 := fun k => by rw [units, units, Nat.one_mul]
  have hpos : 0 < units 1 0 := Nat.mul_pos (by decide) (Nat.two_pow_pos _)
  have hquotient : units m e / units 1 0 ≤ 2 ^ 53 := by
    rw [hunit (2 ^ 53)] at hle
    exact Nat.div_le_of_le_mul (by rwa [Nat.mul_comm])
  have hwhole : x.toUInt64.toNat = units m e / units 1 0 := by
    have hread : x.toUInt64 = x.toModel.unpack.toUInt64 := rfl
    rw [hread, hx]
    simp only [UnpackedFloat.toUInt64, UnpackedFloat.toInt,
      roundToInt_eq (canonical_of_unpack hx).least, Int.toNat_natCast]
    rw [UInt64.toNat_ofNatClamp_of_lt]
    exact Nat.lt_of_le_of_lt hquotient (by decide)
  have hback : x.toUInt64.toFloat = whole (units m e / units 1 0) := by
    rw [whole, ← hwhole, UInt64.ofNat_toNat]
  have hzero : 0 < x := by
    rw [zero_eq, whole_lt_iff_units (by decide) hx]
    exact units_zero_pos h
  rw [wholesBelow, if_pos hzero]
  simp only [hback, hwhole, whole_lt_iff_units hquotient hx, hunit (units m e / units 1 0), hunit n]
  generalize units m e = a at *
  generalize units 1 0 = u at *
  have hdiv : a / u * u ≤ a := Nat.div_mul_le_self a u
  split
  · rename_i hless
    rw [Nat.min_eq_left (by omega), Nat.lt_succ_iff, Nat.le_div_iff_mul_le hpos]
    refine ⟨fun hn => ?_, Nat.le_of_lt⟩
    exact Nat.lt_of_le_of_lt (Nat.mul_le_mul_right u ((Nat.le_div_iff_mul_le hpos).mpr hn)) hless
  · rename_i hsame
    rw [Nat.min_eq_left (by omega), ← Nat.mul_lt_mul_right hpos, Nat.le_antisymm hdiv (by omega)]

-- Whether a count is one up to which counting is exact: not a number, or at most 2 ^ 53.
def Countable (x : Float) : Prop :=
  x.isNaN = true ∨ x ≤ 9007199254740992

theorem limit_eq : (9007199254740992 : Float) = whole (2 ^ 53) := by
  rfl

-- Counting does not go beyond where it is exact.
theorem Countable.not_lt {x : Float} (hcount : Countable x) : ¬whole (2 ^ 53) < x := by
  obtain ⟨m, e, h, hunpack, hcanonical, -⟩ := unpack_whole (n := 2 ^ 53) (by decide) (Nat.le_refl _)
  have hread : x.isNaN = x.toModel.unpack.isNaN := rfl
  rw [Countable, hread, limit_eq, le_iff_compare, hunpack] at hcount
  rw [lt_iff_compare, hunpack]
  cases hx : x.toModel.unpack with
  | notANumber => simp [UnpackedFloat.compare]
  | infinity s => cases s <;> simp_all [UnpackedFloat.compare, UnpackedFloat.isNaN]
  | zero s => simp [UnpackedFloat.compare]
  | finite s n f hn =>
      cases s with
      | negative => simp [UnpackedFloat.compare]
      | positive =>
          have hx' := canonical_of_unpack hx
          simp only [hx, UnpackedFloat.isNaN, UnpackedFloat.compare, hx'.compare_eq hcanonical,
            hcanonical.compare_eq hx', Option.any_some, Option.some.injEq, Bool.false_eq_true,
            false_or, Nat.isLE_compare, compare_lt_iff_lt] at hcount ⊢
          exact Nat.not_lt.mpr hcount

-- Counting up from zero, the numbers below a count are as many as the machine says.
theorem Countable.whole_lt_iff {x : Float} {n : Nat} (hcount : Countable x) (hle : n ≤ 2 ^ 53) :
    whole n < x ↔ n < wholesBelow x := by
  by_cases hpos : 0 < x
  · have hcompare := hpos
    rw [zero_eq, lt_iff_compare, unpack_zero] at hcompare
    cases hx : x.toModel.unpack with
    | finite s m e h =>
        cases s with
        | negative => simp [hx, UnpackedFloat.compare] at hcompare
        | positive =>
            have hsmall := Nat.not_lt.mp (mt (whole_lt_iff_units (Nat.le_refl _) hx).mpr hcount.not_lt)
            rw [whole_lt_iff_units hle hx, lt_wholesBelow_iff hx hsmall]
    | infinity s =>
        cases s with
        | negative => simp [hx, UnpackedFloat.compare] at hcompare
        | positive =>
            obtain ⟨m, e, h, hunpack, -, -⟩ := unpack_whole (n := 2 ^ 53) (by decide) (Nat.le_refl _)
            refine absurd ?_ hcount.not_lt
            rw [lt_iff_compare, hunpack, hx]
            rfl
    | _ => simp [hx, UnpackedFloat.compare] at hcompare
  · rw [wholesBelow, if_neg hpos]
    exact iff_of_false (not_whole_lt hpos hle) (Nat.not_lt_zero n)

theorem Countable.wholesBelow_le {x : Float} (hcount : Countable x) : wholesBelow x ≤ 2 ^ 53 :=
  Nat.not_lt.mp (mt (hcount.whole_lt_iff (Nat.le_refl _)).mpr hcount.not_lt)

theorem wholesBelow_whole {n : Nat} (hle : n ≤ 2 ^ 53) : wholesBelow (whole n) = n := by
  rcases Nat.eq_zero_or_pos n with rfl | hn
  · rfl
  · obtain ⟨m, e, h, hunpack, -, hunits⟩ := unpack_whole hn hle
    have hmono : ∀ {a b : Nat}, units a 0 < units b 0 ↔ a < b :=
      Nat.mul_lt_mul_right (Nat.two_pow_pos _)
    have hbelow := lt_wholesBelow_iff hunpack (by
      rw [hunits]
      exact Nat.mul_le_mul_right _ hle)
    simp only [hunits, hmono] at hbelow
    exact Nat.le_antisymm (Nat.not_lt.mp fun hlt => by simpa using (hbelow n).mp hlt)
      (Nat.not_lt.mp fun hlt => by simpa using (hbelow _).mpr hlt)

-- A double of the given sign, if it is a number.
def Signed (s : Sign) : UnpackedFloat → Prop
  | .notANumber => True
  | .infinity t | .zero t | .finite t _ _ _ => t = s

theorem signed_unpack (s : Sign) (exponent : BitVec 11) (mantissa : BitVec 52) :
    Signed s (UnpackedFloat.unpack .binary64 (packComponents .binary64 s exponent mantissa)) := by
  simp only [UnpackedFloat.unpack, unpackMantissa_packComponents, unpackExponent_packComponents,
    unpackSign_packComponents, Sign.ofBitVec_toBitVec]
  split
  · split
    · rfl
    · trivial
  · split
    · split <;> rfl
    · rfl

-- Writing a double to its bits keeps its sign.
theorem Signed.pack {s : Sign} {u : UnpackedFloat} (h : Signed s u) :
    Signed s (Float.Model.pack u).unpack := by
  cases u with
  | notANumber =>
      have hnan : (Float.Model.pack .notANumber).unpack = .notANumber := by rfl
      rw [hnan]
      trivial
  | infinity t =>
      cases h
      exact signed_unpack s _ _
  | zero t =>
      cases h
      exact signed_unpack s _ _
  | finite t m e hm =>
      cases h
      simp only [Float.Model.unpack, Float.Model.pack, UnpackedFloat.pack]
      split
      · exact signed_unpack s _ _
      · split
        · exact signed_unpack s _ _
        · exact signed_unpack s _ _

theorem signed_round (s : Sign) (m : Nat) (e : Int) :
    Signed s (UnpackedFloat.round .binary64 s m e) := by
  simp only [UnpackedFloat.round, roundWithAccuracy]
  split <;> rfl

-- A natural number turned around is not positive.
theorem not_pos_neg (n : UInt64) : ¬0 < -n.toFloat := by
  have hpositive : Signed .positive (UnpackedFloat.ofUInt64 .binary64 n) := by
    simp only [UnpackedFloat.ofUInt64, UnpackedFloat.ofNat, UnpackedFloat.ofInt,
      UnpackedFloat.normalize]
    split
    · rename_i hlt
      exact absurd (compare_lt_iff_lt.mp hlt) (by omega)
    · rfl
    · exact signed_round _ _ _
  have hnegative : Signed .negative (-n.toFloat).toModel.unpack := by
    have hread : (-n.toFloat).toModel = Float.Model.pack n.toFloat.toModel.unpack.neg := rfl
    rw [hread]
    refine Signed.pack ?_
    have hback : Signed .positive n.toFloat.toModel.unpack := hpositive.pack
    cases hu : n.toFloat.toModel.unpack with
    | notANumber => trivial
    | _ =>
        rw [hu] at hback
        cases hback
        rfl
  rw [zero_eq, lt_iff_compare, unpack_zero]
  cases hu : (-n.toFloat).toModel.unpack with
  | notANumber => simp [UnpackedFloat.compare]
  | zero t => simp [UnpackedFloat.compare]
  | _ =>
      rw [hu] at hnegative
      cases hnegative
      simp [UnpackedFloat.compare]

theorem ofLong_of_nonneg {n : Int64} (hn : 0 ≤ n.toInt) : ofLong n = whole n.toInt.toNat := by
  have hnot : ¬n < 0 := fun hlt => absurd (Int64.lt_iff_toInt_lt.mp hlt) (by simpa using hn)
  rw [ofLong, if_neg hnot, whole]
  congr 1
  apply UInt64.toNat_inj.mp
  have hbits : n.toInt = n.toUInt64.toNat := by
    have hsign : n.toInt = n.toBitVec.toInt := rfl
    have hnat : n.toUInt64.toNat = n.toBitVec.toNat := rfl
    rw [hsign, BitVec.toInt_eq_toNat_cond] at hn ⊢
    split at hn
    · rw [if_pos (by assumption), hnat]
    · have := n.toBitVec.isLt
      omega
  rw [hbits, Int.toNat_natCast, UInt64.ofNat_toNat]

-- A count that is written down as a whole number.
theorem wholesBelow_ofLong {n : Int64} (hlt : n.toInt < 2 ^ 31) :
    wholesBelow (ofLong n) = n.toInt.toNat := by
  rcases lt_or_ge n.toInt 0 with hneg | hpos
  · have hn : n < 0 := Int64.lt_iff_toInt_lt.mpr hneg
    rw [ofLong, if_pos hn, wholesBelow, if_neg (not_pos_neg _)]
    omega
  · rw [ofLong_of_nonneg hpos, wholesBelow_whole]
    omega

end HostScript.Number
