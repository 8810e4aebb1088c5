import HostScript.Proofs.Number.Packing

namespace HostScript.Number

open Float.Model Float.Model.UnpackedFloat

theorem toNat_unpackMantissa (b : BitVec Format.binary64.numBits) :
    (unpackMantissa b).toNat = b.toNat % 2 ^ 52 := by
  simp [unpackMantissa, BitVec.extractLsb, BitVec.extractLsb'_toNat]

theorem toNat_unpackExponent (b : BitVec Format.binary64.numBits) :
    (unpackExponent b).toNat = b.toNat / 2 ^ 52 % 2 ^ 11 := by
  simp [unpackExponent, BitVec.extractLsb, BitVec.extractLsb'_toNat, Nat.shiftRight_eq_div_pow]

theorem toNat_unpackSign (b : BitVec Format.binary64.numBits) :
    (unpackSign b).toNat = b.toNat / 2 ^ 63 := by
  have hlt : b.toNat < 2 ^ 64 := b.isLt
  simp [unpackSign, BitVec.extractLsb, BitVec.extractLsb'_toNat, Nat.shiftRight_eq_div_pow]
  omega

-- What the bits of a double say, told in two ways.
def Reads : UnpackedFloat → Decoded → Prop
  | .notANumber, d => d = .nan
  | .infinity s, d => d = .infinite (s == .negative)
  | .zero s, d => d = .finite (s == .negative) ⟨0, -1074, false⟩
  | .finite s m e _, d => ∃ gap, d = .finite (s == .negative) ⟨m, e, gap⟩

theorem ofBitVec_unpackSign (bits : UInt64) :
    (Sign.ofBitVec (@unpackSign .binary64 bits.toBitVec) == .negative) =
      isNegative bits := by
  have hsign : ∀ v : BitVec 1, (Sign.ofBitVec v == .negative) = (v.toNat == 1) := by decide
  rw [hsign, toNat_unpackSign]
  rfl

theorem reads_decodeBits (bits : UInt64) :
    Reads (UnpackedFloat.unpack .binary64 bits.toBitVec) (decodeBits bits) := by
  have hm : bits.toNat % Nat.pow 2 52 = (@unpackMantissa .binary64 bits.toBitVec).toNat :=
    (toNat_unpackMantissa bits.toBitVec).symm
  have he : bits.toNat / Nat.pow 2 52 % Nat.pow 2 11 =
      (@unpackExponent .binary64 bits.toBitVec).toNat := (toNat_unpackExponent bits.toBitVec).symm
  have hs := ofBitVec_unpackSign bits
  have happend := toNat_implicit (@unpackMantissa .binary64 bits.toBitVec)
  have hnone : @unpackMantissa .binary64 bits.toBitVec = 0#52 ↔
      (@unpackMantissa .binary64 bits.toBitVec).toNat = 0 := BitVec.toNat_eq
  have hleast : @unpackExponent .binary64 bits.toBitVec = 0#11 ↔
      (@unpackExponent .binary64 bits.toBitVec).toNat = 0 := BitVec.toNat_eq
  have hspecial : @unpackExponent .binary64 bits.toBitVec = -1#11 ↔
      (@unpackExponent .binary64 bits.toBitVec).toNat = 2047 := BitVec.toNat_eq
  simp only [UnpackedFloat.unpack, decodeBits, hm, he, ← hs, bias_eq]
  by_cases h₁ : (@unpackExponent .binary64 bits.toBitVec).toNat = 2047
  · rw [if_pos (hspecial.mpr h₁), if_pos h₁]
    by_cases h₂ : (@unpackMantissa .binary64 bits.toBitVec).toNat = 0
    · rw [if_pos (hnone.mpr h₂), if_pos h₂]
      rfl
    · rw [if_neg (mt hnone.mp h₂), if_neg h₂]
      rfl
  rw [if_neg (mt hspecial.mp h₁), if_neg h₁]
  by_cases h₃ : (@unpackExponent .binary64 bits.toBitVec).toNat = 0
  · rw [if_pos (hleast.mpr h₃), if_pos h₃]
    by_cases h₂ : (@unpackMantissa .binary64 bits.toBitVec).toNat = 0
    · rw [dif_pos (hnone.mpr h₂), h₂]
      rfl
    · rw [dif_neg (mt hnone.mp h₂)]
      simp only [Reads, h₃]
      exact ⟨false, rfl⟩
  · rw [if_neg (mt hleast.mp h₃), if_neg h₃]
    simp only [Reads, happend]
    exact ⟨_, rfl⟩

theorem reads_decode (x : Float) : Reads x.toModel.unpack (decode x) :=
  reads_decodeBits x.toBits

-- A number without a fractional part: its magnitude is a multiple of that of one.
def Integral : UnpackedFloat → Prop
  | .zero _ => True
  | .finite _ m e _ => units 1 0 ∣ units m e
  | _ => False

theorem units_dvd_iff {m : Nat} {e : Int} (h : -1074 ≤ e) :
    units 1 0 ∣ units m e ↔ 0 ≤ e ∨ 2 ^ (-e).toNat ∣ m := by
  rw [units, units, Nat.one_mul]
  rcases le_total 0 e with hle | hle
  · refine iff_of_true (Dvd.dvd.mul_left (Nat.pow_dvd_pow 2 ?_) m) (.inl hle)
    omega
  · have hpow : (2 : Nat) ^ (0 + 1074 : Int).toNat = 2 ^ (-e).toNat * 2 ^ (e + 1074).toNat := by
      rw [← Nat.pow_add]
      congr 1
      omega
    rw [hpow, Nat.mul_dvd_mul_iff_right (Nat.two_pow_pos _)]
    refine ⟨.inr, fun hor => hor.elim (fun hpos => ?_) id⟩
    rw [le_antisymm hle hpos]
    exact Nat.one_dvd m

theorem isWhole_iff (x : Float) : isWhole x = true ↔ Integral x.toModel.unpack := by
  have hreads := reads_decode x
  unfold isWhole
  cases hu : x.toModel.unpack with
  | notANumber =>
      rw [hu] at hreads
      rw [show decode x = _ from hreads]
      simp [Integral]
  | infinity s =>
      rw [hu] at hreads
      rw [show decode x = _ from hreads]
      simp [Integral]
  | zero s =>
      rw [hu] at hreads
      rw [show decode x = _ from hreads]
      simp only [Nat.zero_mod, BEq.rfl, Bool.or_true, Integral]
  | finite s m e h =>
      rw [hu] at hreads
      obtain ⟨gap, hdecode⟩ := hreads
      rw [hdecode, Integral, units_dvd_iff (canonical_of_unpack hu).least]
      simp [Nat.dvd_iff_mod_eq_zero]

theorem isWhole_whole {n : Nat} (hle : n ≤ 2 ^ 53) : isWhole (whole n) = true := by
  rw [isWhole_iff]
  rcases Nat.eq_zero_or_pos n with rfl | hn
  · rw [unpack_zero]
    trivial
  · obtain ⟨m, e, h, hunpack, -, hunits⟩ := unpack_whole hn hle
    rw [hunpack, Integral, hunits, units, units, Nat.one_mul]
    exact Nat.dvd_mul_left _ n

-- Counting up from zero stops being exact at 2 ^ 53, and stays there.
theorem whole_add_one_limit : whole (2 ^ 53) + whole 1 = whole (2 ^ 53) := by
  rfl

-- Whatever is counted up to, the numbers on the way are whole.
theorem exists_whole_add_one {n : Nat} (hle : n ≤ 2 ^ 53) :
    ∃ k ≤ 2 ^ 53, whole n + whole 1 = whole k := by
  rcases Nat.lt_or_eq_of_le hle with hlt | rfl
  · exact ⟨n + 1, hlt, whole_add_one hlt⟩
  · exact ⟨2 ^ 53, Nat.le_refl _, whole_add_one_limit⟩

end HostScript.Number
