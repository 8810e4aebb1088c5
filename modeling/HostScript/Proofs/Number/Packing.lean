import HostScript.Proofs.Number.Whole

namespace HostScript.Number

open Float.Model Float.Model.UnpackedFloat

-- What is read from bits: besides the special values, positive and negative numbers that are written
-- canonically and are not too large.
def Packed : UnpackedFloat → Prop
  | .finite _ m e _ => Canonical m e ∧ e ≤ 971
  | _ => True

theorem bias_eq : (Format.binary64.exponentBias : Int) = 1023 := rfl

theorem toNat_implicit (b : BitVec 52) : (1#1 ++ b).toNat = 2 ^ 52 + b.toNat := by
  rw [BitVec.toNat_append, ← Nat.shiftLeft_add_eq_or_of_lt b.isLt]
  simp [Nat.shiftLeft_eq]

theorem packed_unpack (b : BitVec Format.binary64.numBits) :
    Packed (UnpackedFloat.unpack .binary64 b) := by
  have hmantissa : (unpackMantissa b).toNat < 2 ^ 52 := (unpackMantissa b).isLt
  have hexponent : (unpackExponent b).toNat < 2 ^ 11 := (unpackExponent b).isLt
  have happend := toNat_implicit (unpackMantissa b)
  simp only [UnpackedFloat.unpack]
  split
  · split <;> trivial
  · rename_i hspecial
    have hlarge : (unpackExponent b).toNat ≠ 2047 := fun heq =>
      hspecial (BitVec.eq_of_toNat_eq (by simpa using heq))
    split
    · rename_i hzero
      have hleast : (unpackExponent b).toNat = 0 := by rw [hzero]; rfl
      split
      · trivial
      · simp only [Packed, hleast, bias_eq]
        exact ⟨⟨by omega, by omega, .inr (by omega)⟩, by omega⟩
    · rename_i hzero
      have hsmall : (unpackExponent b).toNat ≠ 0 := fun heq =>
        hzero (BitVec.eq_of_toNat_eq (by simpa using heq))
      simp only [Packed, bias_eq]
      exact ⟨⟨by omega, by omega, .inl (by omega)⟩, by omega⟩

-- The numbers without a full mantissa.
theorem unpack_pack_small {s : Sign} {m : Nat} (h : 0 < m) (hm : m < 2 ^ 52) :
    (Float.Model.pack (.finite s m (-1074) h)).unpack = .finite s m (-1074) h := by
  have hlog : m.log2 < 52 := (Nat.log2_lt (by omega)).mpr hm
  have hbiased : (-1074 + (Format.binary64.exponentBias : Int) +
      (Format.binary64.mantissaBitsWithoutImplicit : Int)).toNat = 1 := rfl
  have hbits : Format.binary64.mantissaBits = 53 := rfl
  have hmantissa : (BitVec.ofNat 52 m).toNat = m := by
    rw [BitVec.toNat_ofNat]
    omega
  have hne : BitVec.ofNat 52 m ≠ 0#52 := fun heq => by
    have := congrArg BitVec.toNat heq
    rw [hmantissa] at this
    simp at this
    omega
  simp only [Float.Model.unpack, Float.Model.pack, UnpackedFloat.pack, hbiased, hbits]
  rw [if_neg (by decide), if_neg (by omega)]
  simp only [UnpackedFloat.unpack, unpackMantissa_packComponents, unpackExponent_packComponents,
    unpackSign_packComponents, Sign.ofBitVec_toBitVec]
  rw [if_neg (by decide), if_pos trivial, dif_neg hne]
  simp [hmantissa, bias_eq]

-- Nothing is lost by writing down what was read from bits.
theorem Packed.unpack_pack {u : UnpackedFloat} (h : Packed u) : (Float.Model.pack u).unpack = u := by
  cases u with
  | notANumber => rfl
  | infinity s => cases s <;> rfl
  | zero s => cases s <;> rfl
  | finite s m e hm =>
      by_cases hfull : 2 ^ 52 ≤ m
      · exact Number.unpack_pack hm h.1 hfull h.2
      · obtain rfl : e = -1074 := h.1.full.resolve_left hfull
        exact unpack_pack_small hm (Nat.not_le.mp hfull)

theorem packComponents_unpack {b : BitVec Format.binary64.numBits} {e : BitVec 11} {m : BitVec 52}
    (he : unpackExponent b = e) (hm : unpackMantissa b = m) :
    packComponents .binary64 (Sign.ofBitVec (unpackSign b)) e m = b := by
  have hsign : ∀ v : BitVec 1, (Sign.ofBitVec v).toBitVec = v := by decide
  subst he hm
  simp only [packComponents, hsign, unpackSign, unpackExponent, unpackMantissa, BitVec.extractLsb]
  ext i hi
  grind

-- The bits of a double are determined by what is read from them.
theorem packed_bits {b : BitVec Format.binary64.numBits} (hvalid : Format.binary64.Valid b) :
    UnpackedFloat.pack .binary64 (UnpackedFloat.unpack .binary64 b) = b := by
  have hmantissa : (unpackMantissa b).toNat < 2 ^ 52 := (unpackMantissa b).isLt
  have hexponent : (unpackExponent b).toNat < 2 ^ 11 := (unpackExponent b).isLt
  have happend := toNat_implicit (unpackMantissa b)
  have hbits : Format.binary64.mantissaBits = 53 := rfl
  simp only [UnpackedFloat.unpack]
  split
  · rename_i hspecial
    split
    · rename_i hnone
      exact packComponents_unpack hspecial hnone
    · rename_i hsome
      exact (hvalid.eq_packedNaN hspecial hsome).symm
  · rename_i hspecial
    have hlarge : (unpackExponent b).toNat ≠ 2047 := fun heq =>
      hspecial (BitVec.eq_of_toNat_eq (by simpa using heq))
    split
    · rename_i hzero
      have hleast : (unpackExponent b).toNat = 0 := by rw [hzero]; rfl
      split
      · rename_i hnone
        exact packComponents_unpack hzero hnone
      · rename_i hsome
        have hpos : (unpackMantissa b).toNat ≠ 0 := fun heq =>
          hsome (BitVec.eq_of_toNat_eq (by simpa using heq))
        have hlog : (unpackMantissa b).toNat.log2 < 52 := (Nat.log2_lt hpos).mpr hmantissa
        simp only [UnpackedFloat.pack, hleast, hbits, bias_eq]
        rw [if_neg (by decide), if_neg (by omega), BitVec.ofNat_toNat, BitVec.setWidth_eq]
        exact packComponents_unpack hzero rfl
    · rename_i hzero
      have hsmall : (unpackExponent b).toNat ≠ 0 := fun heq =>
        hzero (BitVec.eq_of_toNat_eq (by simpa using heq))
      have hlog : (1#1 ++ unpackMantissa b).toNat.log2 = 52 :=
        (Nat.log2_eq_iff (by omega)).mpr (by omega)
      have hbiased : ((unpackExponent b).toNat - ((1023 : Int) +
          (Format.binary64.mantissaBitsWithoutImplicit : Int)) + 1023 +
          (Format.binary64.mantissaBitsWithoutImplicit : Int)).toNat = (unpackExponent b).toNat := by
        omega
      simp only [UnpackedFloat.pack, hbits, hlog, bias_eq, hbiased]
      rw [if_neg (by omega), if_pos trivial]
      refine packComponents_unpack ?_ ?_
      · rw [BitVec.ofNat_toNat, BitVec.setWidth_eq]
      · apply BitVec.eq_of_toNat_eq
        have hwidth : 2 ^ Format.binary64.mantissaBitsWithoutImplicit = 2 ^ 52 := rfl
        rw [BitVec.toNat_ofNat, happend, hwidth]
        omega

theorem pack_unpack (x : Float.Model) : Float.Model.pack x.unpack = x := by
  obtain ⟨bits, hvalid⟩ := x
  simp only [Float.Model.pack, Float.Model.unpack, packed_bits hvalid]

theorem eq_of_unpack {x y : Float} (h : x.toModel.unpack = y.toModel.unpack) : x = y := by
  have hmodel : x.toModel = y.toModel := by rw [← pack_unpack x.toModel, h, pack_unpack]
  exact congrArg Float.ofModel hmodel

theorem Packed.neg {u : UnpackedFloat} (h : Packed u) : Packed u.neg := by
  cases u with
  | finite s m e hm => exact h
  | _ => trivial

theorem unpack_neg (x : Float) : (-x).toModel.unpack = x.toModel.unpack.neg :=
  (packed_unpack _).neg.unpack_pack

theorem unpack_ofBits (b : UInt64) :
    (Float.ofBits b).toModel.unpack = UnpackedFloat.unpack .binary64 b.toBitVec :=
  (packed_unpack _).unpack_pack

theorem neg_neg (x : Float) : - -x = x := by
  apply eq_of_unpack
  rw [unpack_neg, unpack_neg]
  cases x.toModel.unpack with
  | notANumber => rfl
  | infinity s => cases s <;> rfl
  | zero s => cases s <;> rfl
  | finite s m e h => cases s <;> rfl

theorem neg_zero_ne : -ofLong 0 ≠ ofLong 0 := by
  intro h
  have hbits := congrArg Float.toBits h
  revert hbits
  decide

theorem neg_least_ne : -ofLong Int64.minValue ≠ ofLong Int64.minValue := by
  intro h
  have hbits := congrArg Float.toBits h
  revert hbits
  decide

-- Turning around a whole number and the double nearest to it is the same, except at the two places
-- where the whole number stays as it is.
theorem neg_ofLong_iff (n : Int64) :
    -ofLong n = ofLong (-n) ↔ n ≠ 0 ∧ n ≠ Int64.minValue := by
  by_cases hzero : n = 0
  · subst hzero
    exact iff_of_false neg_zero_ne fun h => h.1 rfl
  by_cases hleast : n = Int64.minValue
  · subst hleast
    exact iff_of_false neg_least_ne fun h => h.2 rfl
  refine iff_of_true ?_ ⟨hzero, hleast⟩
  have hne : n.toInt ≠ 0 := fun heq => hzero (Int64.toInt_inj.mp heq)
  have hflip : (-n).toInt = -n.toInt := by
    have hlow := Int64.le_toInt n
    have hhigh := Int64.toInt_lt n
    have hbound : n.toInt ≠ -2 ^ 63 := fun heq => hleast (Int64.toInt_inj.mp heq)
    rw [Int64.toInt_neg, Int.bmod_eq_of_le (by omega) (by omega)]
  rcases lt_or_gt_of_ne hne with hneg | hpos
  · have hn : n < 0 := Int64.lt_iff_toInt_lt.mpr hneg
    have hn' : ¬-n < 0 := fun hlt => by
      have := Int64.lt_iff_toInt_lt.mp hlt
      rw [hflip, Int64.toInt_zero] at this
      omega
    rw [ofLong, if_pos hn, ofLong, if_neg hn', neg_neg]
  · have hn : ¬n < 0 := fun hlt => by
      have := Int64.lt_iff_toInt_lt.mp hlt
      rw [Int64.toInt_zero] at this
      omega
    have hn' : -n < 0 := Int64.lt_iff_toInt_lt.mpr (by rw [hflip, Int64.toInt_zero]; omega)
    rw [ofLong, if_neg hn, ofLong, if_pos hn', Int64.neg_neg]

end HostScript.Number
