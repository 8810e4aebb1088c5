import HostScript.Machine.Step
import HostScript.Proofs.Number.Integral

namespace HostScript.Number

open Float.Model Float.Model.UnpackedFloat

-- A value that is not finite, or a number without a fractional part.
def Fractionless (u : UnpackedFloat) : Prop :=
  u.isFinite = true → Integral u

theorem fractionless_of_not_finite {u : UnpackedFloat} (h : u.isFinite = false) : Fractionless u :=
  fun hfinite => absurd (h.symm.trans hfinite) Bool.false_ne_true

theorem fractionless_of_integral {u : UnpackedFloat} (h : Integral u) : Fractionless u :=
  fun _ => h

theorem fractionless_iff (x : Float) :
    Fractionless x.toModel.unpack ↔ isWhole x = x.isFinite := by
  have hread : x.isFinite = x.toModel.unpack.isFinite := rfl
  have hfinite : Integral x.toModel.unpack → x.toModel.unpack.isFinite = true := by
    cases x.toModel.unpack <;> simp [Integral, UnpackedFloat.isFinite]
  rw [hread]
  refine ⟨fun h => Bool.eq_iff_iff.mpr ?_, fun h hx => (isWhole_iff x).mp (h.trans hx)⟩
  rw [isWhole_iff]
  exact ⟨hfinite, h⟩

theorem roundedMantissa_bounds (em : ExtendedMantissa) :
    em.mantissa ≤ em.roundedMantissa ∧ em.roundedMantissa ≤ em.mantissa + 1 := by
  obtain ⟨m, roundBit, stickyBit⟩ := em
  have hodd := Nat.mod_lt m (y := 2) (by decide)
  cases roundBit <;> cases stickyBit <;>
    simp only [ExtendedMantissa.roundedMantissa, ExtendedMantissa.accuracy,
      Accuracy.roundToNearestEven] <;> omega

-- The exponent that a number ends up with unless it is rounded up to a power of two.
theorem targetExponent_eq {m : Nat} {e : Int} (h : 0 ≤ m.log2 + e - 52) :
    Format.binary64.targetExponent (totalExponent m e) = m.log2 + e - 52 := by
  simp only [Format.targetExponent, totalExponent, Format.mantissaBits, Format.minExponent]
  norm_num
  omega

-- The second shift only does something where rounding has made the mantissa too large.
theorem shiftToTargetExponent_canonical {n : Nat} {t : Int} (hfull : 2 ^ 52 ≤ n) (hsmall : n ≤ 2 ^ 53)
    (ht : 0 ≤ t) : Canonical (shiftToTargetExponent .binary64 n t .exact).1.mantissa
        (shiftToTargetExponent .binary64 n t .exact).2 ∧
      2 ^ 52 ≤ (shiftToTargetExponent .binary64 n t .exact).1.mantissa ∧
      0 ≤ (shiftToTargetExponent .binary64 n t .exact).2 := by
  rcases Nat.lt_or_eq_of_le hsmall with hlt | rfl
  · have hlog : n.log2 = 52 := (Nat.log2_eq_iff (by omega)).mpr ⟨hfull, hlt⟩
    have htarget := targetExponent_eq (m := n) (e := t) (by omega)
    simp only [shiftToTargetExponent, shiftToExponent, htarget, mantissa_shiftRight,
      ExtendedMantissa.ofMantissaAndAccuracy]
    have hnothing : ((n.log2 : Int) + t - 52 - t).toNat = 0 := by omega
    rw [hnothing, Nat.pow_zero, Nat.div_one]
    exact ⟨⟨hlt, by omega, .inl hfull⟩, hfull, by omega⟩
  · have hlog : (2 ^ 53).log2 = 53 := Nat.log2_two_pow
    have htarget := targetExponent_eq (m := 2 ^ 53) (e := t) (by omega)
    simp only [shiftToTargetExponent, shiftToExponent, htarget, mantissa_shiftRight,
      ExtendedMantissa.ofMantissaAndAccuracy]
    have hone : (((2 ^ 53).log2 : Int) + t - 52 - t).toNat = 1 := by omega
    rw [hone]
    exact ⟨⟨by decide, by omega, .inl (by decide)⟩, by decide, by omega⟩

-- A number that is too large to have a fractional part once it has been rounded.
theorem roundWithAccuracy_large (s : Sign) {m : Nat} {e : Int} (hm : 52 ≤ m.log2)
    (hlarge : 0 ≤ m.log2 + e - 52) :
    ∃ n f h, roundWithAccuracy .binary64 s m e .exact = .finite s n f h ∧ Canonical n f ∧
      2 ^ 52 ≤ n ∧ 0 ≤ f := by
  have hne : m ≠ 0 := fun h0 => by simp [h0] at hm
  have hshift : (m.log2 + e - 52 - e).toNat = m.log2 - 52 := by omega
  -- All digits but 53 are cut off.
  have hquotient : (shiftToTargetExponent .binary64 m e .exact).1.mantissa = m / 2 ^ (m.log2 - 52) := by
    simp only [shiftToTargetExponent, shiftToExponent, targetExponent_eq hlarge, hshift,
      mantissa_shiftRight, ExtendedMantissa.ofMantissaAndAccuracy]
  have hexponent : (shiftToTargetExponent .binary64 m e .exact).2 = m.log2 + e - 52 := by
    simp only [shiftToTargetExponent, shiftToExponent, targetExponent_eq hlarge]
    omega
  have hlow : 2 ^ 52 ≤ m / 2 ^ (m.log2 - 52) := by
    rw [Nat.le_div_iff_mul_le (Nat.two_pow_pos _), ← Nat.pow_add, Nat.add_sub_cancel' hm]
    exact Nat.log2_self_le hne
  have hhigh : m / 2 ^ (m.log2 - 52) < 2 ^ 53 := by
    rw [Nat.div_lt_iff_lt_mul (Nat.two_pow_pos _), ← Nat.pow_add,
      show 53 + (m.log2 - 52) = m.log2 + 1 by omega]
    exact Nat.lt_log2_self
  obtain ⟨hle, hge⟩ := roundedMantissa_bounds (shiftToTargetExponent .binary64 m e .exact).1
  rw [hquotient] at hle hge
  obtain ⟨hcanonical, hfull, hpos⟩ := shiftToTargetExponent_canonical (hlow.trans hle)
    (hge.trans hhigh) (hexponent ▸ hlarge)
  refine ⟨_, _, Nat.lt_of_lt_of_le (by decide) hfull, ?_, hcanonical, hfull, hpos⟩
  simp only [roundWithAccuracy]
  rw [dif_neg (by omega)]

-- Bits are kept, except that too large a number is infinite.
theorem fractionless_pack {s : Sign} {m : Nat} {e : Int} {h : 0 < m} (hm : Canonical m e)
    (hwhole : units 1 0 ∣ units m e) :
    Fractionless (Float.Model.pack (.finite s m e h)).unpack := by
  rcases le_or_gt e 971 with he | he
  · have hpacked : Packed (.finite s m e h) := ⟨hm, he⟩
    rw [hpacked.unpack_pack]
    exact fractionless_of_integral hwhole
  · have hbiased : (e + Format.binary64.exponentBias +
        Format.binary64.mantissaBitsWithoutImplicit).toNat = (e + 1075).toNat := by
      rw [bias_eq]
      simp only
      omega
    have hinfinite : (Float.Model.pack (.finite s m e h)).unpack = .infinity s := by
      simp only [Float.Model.unpack, Float.Model.pack, UnpackedFloat.pack, hbiased]
      rw [if_pos (by omega)]
      cases s <;> rfl
    rw [hinfinite]
    exact fractionless_of_not_finite rfl

theorem fractionless_pack_zero (s : Sign) : Fractionless (Float.Model.pack (.zero s)).unpack := by
  have hpacked : Packed (.zero s) := trivial
  rw [hpacked.unpack_pack]
  exact fractionless_of_integral trivial

theorem fractionless_roundWithAccuracy (s : Sign) {m : Nat} {e : Int} (hm : 52 ≤ m.log2)
    (hlarge : 0 ≤ m.log2 + e - 52) :
    Fractionless (Float.Model.pack (roundWithAccuracy .binary64 s m e .exact)).unpack := by
  obtain ⟨n, f, h, hround, hcanonical, -, hf⟩ := roundWithAccuracy_large s hm hlarge
  rw [hround]
  exact fractionless_pack hcanonical ((units_dvd_iff hcanonical.least).mpr (.inl hf))

-- A number without a fractional part that is not too large needs no rounding.
theorem fractionless_round_small (s : Sign) {m : Nat} {e : Int} (hm : 0 < m) (he : -1074 ≤ e)
    (hwhole : units 1 0 ∣ units m e) (hsmall : m.log2 + e - 52 ≤ 0) :
    Fractionless (Float.Model.pack (round .binary64 s m e)).unpack := by
  obtain ⟨v, hv⟩ := hwhole
  have hvalue : units v 0 = units m e := by
    rw [hv, units, units, Nat.one_mul, Nat.mul_comm]
  have hpos : 0 < v := Nat.pos_of_ne_zero fun h0 => by
    rw [h0, Nat.mul_zero, units] at hv
    exact absurd hv (Nat.mul_pos hm (Nat.two_pow_pos _)).ne'
  have hbound : v < 2 ^ 53 := by
    refine Nat.lt_of_mul_lt_mul_left (a := units 1 0) ?_
    calc units 1 0 * v = m * 2 ^ (e + 1074).toNat := hv.symm
      _ < 2 ^ (m.log2 + 1) * 2 ^ (e + 1074).toNat :=
        Nat.mul_lt_mul_of_pos_right Nat.lt_log2_self (Nat.two_pow_pos _)
      _ = 2 ^ (m.log2 + 1 + (e + 1074).toNat) := (Nat.pow_add _ _ _).symm
      _ ≤ 2 ^ ((0 + 1074 : Int).toNat + 53) := Nat.pow_le_pow_right (by decide) (by omega)
      _ = units 1 0 * 2 ^ 53 := by rw [units, Nat.one_mul, Nat.pow_add]
  obtain ⟨n, f, hcanonical, hfull, -, hunits⟩ := exists_full hpos hbound.le
  have hn : 0 < n := Nat.lt_of_lt_of_le (by decide) hfull
  rw [round_exact s hn hcanonical hfull he (hvalue.symm.trans hunits.symm)]
  refine fractionless_pack hcanonical ?_
  rw [hunits, hvalue, hv]
  exact Nat.dvd_mul_right _ _

-- Rounding leaves no fractional part where there was none: below 2 ^ 53 nothing is rounded, and from
-- there on all doubles are whole.
theorem fractionless_round (s : Sign) {m : Nat} {e : Int} (hm : 0 < m) (he : -1074 ≤ e)
    (hwhole : units 1 0 ∣ units m e) :
    Fractionless (Float.Model.pack (round .binary64 s m e)).unpack := by
  rcases le_total ((m.log2 : Int) + e - 52) 0 with hsmall | hlarge
  · exact fractionless_round_small s hm he hwhole hsmall
  · have hlog : (m <<< (e - (m.log2 + e - 52)).toNat).log2 =
        m.log2 + (e - (m.log2 + e - 52)).toNat := by
      rw [Nat.shiftLeft_eq, log2_mul_two_pow hm.ne']
    simp only [UnpackedFloat.round, targetExponent_eq hlarge, decreaseExponent]
    exact fractionless_roundWithAccuracy s (by omega) (by omega)

theorem fractionless_normalize {m e : Int} (zeroSign : Sign) (he : -1074 ≤ e)
    (hwhole : units 1 0 ∣ units m.natAbs e) :
    Fractionless (Float.Model.pack (UnpackedFloat.normalize .binary64 m e zeroSign)).unpack := by
  unfold UnpackedFloat.normalize
  split
  · rename_i hneg
    have hlt := compare_lt_iff_lt.mp hneg
    rw [show (-m).toNat = m.natAbs by omega]
    exact fractionless_round _ (by omega) he hwhole
  · exact fractionless_pack_zero zeroSign
  · rename_i hpos
    have hgt := compare_gt_iff_gt.mp hpos
    rw [show m.toNat = m.natAbs by omega]
    exact fractionless_round _ (by omega) he hwhole

theorem fractionless_neg {u : UnpackedFloat} (h : Fractionless u) : Fractionless u.neg := by
  cases u <;> exact h

-- Numbers without fractional parts have none when they are put together, at whatever exponent.
theorem units_dvd_natAbs {m n e : Int} (hm : units 1 0 ∣ units m.natAbs e)
    (hn : units 1 0 ∣ units n.natAbs e) : units 1 0 ∣ units (m + n).natAbs e := by
  have hcast : ∀ k : Int, units k.natAbs e = (k * 2 ^ (e + 1074).toNat).natAbs := fun k => by
    rw [units, Int.natAbs_mul, Int.natAbs_pow]
    rfl
  rw [hcast, ← Int.natCast_dvd] at hm hn ⊢
  rw [Int.add_mul]
  exact dvd_add hm hn

theorem fractionless_pack_of_packed {u : UnpackedFloat} (hu : Packed u) (h : Fractionless u) :
    Fractionless (Float.Model.pack u).unpack := by
  rwa [hu.unpack_pack]

theorem fractionless_pack_special {u : UnpackedFloat} (hu : Packed u) (h : u.isFinite = false) :
    Fractionless (Float.Model.pack u).unpack :=
  fractionless_pack_of_packed hu (fractionless_of_not_finite h)

theorem units_dvd_apply (s : Sign) {m : Nat} {e : Int} (h : units 1 0 ∣ units m e) :
    units 1 0 ∣ units (s.apply m).natAbs e := by
  cases s <;> simpa [Sign.apply] using h

theorem fractionless_add {u v : UnpackedFloat} (hu : Packed u) (hv : Packed v) (hu' : Fractionless u)
    (hv' : Fractionless v) :
    Fractionless (Float.Model.pack (UnpackedFloat.add .binary64 u v)).unpack := by
  unfold UnpackedFloat.add
  split
  · exact fractionless_pack_special trivial rfl
  · exact fractionless_pack_special trivial rfl
  · split
    · exact fractionless_pack_special trivial rfl
    · exact fractionless_pack_special trivial rfl
  · exact fractionless_pack_special trivial rfl
  · exact fractionless_pack_special trivial rfl
  · split <;> exact fractionless_pack_zero _
  · exact fractionless_pack_of_packed hv hv'
  · exact fractionless_pack_of_packed hu hu'
  · rename_i s₁ m₁ e₁ h₁ s₂ m₂ e₂ h₂
    have hleast : -1074 ≤ min e₁ e₂ := le_min hu.1.least hv.1.least
    have hleft : units 1 0 ∣ units (decreaseExponent m₁ e₁ (min e₁ e₂)).1 (min e₁ e₂) := by
      rw [units_decreaseExponent (min_le_left e₁ e₂) hleast]
      exact hu' rfl
    have hright : units 1 0 ∣ units (decreaseExponent m₂ e₂ (min e₁ e₂)).1 (min e₁ e₂) := by
      rw [units_decreaseExponent (min_le_right e₁ e₂) hleast]
      exact hv' rfl
    exact fractionless_normalize _ hleast
      (units_dvd_natAbs (units_dvd_apply s₁ hleft) (units_dvd_apply s₂ hright))

theorem sub_eq_add_neg (u v : UnpackedFloat) :
    UnpackedFloat.sub .binary64 u v = UnpackedFloat.add .binary64 u v.neg := by
  cases u with
  | finite s₁ m₁ e₁ h₁ =>
      cases v with
      | finite s₂ m₂ e₂ h₂ =>
          cases s₂ with
          | positive => rfl
          | negative =>
              simp only [UnpackedFloat.sub, UnpackedFloat.add, UnpackedFloat.neg, Sign.apply,
                Int.sub_neg]
      | _ => rfl
  | _ => cases v <;> rfl

-- A number without a fractional part has a full mantissa, and not too small an exponent.
theorem Canonical.of_integral {m : Nat} {e : Int} (h : Canonical m e) (hm : 0 < m)
    (hwhole : units 1 0 ∣ units m e) :
    2 ^ 52 ≤ m ∧ -52 ≤ e ∧ 2 ^ (-e).toNat ∣ m := by
  have hdvd : 2 ^ (-e).toNat ∣ m := by
    rcases (units_dvd_iff h.least).mp hwhole with hpos | hdvd
    · rw [show (-e).toNat = 0 by omega]
      exact Nat.one_dvd m
    · exact hdvd
  have hexponent : (-e).toNat < 53 := (Nat.pow_lt_pow_iff_right (by decide)).mp
    ((Nat.le_of_dvd hm hdvd).trans_lt h.small)
  exact ⟨h.full.resolve_right (by omega), by omega, hdvd⟩

theorem round_eq_roundWithAccuracy (s : Sign) {m : Nat} {e : Int} (hm : 52 ≤ m.log2) :
    round .binary64 s m e = roundWithAccuracy .binary64 s m e .exact := by
  have hnothing : (e - Format.binary64.targetExponent (totalExponent m e)).toNat = 0 := by
    simp only [Format.targetExponent, totalExponent, Format.mantissaBits, Format.minExponent]
    norm_num
    omega
  simp only [UnpackedFloat.round, decreaseExponent, hnothing, Nat.shiftLeft_zero,
    Int.natCast_zero, Int.sub_zero]

theorem fractionless_mul {u v : UnpackedFloat} (hu : Packed u) (hv : Packed v) (hu' : Fractionless u)
    (hv' : Fractionless v) :
    Fractionless (Float.Model.pack (UnpackedFloat.mul .binary64 u v)).unpack := by
  unfold UnpackedFloat.mul
  split
  · exact fractionless_pack_special trivial rfl
  · exact fractionless_pack_special trivial rfl
  · exact fractionless_pack_special trivial rfl
  · exact fractionless_pack_special trivial rfl
  · exact fractionless_pack_special trivial rfl
  · exact fractionless_pack_special trivial rfl
  · exact fractionless_pack_special trivial rfl
  · exact fractionless_pack_zero _
  · exact fractionless_pack_zero _
  · exact fractionless_pack_zero _
  · rename_i s₁ m₁ e₁ h₁ s₂ m₂ e₂ h₂
    obtain ⟨hfull₁, he₁, hdvd₁⟩ := hu.1.of_integral h₁ (hu' rfl)
    obtain ⟨hfull₂, he₂, hdvd₂⟩ := hv.1.of_integral h₂ (hv' rfl)
    have hpos : 0 < m₁ * m₂ := Nat.mul_pos h₁ h₂
    have hlog : 52 ≤ (m₁ * m₂).log2 := by
      rw [Nat.le_log2 hpos.ne']
      exact hfull₁.trans (Nat.le_mul_of_pos_right m₁ h₂)
    have hdvd : 2 ^ (-(e₁ + e₂)).toNat ∣ m₁ * m₂ := by
      refine (Nat.pow_dvd_pow 2 ?_).trans ((Nat.pow_add 2 _ _).symm ▸ Nat.mul_dvd_mul hdvd₁ hdvd₂)
      omega
    rw [← round_eq_roundWithAccuracy _ hlog]
    exact fractionless_round _ hpos (by omega) ((units_dvd_iff (by omega)).mpr (.inr hdvd))

theorem fractionless_ofLong (n : Int64) : Fractionless (ofLong n).toModel.unpack := by
  have hunsigned : ∀ k : UInt64, Fractionless k.toFloat.toModel.unpack := fun k =>
    fractionless_normalize _ (by decide) ((units_dvd_iff (by decide)).mpr (.inl (Int.le_refl 0)))
  unfold ofLong
  split
  · rw [unpack_neg]
    exact fractionless_neg (hunsigned _)
  · exact hunsigned _

-- A finite number is read from its exponent and its digits, whichever its sign.
theorem decodeBits_finite {bits : UInt64} {negative gap : Bool} {m : Nat} {e : Int}
    (h : decodeBits bits = .finite negative ⟨m, e, gap⟩) :
    (bits.toNat % 2 ^ 63 / 2 ^ 52 = 0 ∧ m = bits.toNat % 2 ^ 52) ∨
    (0 < bits.toNat % 2 ^ 63 / 2 ^ 52 ∧ m = 2 ^ 52 + bits.toNat % 2 ^ 52 ∧
      e = (bits.toNat % 2 ^ 63 / 2 ^ 52 : Nat) - 1075) := by
  have hexponent : bits.toNat / Nat.pow 2 52 % Nat.pow 2 11 = bits.toNat % 2 ^ 63 / 2 ^ 52 := by
    simp only [Nat.pow_eq]
    omega
  simp only [decodeBits, hexponent] at h
  split at h
  · split at h <;> cases h
  · split at h
    · cases h
      exact .inl ⟨‹_›, rfl⟩
    · cases h
      exact .inr ⟨Nat.pos_of_ne_zero ‹_›, rfl, rfl⟩

-- What is read from bits is whole if its exponent is not negative, or its digits end early.
theorem fractionless_unpack {bits : UInt64}
    (h : ∀ negative m e gap, decodeBits bits = .finite negative ⟨m, e, gap⟩ →
      0 ≤ e ∨ 2 ^ (-e).toNat ∣ m) :
    Fractionless (UnpackedFloat.unpack .binary64 bits.toBitVec) := by
  have hreads := reads_decodeBits bits
  have hpacked := packed_unpack bits.toBitVec
  intro hfinite
  cases hu : UnpackedFloat.unpack .binary64 bits.toBitVec with
  | notANumber => simp [hu, UnpackedFloat.isFinite] at hfinite
  | infinity s => simp [hu, UnpackedFloat.isFinite] at hfinite
  | zero s => trivial
  | finite s m e hm =>
      rw [hu] at hreads hpacked
      obtain ⟨gap, hdecode⟩ := hreads
      exact (units_dvd_iff hpacked.1.least).mpr (h _ m e gap hdecode)

theorem scaleUp_div {v k : Nat} (e : Int) :
    scaleUp (v * 2 ^ k) (-e) / scaleUp (2 ^ k) e = v * 2 ^ (-e).toNat / 2 ^ e.toNat := by
  simp only [scaleUp, Nat.pow_eq]
  rw [Nat.mul_right_comm, Nat.mul_comm (2 ^ k), Nat.mul_div_mul_right _ _ (Nat.two_pow_pos k)]

-- The first bits of a number, as many as asked for.
theorem first_bits {v n : Nat} (hv : 0 < v) {e : Int} (he : e = v.log2 - n) :
    2 ^ n ≤ v * 2 ^ (-e).toNat / 2 ^ e.toNat ∧ v * 2 ^ (-e).toNat / 2 ^ e.toNat < 2 ^ (n + 1) := by
  rw [Nat.le_div_iff_mul_le (Nat.two_pow_pos _), Nat.div_lt_iff_lt_mul (Nat.two_pow_pos _),
    ← Nat.pow_add, ← Nat.pow_add]
  have hlow : 2 ^ v.log2 * 2 ^ (-e).toNat ≤ v * 2 ^ (-e).toNat :=
    Nat.mul_le_mul_right _ (Nat.log2_self_le hv.ne')
  have hhigh : v * 2 ^ (-e).toNat < 2 ^ (v.log2 + 1) * 2 ^ (-e).toNat :=
    Nat.mul_lt_mul_of_pos_right Nat.lt_log2_self (Nat.two_pow_pos _)
  rw [← Nat.pow_add] at hlow hhigh
  rw [show n + e.toNat = v.log2 + (-e).toNat by omega,
    show n + 1 + e.toNat = v.log2 + 1 + (-e).toNat by omega]
  exact ⟨hlow, hhigh⟩

-- A quotient is rounded up only if something is left over.
theorem rounded_cases (top bottom : Nat) (hbottom : 0 < bottom) :
    (if 2 * (top % bottom) > bottom || (2 * (top % bottom) == bottom && top / bottom % 2 == 1) then
        top / bottom + 1 else top / bottom) = top / bottom ∨
      top % bottom ≠ 0 ∧
      (if 2 * (top % bottom) > bottom || (2 * (top % bottom) == bottom && top / bottom % 2 == 1) then
        top / bottom + 1 else top / bottom) = top / bottom + 1 := by
  by_cases hleft : top % bottom = 0
  · refine .inl (if_neg ?_)
    rw [hleft]
    simpa using fun h : 0 = bottom => absurd h hbottom.ne
  · split
    · exact .inr ⟨hleft, rfl⟩
    · exact .inl rfl

-- The bits of a whole number that is given as a fraction. Digits are only lost above 2 ^ 53.
theorem nearestBits_whole {v k : Nat} (hv : 0 < v) {e : Int} (he : e = v.log2 - 52) :
    ∃ q, 2 ^ 52 ≤ q ∧ q ≤ 2 ^ 53 ∧ (e ≤ 0 → q = v * 2 ^ (-e).toNat ∧ q < 2 ^ 53) ∧
      nearestBits (v * 2 ^ k) (2 ^ k) =
        min ((e + 1075).toNat * 2 ^ 52 + (q - 2 ^ 52)) (2047 * 2 ^ 52) := by
  have hnum : v * 2 ^ k ≠ 0 := (Nat.mul_pos hv (Nat.two_pow_pos k)).ne'
  have hden : 2 ^ k ≠ 0 := (Nat.two_pow_pos k).ne'
  have hlog : (v * 2 ^ k).log2 = v.log2 + k := log2_mul_two_pow hv.ne' k
  have hguess : ((v.log2 + k : Nat) : Int) - (k : Nat) - 53 = e - 1 := by omega
  have hfit : ¬scaleUp (v * 2 ^ k) (-(e - 1)) / scaleUp (2 ^ k) (e - 1) < 2 ^ 53 := by
    rw [scaleUp_div]
    exact Nat.not_lt.mpr (first_bits hv (by omega)).1
  have hleast : max (e - 1 + 1) (-1074) = e := by omega
  obtain ⟨hlow, hhigh⟩ : 2 ^ 52 ≤ scaleUp (v * 2 ^ k) (-e) / scaleUp (2 ^ k) e ∧
      scaleUp (v * 2 ^ k) (-e) / scaleUp (2 ^ k) e < 2 ^ 53 := by
    rw [scaleUp_div]
    exact first_bits hv he
  have hexact : e ≤ 0 → scaleUp (v * 2 ^ k) (-e) % scaleUp (2 ^ k) e = 0 ∧
      scaleUp (v * 2 ^ k) (-e) / scaleUp (2 ^ k) e = v * 2 ^ (-e).toNat := fun hneg => by
    have hnothing : e.toNat = 0 := by omega
    constructor
    · simp only [scaleUp, Nat.pow_eq, hnothing, Nat.pow_zero, Nat.mul_one]
      rw [Nat.mul_right_comm]
      exact Nat.mul_mod_left _ _
    · rw [scaleUp_div, hnothing, Nat.pow_zero, Nat.div_one]
  have hbottom : 0 < scaleUp (2 ^ k) e := Nat.mul_pos (Nat.two_pow_pos k) (Nat.two_pow_pos _)
  unfold nearestBits
  rw [if_neg (by simp [hnum])]
  simp only [hlog, Nat.log2_two_pow, hguess, Nat.pow_eq, if_neg hfit, hleast]
  rcases rounded_cases (scaleUp (v * 2 ^ k) (-e)) (scaleUp (2 ^ k) e) hbottom with hq | ⟨hleft, hq⟩
  · rw [hq, if_neg (by omega)]
    exact ⟨_, hlow, hhigh.le, fun hneg => ⟨(hexact hneg).2, hhigh⟩, rfl⟩
  · rw [hq, if_neg (by omega)]
    exact ⟨_, hlow.trans (Nat.le_succ _), hhigh, fun hneg => absurd (hexact hneg).1 hleft, rfl⟩

-- The double nearest to a whole number is whole.
theorem fractionless_ofRatio (negative : Bool) (v k : Nat) :
    Fractionless (ofRatio negative (v * 2 ^ k) (2 ^ k)).toModel.unpack := by
  have hbits : ∀ b ≤ 2047 * 2 ^ 52, (UInt64.ofNat (b + if negative then Nat.pow 2 63 else 0)).toNat =
      b + if negative then 2 ^ 63 else 0 := by
    intro b hb
    rw [UInt64.toNat_ofNat', Nat.pow_eq]
    split <;> omega
  rw [ofRatio, unpack_ofBits]
  refine fractionless_unpack fun sign m e gap hdecode => ?_
  rcases Nat.eq_zero_or_pos v with rfl | hv
  · have hzero : nearestBits (0 * 2 ^ k) (2 ^ k) = 0 := by simp [nearestBits]
    have hread := decodeBits_finite hdecode
    rw [hzero, hbits 0 (Nat.zero_le _)] at hread
    have hm : m = 0 := by
      split at hread <;> omega
    exact .inr (hm ▸ Nat.dvd_zero _)
  · obtain ⟨q, hlow, hhigh, hexact, hnearest⟩ := nearestBits_whole (k := k) hv rfl
    have hread := decodeBits_finite hdecode
    rw [hbits _ (hnearest.trans_le (Nat.min_le_right _ _)), hnearest] at hread
    rcases le_or_gt ((v.log2 : Int) - 52) 0 with hneg | hpos
    · obtain ⟨hq, hlt⟩ := hexact hneg
      have he : e = v.log2 - 52 ∧ m = q := by
        split at hread <;> omega
      rw [he.1, he.2, hq]
      exact .inr (Nat.dvd_mul_left _ v)
    · refine .inl ?_
      split at hread <;> omega

theorem Fractionless.of_decode {x : Float} {negative : Bool} {m : Magnitude}
    (hx : Fractionless x.toModel.unpack) (h : decode x = .finite negative m) :
    2 ^ (-m.exponent).toNat ∣ m.mantissa := by
  have hreads := reads_decode x
  rw [h] at hreads
  cases hu : x.toModel.unpack with
  | notANumber =>
      rw [hu] at hreads
      cases hreads
  | infinity s =>
      rw [hu] at hreads
      cases hreads
  | zero s =>
      rw [hu] at hreads
      cases hreads
      exact Nat.dvd_zero _
  | finite s n e hn =>
      rw [hu] at hreads hx
      obtain ⟨gap, heq⟩ := hreads
      cases heq
      exact ((canonical_of_unpack hu).of_integral hn (hx rfl)).2.2

theorem dvd_scaleUp {m : Nat} {e target : Int} (hle : target ≤ e) (h : 2 ^ (-e).toNat ∣ m) :
    2 ^ (-target).toNat ∣ scaleUp m (e - target) := by
  have hpow : 2 ^ (-target).toNat ∣ 2 ^ (-e).toNat * 2 ^ (e - target).toNat := by
    rw [← Nat.pow_add]
    exact Nat.pow_dvd_pow 2 (by omega)
  exact hpow.trans (Nat.mul_dvd_mul_right h _)

theorem fractionless_nan : Fractionless nan.toModel.unpack := by
  have hnan : nan.toModel.unpack = .notANumber := rfl
  rw [hnan]
  exact fractionless_of_not_finite rfl

-- What is left of a whole number when whole ones are taken away is whole.
theorem fractionless_remainder {x y : Float} (hx : Fractionless x.toModel.unpack)
    (hy : Fractionless y.toModel.unpack) : Fractionless (remainder x y).toModel.unpack := by
  unfold remainder
  split
  · rename_i negative m sign n hm hn
    split
    · exact fractionless_nan
    · have hleft := dvd_scaleUp (Int.min_le_left m.exponent n.exponent) (hx.of_decode hm)
      have hright := dvd_scaleUp (Int.min_le_right m.exponent n.exponent) (hy.of_decode hn)
      obtain ⟨v, hv⟩ := (Nat.dvd_mod_iff hright).mpr hleft
      have hnum : ∀ e : Int, scaleUp (2 ^ (-e).toNat * v) e = v * 2 ^ e.toNat * 2 ^ (-e).toNat := by
        intro e
        simp only [scaleUp, Nat.pow_eq]
        ring
      have hden : ∀ e : Int, scaleUp 1 (-e) = 2 ^ (-e).toNat := fun e => Nat.one_mul _
      simp only [hv, hnum, hden]
      exact fractionless_ofRatio negative _ _
  · exact hx
  · exact fractionless_nan

-- Arithmetic on whole numbers gives a whole number again, unless it is too large or there is none.
theorem fractionless_apply {op : Arith} (hop : op ≠ .div) {x y : Float}
    (hx : Fractionless x.toModel.unpack) (hy : Fractionless y.toModel.unpack) :
    Fractionless (op.apply x y).toModel.unpack := by
  cases op with
  | add => exact fractionless_add (packed_unpack _) (packed_unpack _) hx hy
  | sub =>
      have hsub : (Arith.sub.apply x y).toModel.unpack =
        (Float.Model.pack (UnpackedFloat.sub .binary64 x.toModel.unpack y.toModel.unpack)).unpack := rfl
      rw [hsub, sub_eq_add_neg]
      exact fractionless_add (packed_unpack _) (packed_unpack _).neg hx (fractionless_neg hy)
  | mul => exact fractionless_mul (packed_unpack _) (packed_unpack _) hx hy
  | div => exact absurd rfl hop
  | mod => exact fractionless_remainder hx hy

end HostScript.Number
