import HostScript.Proofs.Code.Codec

namespace HostScript.TypeGuard

variable {ty ty' : Ty} {depth depth' : UInt8} {code : Int32}

theorem idOf_lt_iff : ¬idOf ty < 65536 ↔ ∃ id, ty = .object id ∧ 65535 < id := by
  cases ty with
  | object id =>
      constructor
      · exact fun h => ⟨id, rfl, Nat.not_lt.mp h⟩
      · rintro ⟨_, ⟨⟩, h⟩
        exact Nat.not_lt.mpr h
  | _ => simp [idOf]

-- Only the number of a host type can be too large for an operand.
theorem encodeAt_eq_none_iff :
    encodeAt ty depth = none ↔ ∃ id, ty = .object id ∧ 65535 < id := by
  rw [← idOf_lt_iff, encodeAt, ite_eq_right_iff]
  simp

-- Whether there is an operand does not depend on the depth.
theorem encodeAt_isSome (depth depth' : UInt8) :
    (encodeAt ty depth).isSome = (encodeAt ty depth').isSome := by
  unfold encodeAt
  split <;> rfl

theorem encodeAt_checked (ty : Ty) (depth : UInt8) :
    encodeAt (checked ty) depth = encodeAt ty depth := by
  cases ty <;> rfl

-- The depth fills the highest byte, so that half of the depths make the operand negative.
theorem neg_iff_of_encodeAt (h : encodeAt ty depth = some code) : code < 0 ↔ 128 ≤ depth := by
  unfold encodeAt at h
  split at h
  · rename_i hid
    cases h
    have hkind : kindCode ty < 256 := by cases ty <;> simp [kindCode]
    have hdepth : depth.toNat < 256 := depth.toNat_lt
    have hdeep : 128 ≤ depth ↔ 128 ≤ depth.toNat := UInt8.le_iff_toNat_le
    rw [hdeep, Int32.lt_iff_toInt_lt, Int32.toInt_zero, ← Int32.toInt_toBitVec]
    simp only [UInt32.toBitVec_toInt32, UInt32.toBitVec_ofNat', BitVec.toInt_ofNat']
    rw [Int.bmod_def]
    omega
  · cases h

-- Operands are the same for the same checks only.
theorem encodeAt_eq_iff (h : encodeAt ty depth = some code) :
    encodeAt ty' depth' = some code ↔ checked ty' = checked ty ∧ depth' = depth := by
  constructor
  · intro h'
    have hpair := (decodeAt_encodeAt h').symm.trans (decodeAt_encodeAt h)
    simpa only [Option.some.injEq, Prod.mk.injEq] using hpair
  · rintro ⟨hty, rfl⟩
    rw [← encodeAt_checked, hty, encodeAt_checked, h]

-- What is written into the operand of a check is read back from it, whatever type is checked for and
-- however deep the value lies: both parts together, or the type alone.
theorem encodeAt_round_trip (ty : Ty) (depth : UInt8) :
    (encodeAt ty depth = none ↔ ∃ id, ty = .object id ∧ 65535 < id) ∧
    (encode ty).bind decode = ((encodeAt ty depth).bind decodeAt).map (·.1) ∧
    ∀ code, encodeAt ty depth = some code →
      decodeAt code = some (checked ty, depth) ∧ (code < 0 ↔ 128 ≤ depth) ∧
      ∀ ty' depth', encodeAt ty' depth' = some code ↔ checked ty' = checked ty ∧ depth' = depth := by
  refine ⟨encodeAt_eq_none_iff, ?_, fun code h =>
    ⟨decodeAt_encodeAt h, neg_iff_of_encodeAt h, fun _ _ => encodeAt_eq_iff h⟩⟩
  have hsome : (encode ty).isSome = (encodeAt ty depth).isSome := encodeAt_isSome 0 depth
  cases htop : encode ty with
  | none =>
      rw [htop, Option.isSome_none, eq_comm, Option.isSome_eq_false_iff, Option.isNone_iff_eq_none]
        at hsome
      simp [hsome]
  | some top =>
      rw [htop, Option.isSome_some, eq_comm, Option.isSome_iff_exists] at hsome
      obtain ⟨code, hcode⟩ := hsome
      simp [hcode, decode_encode htop, decodeAt_encodeAt hcode]

-- The last host type that has an operand, at the greatest depth.
theorem encodeAt_round_trip_deepest : encodeAt (.object 65535) 255 = some (-250) ∧
    decodeAt (-250) = some (.object 65535, 255) ∧ (-250 : Int32) < 0 ∧
    ∀ ty depth, encodeAt ty depth = some (-250) ↔ checked ty = .object 65535 ∧ depth = 255 := by
  have hcode : encodeAt (.object 65535) 255 = some (-250) := by decide
  obtain ⟨hread, hnegative, hsame⟩ := (encodeAt_round_trip (.object 65535) 255).2.2 (-250) hcode
  exact ⟨hcode, hread, hnegative.mpr (by decide), hsame⟩

end HostScript.TypeGuard
