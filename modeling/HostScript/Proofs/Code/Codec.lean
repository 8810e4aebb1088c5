import Mathlib
import HostScript.Machine.Step

namespace HostScript

namespace Bytes

-- Code that has the given bytes from a position on.
def Holds (code : Bytes) : Nat → List UInt8 → Prop
  | _, [] => True
  | pos, b :: rest => code[pos]? = some b ∧ Holds code (pos + 1) rest

variable {code : Bytes} {pos : Nat}

theorem holds_append {xs ys : List UInt8} :
    Holds code pos (xs ++ ys) ↔ Holds code pos xs ∧ Holds code (pos + xs.length) ys := by
  induction xs generalizing pos with
  | nil => simp [Holds]
  | cons x xs ih =>
      simp only [List.cons_append, Holds, ih, List.length_cons, and_assoc]
      rw [Nat.add_assoc, Nat.add_comm 1]

theorem holds_iff {bytes : List UInt8} :
    Holds code pos bytes ↔ ∀ k, k < bytes.length → code[pos + k]? = bytes[k]? := by
  induction bytes generalizing pos with
  | nil => simp [Holds]
  | cons b rest ih =>
      simp only [Holds, ih, List.length_cons]
      constructor
      · rintro ⟨hb, hrest⟩ k hk
        cases k with
        | zero => simpa using hb
        | succ k => simpa [Nat.add_assoc, Nat.add_comm 1] using hrest k (by omega)
      · intro h
        refine ⟨by simpa using h 0 (by omega), fun k hk => ?_⟩
        simpa [Nat.add_assoc, Nat.add_comm 1] using h (k + 1) (by omega)

-- A number is read back from its bytes.
theorem nat?_of_holds {count n : Nat} (h : Holds code pos (bytesOf count n))
    (hn : n < 256 ^ count) : nat? code count pos = some n := by
  induction count generalizing pos n with
  | zero =>
      have : n = 0 := by simpa using hn
      simp [nat?, this]
  | succ count ih =>
      obtain ⟨hlow, hhigh⟩ := h
      have hdiv : n / 256 < 256 ^ count := by
        rw [Nat.div_lt_iff_lt_mul (by decide), ← Nat.pow_succ]
        exact hn
      simp only [nat?, hlow, ih hhigh hdiv, Option.bind_eq_bind, Option.bind_some, Option.pure_def,
        Option.some.injEq, UInt8.toNat_ofNat']
      omega

theorem u8?_of_holds {n : UInt8} (h : Holds code pos [n]) : code.u8? pos = some n :=
  h.1

theorem u16?_of_holds {n : UInt16} (h : Holds code pos (bytesOf 2 n.toNat)) :
    code.u16? pos = some n := by
  have hn : n.toNat < 256 ^ 2 := n.toNat_lt
  simp [u16?, nat?_of_holds h hn]

theorem i32?_of_holds {n : Int32} (h : Holds code pos (bytesOfI32 n)) :
    code.i32? pos = some n := by
  have hn : n.toUInt32.toNat < 256 ^ 4 := n.toUInt32.toNat_lt
  rw [i32?, nat?_of_holds h hn, Option.map_some, UInt32.ofNat_toNat, Int32.toInt32_toUInt32]

theorem i64?_of_holds {n : Int64} (h : Holds code pos (bytesOfI64 n)) :
    code.i64? pos = some n := by
  have hn : n.toUInt64.toNat < 256 ^ 8 := n.toUInt64.toNat_lt
  rw [i64?, nat?_of_holds h hn, Option.map_some, UInt64.ofNat_toNat, Int64.toInt64_toUInt64]

theorem f64?_of_holds {x : Float} (h : Holds code pos (bytesOfFloat x)) :
    code.f64? pos = some x := by
  have hn : x.toBits.toNat < 256 ^ 8 := x.toBits.toNat_lt
  rw [f64?, nat?_of_holds h hn, Option.map_some, UInt64.ofNat_toNat, Float.ofBits_toBits]

end Bytes

theorem length_bytesOf (count n : Nat) : (bytesOf count n).length = count := by
  induction count generalizing n with
  | zero => rfl
  | succ count ih => simp [bytesOf, ih]

theorem Opcode.ofByte?_byte (op : Opcode) : Opcode.ofByte? op.byte = some op := by
  cases op <;> rfl

theorem CompiledScript.fetch_of_read {s : CompiledScript} {pc : Nat} {op : Opcode} {i : Instr}
    (hop : s.code[pc]? = some op.byte) (hi : Instr.read? s.code op (pc + 1) = some i) :
    s.fetch pc = .ok (i, pc + 1 + op.operandSize) := by
  simp [fetch, hop, Opcode.ofByte?_byte, hi]

namespace TypeGuard

-- The type a check is made for. Nothing is known to be without a value, so that such a check lets
-- everything through.
def checked : Ty → Ty
  | .void => .dynamic
  | ty => ty

theorem tyOf?_kindCode (ty : Ty) : tyOf? (kindCode ty) (idOf ty) = some (checked ty) := by
  cases ty <;> rfl

theorem decodeAt_encodeAt {ty : Ty} {depth : UInt8} {code : Int32}
    (h : encodeAt ty depth = some code) : decodeAt code = some (checked ty, depth) := by
  unfold encodeAt at h
  split at h
  · rename_i hid
    cases h
    have hkind : kindCode ty < 256 := by cases ty <;> simp [kindCode]
    have hdepth : depth.toNat < 256 := depth.toNat_lt
    have hn : kindCode ty + 256 * idOf ty + 16777216 * depth.toNat < 4294967296 := by omega
    have hlow : (kindCode ty + 256 * idOf ty + 16777216 * depth.toNat) % 256 = kindCode ty := by
      omega
    have hmid : (kindCode ty + 256 * idOf ty + 16777216 * depth.toNat) / 256 % 65536 = idOf ty := by
      omega
    have hhigh : (kindCode ty + 256 * idOf ty + 16777216 * depth.toNat) / 16777216 =
        depth.toNat := by
      omega
    simp only [decodeAt, decode, UInt32.toUInt32_toInt32, UInt32.toNat_ofNat',
      Nat.mod_eq_of_lt hn, hlow, hmid, hhigh, tyOf?_kindCode, Option.map_some, UInt8.ofNat_toNat]
  · cases h

theorem decode_encodeAt {ty : Ty} {depth : UInt8} {code : Int32}
    (h : encodeAt ty depth = some code) : decode code = some (checked ty) := by
  have hboth := decodeAt_encodeAt h
  simp only [decodeAt, Option.map_eq_some_iff, Prod.mk.injEq] at hboth
  obtain ⟨ty', hty, rfl, -⟩ := hboth
  exact hty

theorem decode_encode {ty : Ty} {code : Int32} (h : encode ty = some code) :
    decode code = some (checked ty) :=
  decode_encodeAt h

end TypeGuard

end HostScript
