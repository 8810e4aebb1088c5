import HostScript.Proofs.Code.Codec

namespace HostScript

-- How the operands of an instruction are laid out behind its byte.
inductive OperandLayout where
  | none
  | u8
  | u16
  | u16Pair
  | i32
  | i32Pair
  | i64
  | f64
  deriving DecidableEq, Repr

def OperandLayout.size : OperandLayout → Nat
  | .none => 0
  | .u8 => 1
  | .u16 => 2
  | .u16Pair | .i32 => 4
  | .i32Pair | .i64 | .f64 => 8

def Opcode.layout : Opcode → OperandLayout
  | .loadLoc | .loadLocNoRef | .setLoc | .setLocNoRef => .u8
  | .pushString | .getDynamicProperty | .setDynamicProperty => .u16
  | .invokeDynamic => .u16Pair
  | .jump | .jumpIfFalse | .jumpIfTrue | .invoke | .invokeStatic | .getProperty | .setProperty
  | .getStaticProperty | .setStaticProperty | .new | .checkType | .peekCheckType | .loopNum => .i32
  | .loop => .i32Pair
  | .pushLong => .i64
  | .pushDouble => .f64
  | _ => .none

-- Operands as they are written, before anything is made of them.
inductive Operands where
  | none
  | u8 (n : UInt8)
  | u16 (n : UInt16)
  | u16Pair (m n : UInt16)
  | i32 (n : Int32)
  | i32Pair (m n : Int32)
  | i64 (n : Int64)
  | f64 (x : Float)

namespace Operands

def layout : Operands → OperandLayout
  | .none => .none
  | .u8 _ => .u8
  | .u16 _ => .u16
  | .u16Pair _ _ => .u16Pair
  | .i32 _ => .i32
  | .i32Pair _ _ => .i32Pair
  | .i64 _ => .i64
  | .f64 _ => .f64

def bytes : Operands → List UInt8
  | .none => []
  | .u8 n => [n]
  | .u16 n => bytesOf 2 n.toNat
  | .u16Pair m n => bytesOf 2 m.toNat ++ bytesOf 2 n.toNat
  | .i32 n => bytesOfI32 n
  | .i32Pair m n => bytesOfI32 m ++ bytesOfI32 n
  | .i64 n => bytesOfI64 n
  | .f64 x => bytesOfFloat x

end Operands

-- The operands at a position, read as their layout says.
def OperandLayout.read? (code : Bytes) (pos : Nat) : OperandLayout → Option Operands
  | .none => some .none
  | .u8 => (code.u8? pos).map .u8
  | .u16 => (code.u16? pos).map .u16
  | .u16Pair => do return .u16Pair (← code.u16? pos) (← code.u16? (pos + 2))
  | .i32 => (code.i32? pos).map .i32
  | .i32Pair => do return .i32Pair (← code.i32? pos) (← code.i32? (pos + 4))
  | .i64 => (code.i64? pos).map .i64
  | .f64 => (code.f64? pos).map .f64

-- An instruction as it is written.
structure Written where
  op : Opcode
  operands : Operands

namespace Written

def bytes (i : Written) : List UInt8 :=
  i.op.byte :: i.operands.bytes

-- The operands are the ones that the instruction takes.
def Fitting (i : Written) : Prop :=
  i.op.layout = i.operands.layout

end Written

-- All instructions from a position on. Nothing when a byte stands for none, or the code ends within
-- one.
def Bytes.instructions? (code : Bytes) (pos : Nat) : Option (List Written) :=
  if h : pos < code.size then do
    let op ← Opcode.ofByte? code[pos]
    let operands ← op.layout.read? code (pos + 1)
    let rest ← instructions? code (pos + 1 + op.operandSize)
    return ⟨op, operands⟩ :: rest
  else some []
termination_by code.size - pos

theorem Opcode.size_layout (op : Opcode) : op.layout.size = op.operandSize := by
  cases op <;> rfl

theorem length_bytesOfI32 (n : Int32) : (bytesOfI32 n).length = 4 :=
  length_bytesOf _ _

namespace Operands

variable {code : Bytes} {pos : Nat}

theorem length_bytes (os : Operands) : os.bytes.length = os.layout.size := by
  cases os <;> simp [bytes, layout, OperandLayout.size, bytesOfI32, bytesOfI64, bytesOfFloat,
    length_bytesOf]

-- Operands are read back from their bytes.
theorem read?_of_holds (os : Operands) (h : code.Holds pos os.bytes) :
    os.layout.read? code pos = some os := by
  cases os with
  | none => rfl
  | u8 n => simp [layout, OperandLayout.read?, Bytes.u8?_of_holds h]
  | u16 n => simp [layout, OperandLayout.read?, Bytes.u16?_of_holds h]
  | u16Pair m n =>
      obtain ⟨hm, hn⟩ := Bytes.holds_append.mp h
      rw [length_bytesOf] at hn
      simp [layout, OperandLayout.read?, Bytes.u16?_of_holds hm, Bytes.u16?_of_holds hn]
  | i32 n => simp [layout, OperandLayout.read?, Bytes.i32?_of_holds h]
  | i32Pair m n =>
      obtain ⟨hm, hn⟩ := Bytes.holds_append.mp h
      rw [length_bytesOfI32] at hn
      simp [layout, OperandLayout.read?, Bytes.i32?_of_holds hm, Bytes.i32?_of_holds hn]
  | i64 n => simp [layout, OperandLayout.read?, Bytes.i64?_of_holds h]
  | f64 x => simp [layout, OperandLayout.read?, Bytes.f64?_of_holds h]

end Operands

theorem Bytes.holds_of_toList {code : Bytes} {front bytes rest : List UInt8}
    (h : code.toList = front ++ (bytes ++ rest)) : code.Holds front.length bytes := by
  refine Bytes.holds_iff.mpr fun k hk => ?_
  rw [← Array.getElem?_toList, h, List.getElem?_append_right (by omega), Nat.add_sub_cancel_left,
    List.getElem?_append_left hk]

-- Instructions are read back from their bytes, wherever they end the code.
theorem Bytes.instructions?_eq {code : Bytes} {front : List UInt8} {is : List Written}
    (h : code.toList = front ++ is.flatMap Written.bytes) (hf : ∀ i ∈ is, i.Fitting) :
    code.instructions? front.length = some is := by
  induction is generalizing front with
  | nil =>
      have hsize : code.size = front.length := by
        simpa using congrArg List.length h
      rw [instructions?, dif_neg (by omega)]
  | cons i rest ih =>
      obtain ⟨hfit, hrest⟩ := List.forall_mem_cons.mp hf
      rw [List.flatMap_cons] at h
      obtain ⟨hop, hoperands⟩ := holds_of_toList h
      obtain ⟨hlt, hbyte⟩ := Array.getElem?_eq_some_iff.mp hop
      have hread := i.operands.read?_of_holds hoperands
      have hlen : i.operands.bytes.length = i.op.operandSize := by
        rw [Operands.length_bytes, ← hfit, Opcode.size_layout]
      have hbehind : code.toList = (front ++ i.bytes) ++ rest.flatMap Written.bytes := by
        simpa using h
      have hnext := ih hbehind hrest
      have hpos : (front ++ i.bytes).length = front.length + 1 + i.op.operandSize := by
        simp [Written.bytes, hlen]
        omega
      rw [hpos] at hnext
      rw [instructions?, dif_pos hlt, hbyte, Opcode.ofByte?_byte]
      simp only [Option.bind_eq_bind, Option.bind_some]
      rw [hfit, hread, hnext]
      rfl

namespace OperandLayout

variable {code code' : Bytes} {pos pos' : Nat}

theorem u8?_eq (h : read? code pos .u8 = read? code' pos' .u8) : code.u8? pos = code'.u8? pos' :=
  Option.map_injective (fun _ _ => Operands.u8.inj) h

theorem u16?_eq (h : read? code pos .u16 = read? code' pos' .u16) :
    code.u16? pos = code'.u16? pos' :=
  Option.map_injective (fun _ _ => Operands.u16.inj) h

theorem i32?_eq (h : read? code pos .i32 = read? code' pos' .i32) :
    code.i32? pos = code'.i32? pos' :=
  Option.map_injective (fun _ _ => Operands.i32.inj) h

-- Two reads behind each other are determined by what is made of them.
theorem pair_eq {α β γ : Type} {f : α → α → β} (hf : Function.Injective2 f) {x y x' y' : Option α}
    (h : (do return f (← x) (← y)) = (do return f (← x') (← y'))) (g : α → α → γ) :
    (do return g (← x) (← y)) = (do return g (← x') (← y')) := by
  cases x <;> cases y <;> cases x' <;> cases y' <;> first | rfl | cases h | skip
  obtain ⟨rfl, rfl⟩ := hf (Option.some.inj h)
  rfl

theorem i64?_eq (h : read? code pos .i64 = read? code' pos' .i64) :
    code.i64? pos = code'.i64? pos' :=
  Option.map_injective (fun _ _ => Operands.i64.inj) h

theorem f64?_eq (h : read? code pos .f64 = read? code' pos' .f64) :
    code.f64? pos = code'.f64? pos' :=
  Option.map_injective (fun _ _ => Operands.f64.inj) h

theorem le_size_of_nat? {count n : Nat} (hpos : 0 < count) (h : code.nat? count pos = some n) :
    pos + count ≤ code.size := by
  induction count generalizing pos n with
  | zero => exact absurd hpos (Nat.lt_irrefl 0)
  | succ count ih =>
      obtain ⟨low, hlow, hrest⟩ := Option.bind_eq_some_iff.mp h
      obtain ⟨high, hhigh, -⟩ := Option.bind_eq_some_iff.mp hrest
      obtain ⟨hlt, -⟩ := Array.getElem?_eq_some_iff.mp hlow
      cases count with
      | zero => omega
      | succ count =>
          have hle := ih (Nat.succ_pos count) hhigh
          omega

-- Operands are read only where the code holds all of them.
theorem le_size_of_read? {l : OperandLayout} {os : Operands} (hl : l ≠ .none)
    (h : l.read? code pos = some os) : pos + l.size ≤ code.size := by
  cases l with
  | none => exact absurd rfl hl
  | u8 =>
      obtain ⟨n, hn, -⟩ := Option.map_eq_some_iff.mp h
      obtain ⟨hlt, -⟩ := Array.getElem?_eq_some_iff.mp hn
      exact hlt
  | u16 | i32 | i64 | f64 =>
      obtain ⟨n, hn, -⟩ := Option.map_eq_some_iff.mp h
      obtain ⟨k, hk, -⟩ := Option.map_eq_some_iff.mp hn
      exact le_size_of_nat? (by decide) hk
  | u16Pair | i32Pair =>
      obtain ⟨m, -, hrest⟩ := Option.bind_eq_some_iff.mp h
      obtain ⟨n, hn, -⟩ := Option.bind_eq_some_iff.mp hrest
      obtain ⟨k, hk, -⟩ := Option.map_eq_some_iff.mp hn
      have hle := le_size_of_nat? (by decide) hk
      exact hle

end OperandLayout

-- What the machine makes of an instruction depends on its operands, read in their layout.
theorem Instr.read?_eq_of_layout {op : Opcode} {code code' : Bytes} {pos pos' : Nat}
    (h : op.layout.read? code pos = op.layout.read? code' pos') :
    Instr.read? code op pos = Instr.read? code' op pos' := by
  cases op
  case pushLong => simp only [read?, OperandLayout.i64?_eq h]
  case pushDouble => simp only [read?, OperandLayout.f64?_eq h]
  case loadLoc | loadLocNoRef | setLoc | setLocNoRef => simp only [read?, OperandLayout.u8?_eq h]
  case pushString | getDynamicProperty | setDynamicProperty =>
    simp only [read?, OperandLayout.u16?_eq h]
  case invokeDynamic =>
    exact OperandLayout.pair_eq (fun _ _ _ _ heq => Operands.u16Pair.inj heq) h Instr.invokeDynamic
  case loop =>
    exact OperandLayout.pair_eq (fun _ _ _ _ heq => Operands.i32Pair.inj heq) h Instr.loop
  case jump | jumpIfFalse | jumpIfTrue | invoke | invokeStatic | getProperty | setProperty
    | getStaticProperty | setStaticProperty | new | checkType | peekCheckType | loopNum =>
    simp only [read?, OperandLayout.i32?_eq h]
  all_goals rfl

-- In empty code there is nothing to read.
theorem Opcode.read?_empty {op : Opcode} (hl : op.layout ≠ .none) :
    op.layout.read? #[] 0 = none ∧ Instr.read? #[] op 0 = none := by
  cases op <;> first | exact absurd rfl hl | exact ⟨rfl, rfl⟩

-- An instruction that can be read ends within the code.
theorem Instr.le_size_of_read? {op : Opcode} {code : Bytes} {pos : Nat} {i : Instr}
    (hpos : pos ≤ code.size) (h : Instr.read? code op pos = some i) :
    pos + op.operandSize ≤ code.size := by
  rw [← op.size_layout]
  by_cases hl : op.layout = .none
  · rw [hl]
    exact hpos
  · cases hread : op.layout.read? code pos with
    | some os => exact OperandLayout.le_size_of_read? hl hread
    | none =>
        obtain ⟨hoperands, hinstr⟩ := Opcode.read?_empty hl
        rw [read?_eq_of_layout (hread.trans hoperands.symm), hinstr] at h
        cases h

end HostScript
