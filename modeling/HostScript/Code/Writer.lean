import HostScript.Code.Bytes
import HostScript.Code.Opcode
import HostScript.Diagnostic

namespace HostScript

-- Code under construction. A label is a jump target that may be bound after jumps to it have been
-- written; `patches` lists the operands that wait for one, in the order they were written.
structure Writer where
  code : Bytes := #[]
  labels : Array (Option Nat) := #[]
  patches : Array (Nat × Nat) := #[]

namespace Writer

def empty : Writer := {}

-- Where the next instruction will stand.
def position (w : Writer) : Nat :=
  w.code.size

def append (w : Writer) (bytes : List UInt8) : Writer :=
  { w with code := bytes.foldl Array.push w.code }

def emit (w : Writer) (op : Opcode) : Writer :=
  { w with code := w.code.push op.byte }

def emitU8 (w : Writer) (op : Opcode) (n : UInt8) : Writer :=
  (w.emit op).append [n]

def emitU16 (w : Writer) (op : Opcode) (n : UInt16) : Writer :=
  (w.emit op).append (bytesOf 2 n.toNat)

def emitU16Pair (w : Writer) (op : Opcode) (m n : UInt16) : Writer :=
  (w.emitU16 op m).append (bytesOf 2 n.toNat)

def emitI32 (w : Writer) (op : Opcode) (n : Int32) : Writer :=
  (w.emit op).append (bytesOfI32 n)

def emitI32Pair (w : Writer) (op : Opcode) (m n : Int32) : Writer :=
  (w.emitI32 op m).append (bytesOfI32 n)

def emitLong (w : Writer) (n : Int64) : Writer :=
  (w.emit .pushLong).append (bytesOfI64 n)

def emitDouble (w : Writer) (x : Float) : Writer :=
  (w.emit .pushDouble).append (bytesOfFloat x)

-- Where the operand of an instruction written next will stand.
def operandPosition (w : Writer) : Nat :=
  w.position + 1

def newLabel (w : Writer) : Nat × Writer :=
  (w.labels.size, { w with labels := w.labels.push none })

-- Binds a label to the current position. A label bound again goes by its last binding.
def mark (w : Writer) (label : Nat) : Writer :=
  { w with labels := w.labels.setIfInBounds label (some w.position) }

def emitJump (w : Writer) (op : Opcode) (label : Nat) : Writer :=
  let w' := w.emitI32 op 0
  { w' with patches := w'.patches.push (w.operandPosition, label) }

def overwrite (code : Bytes) (pos : Nat) : List UInt8 → Bytes
  | [] => code
  | b :: rest => overwrite (code.setIfInBounds pos b) (pos + 1) rest

-- Replaces an operand written earlier.
def patchI32 (w : Writer) (pos : Nat) (n : Int32) : Writer :=
  { w with code := overwrite w.code pos (bytesOfI32 n) }

def fail (problem : Diagnostic.Problem) : Except Diagnostic Bytes :=
  .error ⟨problem, 0⟩

def resolve (w : Writer) : List (Nat × Nat) → Except Diagnostic Bytes
  | [] => .ok w.code
  | (pos, label) :: rest =>
    match (w.labels[label]?).join with
    | none => fail (.unboundLabel label)
    | some target =>
      if target < 2147483648 then resolve (w.patchI32 pos (Int32.ofNat target)) rest
      else fail (.farJump target)

-- The finished code, with every jump to a label pointing where the label was bound last.
def finish (w : Writer) : Except Diagnostic Bytes :=
  w.resolve w.patches.toList

end Writer

end HostScript
