import HostScript.Code.Bytes
import HostScript.Code.Opcode
import HostScript.Code.TypeGuard
import HostScript.Operator

namespace HostScript

-- A decoded instruction. Texts are given by their place in the pool, members by their number, jumps
-- by an absolute position and counted loops by the length of the body behind them.
inductive Instr where
  | nop
  | pushNull
  | pushBool (b : Bool)
  | pushLong (n : Int64)
  | pushDouble (x : Float)
  | pushString (index : UInt16)
  | pop
  | loadLoc (slot : UInt8)
  | loadLocNoRef (slot : UInt8)
  | setLoc (slot : UInt8)
  | setLocNoRef (slot : UInt8)
  | arith (op : Arith)
  | arithNum (op : Arith)
  | order (op : Order)
  | orderNum (op : Order)
  | equals (negated : Bool)
  | equalsNum (negated : Bool)
  | neg
  | negNum
  | not
  | jump (target : Int32)
  | jumpIf (on : Bool) (target : Int32)
  | invoke (id : Int32)
  | invokeStatic (id : Int32)
  | invokeDynamic (name argc : UInt16)
  | getProperty (id : Int32)
  | setProperty (id : Int32)
  | getStaticProperty (id : Int32)
  | setStaticProperty (id : Int32)
  | getDynamicProperty (name : UInt16)
  | setDynamicProperty (name : UInt16)
  | new (id : Int32)
  | checkType (ty : Ty)
  | peekCheckType (ty : Ty) (depth : UInt8)
  | loop (count length : Int32)
  | loopNum (length : Int32)
  | ret
  | exit
  deriving Inhabited

namespace Instr

-- Reads the operands of an instruction at `pos`. Nothing when they are cut off or name no type.
def read? (code : Bytes) (op : Opcode) (pos : Nat) : Option Instr :=
  match op with
  | .nop => some .nop
  | .pushNull => some .pushNull
  | .pushTrue => some (.pushBool true)
  | .pushFalse => some (.pushBool false)
  | .pushLong => (code.i64? pos).map .pushLong
  | .pushDouble => (code.f64? pos).map .pushDouble
  | .pushString => (code.u16? pos).map .pushString
  | .pop => some .pop
  | .loadLoc => (code.u8? pos).map .loadLoc
  | .loadLocNoRef => (code.u8? pos).map .loadLocNoRef
  | .setLoc => (code.u8? pos).map .setLoc
  | .setLocNoRef => (code.u8? pos).map .setLocNoRef
  | .add => some (.arith .add)
  | .sub => some (.arith .sub)
  | .mul => some (.arith .mul)
  | .div => some (.arith .div)
  | .mod => some (.arith .mod)
  | .addNum => some (.arithNum .add)
  | .subNum => some (.arithNum .sub)
  | .mulNum => some (.arithNum .mul)
  | .divNum => some (.arithNum .div)
  | .modNum => some (.arithNum .mod)
  | .less => some (.order .lt)
  | .lessEq => some (.order .le)
  | .greater => some (.order .gt)
  | .greaterEq => some (.order .ge)
  | .equals => some (.equals false)
  | .notEquals => some (.equals true)
  | .lessNum => some (.orderNum .lt)
  | .lessEqNum => some (.orderNum .le)
  | .greaterNum => some (.orderNum .gt)
  | .greaterEqNum => some (.orderNum .ge)
  | .equalsNum => some (.equalsNum false)
  | .notEqualsNum => some (.equalsNum true)
  | .neg => some .neg
  | .negNum => some .negNum
  | .not => some .not
  | .jump => (code.i32? pos).map .jump
  | .jumpIfFalse => (code.i32? pos).map (.jumpIf false)
  | .jumpIfTrue => (code.i32? pos).map (.jumpIf true)
  | .invoke => (code.i32? pos).map .invoke
  | .invokeStatic => (code.i32? pos).map .invokeStatic
  | .invokeDynamic => do
    let name ← code.u16? pos
    let argc ← code.u16? (pos + 2)
    return .invokeDynamic name argc
  | .getProperty => (code.i32? pos).map .getProperty
  | .setProperty => (code.i32? pos).map .setProperty
  | .getStaticProperty => (code.i32? pos).map .getStaticProperty
  | .setStaticProperty => (code.i32? pos).map .setStaticProperty
  | .getDynamicProperty => (code.u16? pos).map .getDynamicProperty
  | .setDynamicProperty => (code.u16? pos).map .setDynamicProperty
  | .new => (code.i32? pos).map .new
  | .checkType => do
    let ty ← TypeGuard.decode (← code.i32? pos)
    return .checkType ty
  | .peekCheckType => do
    let (ty, depth) ← TypeGuard.decodeAt (← code.i32? pos)
    return .peekCheckType ty depth
  | .loop => do
    let count ← code.i32? pos
    let length ← code.i32? (pos + 4)
    return .loop count length
  | .loopNum => (code.i32? pos).map .loopNum
  | .ret => some .ret
  | .exit => some .exit

end Instr

end HostScript
