namespace HostScript

-- The instructions of the machine. Each is one byte, followed by its operands in little-endian
-- order. The `Num` forms work on numbers only and are chosen where both operands are known to be
-- numbers; the `NoRef` forms are for variables that never hold a text or an object.
inductive Opcode where
  | nop
  | pushNull
  | pushTrue
  | pushFalse
  | pushLong
  | pushDouble
  | pushString
  | pop
  | loadLoc
  | loadLocNoRef
  | setLoc
  | setLocNoRef
  | add
  | sub
  | mul
  | div
  | mod
  | addNum
  | subNum
  | mulNum
  | divNum
  | modNum
  | less
  | lessEq
  | greater
  | greaterEq
  | equals
  | notEquals
  | lessNum
  | lessEqNum
  | greaterNum
  | greaterEqNum
  | equalsNum
  | notEqualsNum
  | neg
  | negNum
  | not
  | jump
  | jumpIfFalse
  | jumpIfTrue
  | invoke
  | invokeStatic
  | invokeDynamic
  | getProperty
  | setProperty
  | getStaticProperty
  | setStaticProperty
  | getDynamicProperty
  | setDynamicProperty
  | new
  | checkType
  | peekCheckType
  | loop
  | loopNum
  | ret
  | exit
  deriving DecidableEq, Repr, Inhabited

namespace Opcode

-- All instructions in the order of their bytes.
def all : Array Opcode :=
  #[.nop, .pushNull, .pushTrue, .pushFalse, .pushLong, .pushDouble, .pushString, .pop, .loadLoc,
   .loadLocNoRef, .setLoc, .setLocNoRef, .add, .sub, .mul, .div, .mod, .addNum, .subNum,
   .mulNum, .divNum, .modNum, .less, .lessEq, .greater, .greaterEq, .equals, .notEquals,
   .lessNum, .lessEqNum, .greaterNum, .greaterEqNum, .equalsNum, .notEqualsNum, .neg, .negNum,
   .not, .jump, .jumpIfFalse, .jumpIfTrue, .invoke, .invokeStatic, .invokeDynamic, .getProperty,
   .setProperty, .getStaticProperty, .setStaticProperty, .getDynamicProperty,
   .setDynamicProperty, .new, .checkType, .peekCheckType, .loop, .loopNum, .ret, .exit]

def byte : Opcode → UInt8
  | .nop => 0
  | .pushNull => 1
  | .pushTrue => 2
  | .pushFalse => 3
  | .pushLong => 4
  | .pushDouble => 5
  | .pushString => 6
  | .pop => 7
  | .loadLoc => 8
  | .loadLocNoRef => 9
  | .setLoc => 10
  | .setLocNoRef => 11
  | .add => 12
  | .sub => 13
  | .mul => 14
  | .div => 15
  | .mod => 16
  | .addNum => 17
  | .subNum => 18
  | .mulNum => 19
  | .divNum => 20
  | .modNum => 21
  | .less => 22
  | .lessEq => 23
  | .greater => 24
  | .greaterEq => 25
  | .equals => 26
  | .notEquals => 27
  | .lessNum => 28
  | .lessEqNum => 29
  | .greaterNum => 30
  | .greaterEqNum => 31
  | .equalsNum => 32
  | .notEqualsNum => 33
  | .neg => 34
  | .negNum => 35
  | .not => 36
  | .jump => 37
  | .jumpIfFalse => 38
  | .jumpIfTrue => 39
  | .invoke => 40
  | .invokeStatic => 41
  | .invokeDynamic => 42
  | .getProperty => 43
  | .setProperty => 44
  | .getStaticProperty => 45
  | .setStaticProperty => 46
  | .getDynamicProperty => 47
  | .setDynamicProperty => 48
  | .new => 49
  | .checkType => 50
  | .peekCheckType => 51
  | .loop => 52
  | .loopNum => 53
  | .ret => 54
  | .exit => 55

def ofByte? (b : UInt8) : Option Opcode :=
  all[b.toNat]?

-- Number of operand bytes.
def operandSize : Opcode → Nat
  | .loadLoc | .loadLocNoRef | .setLoc | .setLocNoRef => 1
  | .pushString | .getDynamicProperty | .setDynamicProperty => 2
  | .jump | .jumpIfFalse | .jumpIfTrue | .invoke | .invokeStatic | .invokeDynamic | .getProperty
  | .setProperty | .getStaticProperty | .setStaticProperty | .new | .checkType | .peekCheckType
  | .loopNum => 4
  | .pushLong | .pushDouble | .loop => 8
  | _ => 0

def name : Opcode → String
  | .nop => "Nop"
  | .pushNull => "PushNull"
  | .pushTrue => "PushTrue"
  | .pushFalse => "PushFalse"
  | .pushLong => "PushLong"
  | .pushDouble => "PushDouble"
  | .pushString => "PushString"
  | .pop => "Pop"
  | .loadLoc => "LoadLoc"
  | .loadLocNoRef => "LoadLocNoRef"
  | .setLoc => "SetLoc"
  | .setLocNoRef => "SetLocNoRef"
  | .add => "Add"
  | .sub => "Sub"
  | .mul => "Mul"
  | .div => "Div"
  | .mod => "Mod"
  | .addNum => "AddNum"
  | .subNum => "SubNum"
  | .mulNum => "MulNum"
  | .divNum => "DivNum"
  | .modNum => "ModNum"
  | .less => "Less"
  | .lessEq => "LessEq"
  | .greater => "Greater"
  | .greaterEq => "GreaterEq"
  | .equals => "Equals"
  | .notEquals => "NotEquals"
  | .lessNum => "LessNum"
  | .lessEqNum => "LessEqNum"
  | .greaterNum => "GreaterNum"
  | .greaterEqNum => "GreaterEqNum"
  | .equalsNum => "EqualsNum"
  | .notEqualsNum => "NotEqualsNum"
  | .neg => "Neg"
  | .negNum => "NegNum"
  | .not => "Not"
  | .jump => "Jump"
  | .jumpIfFalse => "JumpIfFalse"
  | .jumpIfTrue => "JumpIfTrue"
  | .invoke => "Invoke"
  | .invokeStatic => "InvokeStatic"
  | .invokeDynamic => "InvokeDynamic"
  | .getProperty => "GetProperty"
  | .setProperty => "SetProperty"
  | .getStaticProperty => "GetStaticProperty"
  | .setStaticProperty => "SetStaticProperty"
  | .getDynamicProperty => "GetDynamicProperty"
  | .setDynamicProperty => "SetDynamicProperty"
  | .new => "New"
  | .checkType => "CheckType"
  | .peekCheckType => "PeekCheckType"
  | .loop => "Loop"
  | .loopNum => "LoopNum"
  | .ret => "Return"
  | .exit => "Exit"

end Opcode

end HostScript
