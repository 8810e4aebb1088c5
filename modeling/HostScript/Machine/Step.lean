import HostScript.Machine.State

namespace HostScript

def Arith.apply (op : Arith) (x y : Float) : Float :=
  match op with
  | .add => x + y
  | .sub => x - y
  | .mul => x * y
  | .div => x / y
  | .mod => Number.remainder x y

def Order.apply (op : Order) (x y : Float) : Bool :=
  match op with
  | .lt => x < y
  | .le => x ≤ y
  | .gt => y < x
  | .ge => y ≤ x

-- Whether a script goes on after an instruction.
inductive Flow where
  | next
  | stop
  deriving DecidableEq, Repr

def Instr.flow : Instr → Flow
  | .ret | .exit => .stop
  | _ => .next

namespace Work

def poolString (env : RunEnv) (index : UInt16) : Work String :=
  match env.script.strings[index.toNat]? with
  | some s => pure s
  | none => throw (.noSuchString index)

def loadLoc [HostHooks] (slot : UInt8) : Work Unit := do
  let c ← loadLocal slot.toNat
  match c.handle? with
  | some h => onRefs fun t => do return ((), ← t.addRef h)
  | none => pure ()
  push c

-- A missing variable is noticed before the stack is touched.
def setLoc [HostHooks] (slot : UInt8) : Work Unit := do
  let _ ← loadLocal slot.toNat
  release (← storeLocal slot.toNat (← pop))

def setLocNoRef (slot : UInt8) : Work Unit := do
  let _ ← loadLocal slot.toNat
  let _ ← storeLocal slot.toNat (← pop)

def concat [HostHooks] (a b : Cell) : Work Cell := do
  let s ← display a
  let t ← display b
  return .text (← onRefs (·.insertText (s ++ t)))

-- Numbers are calculated with, and a text with anything else is a concatenation.
def arithResult [HostHooks] (op : Arith) (a b : Cell) : Work Cell :=
  match a, b with
  | .number x, .number y => return .number (op.apply x y)
  | .text _, _ | _, .text _ =>
    if op = .add then concat a b else throw (.badOperands op.symbol a.kindName b.kindName)
  | _, _ => throw (.badOperands op.symbol a.kindName b.kindName)

def orderResult (op : Order) (a b : Cell) : Work Cell :=
  match a, b with
  | .number x, .number y => return .bool (op.apply x y)
  | _, _ => throw (.badOperands op.symbol a.kindName b.kindName)

-- Texts are equal by content, objects by identity.
def equalResult (negated : Bool) (a b : Cell) : Work Cell := do
  let equal ← match a, b with
    | .null, .null => pure true
    | .number x, .number y => pure (x == y)
    | .bool x, .bool y => pure (x == y)
    | .text h, .text k =>
      if h = k then pure true
      else do
        let s ← readRefs (·.text h)
        let t ← readRefs (·.text k)
        pure (s == t)
    | .object h, .object k => pure (h == k)
    | _, _ => pure false
  return .bool (equal != negated)

-- Applies an operator to the two values on top. They give their references back before a fault of
-- the operator is passed on.
def binary [HostHooks] (f : Cell → Cell → Work Cell) : Work Unit := do
  let b ← pop
  let a ← pop
  let result ← attempt (f a b)
  release a
  release b
  push (← settle result)

-- The operators for operands known to be numbers.
def binaryNum [HostHooks] (f : Float → Float → Cell) : Work Unit := do
  let b ← pop
  let a ← pop
  match a, b with
  | .number x, .number y => push (f x y)
  | a, b =>
    release a
    release b
    throw .notNumbers

def neg [HostHooks] : Work Unit := do
  match ← pop with
  | .number x => push (.number (-x))
  | c =>
    release c
    throw (.badOperand "-" c.kindName)

def negNum [HostHooks] : Work Unit := do
  match ← pop with
  | .number x => push (.number (-x))
  | c =>
    release c
    throw .notANumber

def not [HostHooks] : Work Unit := do
  match ← pop with
  | .bool b => push (.bool !b)
  | c =>
    release c
    throw (.badOperand "!" c.kindName)

-- A jump may lead to any place in the code and to its end.
def jumpTarget (env : RunEnv) (target : Int32) : Work Nat :=
  if 0 ≤ target.toInt ∧ target.toInt ≤ env.script.code.size then pure target.toInt.toNat
  else throw (.badJump target)

def jump (env : RunEnv) (target : Int32) : Work Unit := do
  jumpTo (← jumpTarget env target)

def jumpIf [HostHooks] (env : RunEnv) (on : Bool) (target : Int32) : Work Unit := do
  let target ← jumpTarget env target
  match ← pop with
  | .bool b => if b = on then jumpTo target
  | c =>
    release c
    throw (.notABool c.kindName)

-- Takes arguments for the host off the stack.
def popArgs [HostHooks] (count : Nat) : Work (List Value) := do
  let cells ← popMany count
  let values ← attempt (toValues cells)
  releaseAll cells
  settle values

-- Pushes what a member gave, which must be of its declared type. What a member without a result
-- gives does not count.
def pushResult [HostHooks] (r : Registry) (declared : Ty) (member : String) (v : Value) : Work Unit :=
  if declared = .void then push .null
  else if declared.admits (r.typeOf v) then do
    push (← ofValue v)
  else throw (.badResult member (r.typeName (r.typeOf v)) (r.typeName declared))

def methodAt (r : Registry) (id : Int32) : Work MethodDef :=
  match r.methods[id.toUInt32.toNat]? with
  | some d => pure d
  | none => throw (.unknownMember .method id.toUInt32)

def propertyAt (r : Registry) (id : Int32) : Work PropertyDef :=
  match r.properties[id.toUInt32.toNat]? with
  | some d => pure d
  | none => throw (.unknownMember .property id.toUInt32)

def constructorAt (r : Registry) (id : Int32) : Work ConstructorDef :=
  match r.constructors[id.toUInt32.toNat]? with
  | some d => pure d
  | none => throw (.unknownMember .constructor id.toUInt32)

def getterOf (d : PropertyDef) : Work Getter :=
  match d.getter with
  | some f => pure f
  | none => throw (.unreadable d.name)

def setterOf (d : PropertyDef) : Work Setter :=
  match d.setter with
  | some f => pure f
  | none => throw (.readOnly d.name)

def invokeStatic [HostHooks] (r : Registry) (id : Int32) : Work Unit := do
  let d ← methodAt r id
  let args ← popArgs d.params.length
  pushResult r d.returns d.name (← host (d.call r.callContext none args))

def invoke [HostHooks] (r : Registry) (id : Int32) : Work Unit := do
  let d ← methodAt r id
  let args ← popArgs d.params.length
  let target ← pop
  let value ← attempt do
    let o ← objectOf d.name target
    host (d.call r.callContext (some o) args)
  release target
  pushResult r d.returns d.name (← settle value)

-- The registered type of the object behind a value.
def instanceType (r : Registry) (member : String) (c : Cell) : Work Nat := do
  match ← typeOf r c with
  | .object id => return id
  | .dynamic => throw (.unregistered member)
  | ty => throw (.noMembers member ty.text)

-- Checks arguments against parameters; the first argument has the given number.
def checkArgs (r : Registry) (member : String) : (index : Nat) → List Ty → List Cell → Work Unit
  | index, ty :: params, c :: args => do
    let actual ← typeOf r c
    if ty.admits actual then checkArgs r member (index + 1) params args
    else throw (.badArgument index member (r.typeName ty) (r.typeName actual))
  | _, _, _ => pure ()

-- The only method of that name that takes so many arguments.
def methodNamed (r : Registry) (ty : Nat) (name : String) (count : Nat) : Work MethodDef :=
  match (r.instanceMethods ty name).filter (·.params.length = count) with
  | [d] => pure d
  | [] => throw (.noMethod (r.typeName (.object ty)) name count)
  | _ => throw (.ambiguousMethod name)

def callNamed (r : Registry) (name : String) (target : Cell) (args : List Cell) :
    Work (Ty × Value) := do
  let ty ← instanceType r name target
  let o ← objectOf name target
  let d ← methodNamed r ty name args.length
  checkArgs r name 1 d.params args
  let values ← toValues args
  return (d.returns, ← host (d.call r.callContext (some o) values))

def invokeDynamic [HostHooks] (env : RunEnv) (name argc : UInt16) : Work Unit := do
  let name ← poolString env name
  let args ← popMany argc.toNat
  let target ← pop
  let outcome ← attempt (callNamed env.registry name target args)
  releaseAll args
  release target
  let (declared, value) ← settle outcome
  pushResult env.registry declared name value

def getProperty [HostHooks] (r : Registry) (id : Int32) : Work Unit := do
  let d ← propertyAt r id
  let get ← getterOf d
  let target ← pop
  let value ← attempt do
    let o ← objectOf d.name target
    host (get (some o))
  release target
  pushResult r d.ty d.name (← settle value)

def getStaticProperty [HostHooks] (r : Registry) (id : Int32) : Work Unit := do
  let d ← propertyAt r id
  let get ← getterOf d
  pushResult r d.ty d.name (← host (get none))

def setProperty [HostHooks] (r : Registry) (id : Int32) : Work Unit := do
  let d ← propertyAt r id
  let set ← setterOf d
  let c ← pop
  let target ← pop
  let outcome ← attempt do
    let o ← objectOf d.name target
    let v ← toValue c
    host (set (some o) v)
  release c
  release target
  settle outcome

def setStaticProperty [HostHooks] (r : Registry) (id : Int32) : Work Unit := do
  let d ← propertyAt r id
  let set ← setterOf d
  let c ← pop
  let outcome ← attempt do
    let v ← toValue c
    host (set none v)
  release c
  settle outcome

-- Reads the only readable property of that name, or else calls the only method of that name that
-- takes nothing.
def readNamed (r : Registry) (name : String) (target : Cell) : Work (Ty × Value) := do
  let ty ← instanceType r name target
  let o ← objectOf name target
  let readable := (r.instanceProperties ty name).filterMap fun p => p.getter.map fun f => (p.ty, f)
  match readable with
  | [(declared, get)] => return (declared, ← host (get (some o)))
  | _ =>
    match (r.instanceMethods ty name).filter (·.params.isEmpty) with
    | [d] => return (d.returns, ← host (d.call r.callContext (some o) []))
    | _ => throw (.notReadable (r.typeName (.object ty)) name)

def getDynamicProperty [HostHooks] (env : RunEnv) (name : UInt16) : Work Unit := do
  let name ← poolString env name
  let target ← pop
  let outcome ← attempt (readNamed env.registry name target)
  release target
  let (declared, value) ← settle outcome
  pushResult env.registry declared name value

-- Writes the only writable property of that name.
def writeNamed (r : Registry) (name : String) (target c : Cell) : Work Unit := do
  let ty ← instanceType r name target
  let o ← objectOf name target
  let writable := (r.instanceProperties ty name).filterMap fun p => p.setter.map fun f => (p.ty, f)
  match writable with
  | [(declared, set)] =>
    let actual ← typeOf r c
    if declared.admits actual then do
      let v ← toValue c
      host (set (some o) v)
    else throw (.badPropertyValue name (r.typeName declared) (r.typeName actual))
  | _ => throw (.notWritable (r.typeName (.object ty)) name)

def setDynamicProperty [HostHooks] (env : RunEnv) (name : UInt16) : Work Unit := do
  let name ← poolString env name
  let c ← pop
  let target ← pop
  let outcome ← attempt (writeNamed env.registry name target c)
  release c
  release target
  settle outcome

def construct [HostHooks] (r : Registry) (id : Int32) : Work Unit := do
  let d ← constructorAt r id
  let args ← popArgs d.params.length
  let o ← host (d.build args)
  push (.object (← onRefs (·.acquire o)))

def checkAt (r : Registry) (expected : Ty) (depth : Nat) : Work Unit := do
  let actual ← typeOf r (← peek depth)
  if expected.admits actual then pure ()
  else throw (.badValue (r.typeName expected) (r.typeName actual))

-- Starts the counted loop whose body lies behind the instruction. Nothing is left to do without a
-- round or without a body.
def enterLoop (env : RunEnv) (count : Nat) (length : Int32) : Work Unit := do
  let start := (← get).pc
  let stop := start + length.toInt.toNat
  if length.toInt < 0 || env.script.code.size < stop then throw (.badLoopLength length)
  else if count = 0 || start = stop then jumpTo stop
  else modify fun m => { m with loops := ⟨start, stop, count - 1⟩ :: m.loops }

def enterLoopNum [HostHooks] (env : RunEnv) (length : Int32) : Work Unit := do
  match ← pop with
  | .number x => enterLoop env (Number.wholesBelow x) length
  | c =>
    release c
    throw (.badCount c.kindName)

-- Clears the stack of a script that stops.
def unwind [HostHooks] : Work Unit := do
  let m ← get
  match m.stack with
  | [] => pure ()
  | stack =>
    warn (.stackNotEmpty stack.length)
    modify fun m => { m with stack := [] }
    releaseAll stack.reverse

def ret [HostHooks] : Work Unit := do
  let c ← pop
  let value ← attempt (toValue c)
  release c
  let value ← settle value
  modify fun m => { m with returned := value }
  unwind

-- What one instruction does to a machine that already stands behind it.
def effect [HostHooks] (env : RunEnv) : Instr → Work Unit
  | .nop => pure ()
  | .pushNull => push .null
  | .pushBool b => push (.bool b)
  | .pushLong n => push (.number (Number.ofLong n))
  | .pushDouble x => push (.number x)
  | .pushString index => do
    let s ← poolString env index
    push (.text (← onRefs (·.insertText s)))
  | .pop => do
    release (← pop)
  | .loadLoc slot => loadLoc slot
  | .loadLocNoRef slot => do
    push (← loadLocal slot.toNat)
  | .setLoc slot => setLoc slot
  | .setLocNoRef slot => setLocNoRef slot
  | .arith op => binary (arithResult op)
  | .arithNum op => binaryNum fun x y => .number (op.apply x y)
  | .order op => binary (orderResult op)
  | .orderNum op => binaryNum fun x y => .bool (op.apply x y)
  | .equals negated => binary (equalResult negated)
  | .equalsNum negated => binaryNum fun x y => .bool ((x == y) != negated)
  | .neg => neg
  | .negNum => negNum
  | .not => not
  | .jump target => jump env target
  | .jumpIf on target => jumpIf env on target
  | .invoke id => invoke env.registry id
  | .invokeStatic id => invokeStatic env.registry id
  | .invokeDynamic name argc => invokeDynamic env name argc
  | .getProperty id => getProperty env.registry id
  | .setProperty id => setProperty env.registry id
  | .getStaticProperty id => getStaticProperty env.registry id
  | .setStaticProperty id => setStaticProperty env.registry id
  | .getDynamicProperty name => getDynamicProperty env name
  | .setDynamicProperty name => setDynamicProperty env name
  | .new id => construct env.registry id
  | .checkType ty => checkAt env.registry ty 0
  | .peekCheckType ty depth => checkAt env.registry ty depth.toNat
  | .loop count length => enterLoop env count.toInt.toNat length
  | .loopNum length => enterLoopNum env length
  | .ret => ret
  | .exit => unwind

end Work

namespace CompiledScript

-- Why the operands at `pos` could not be read. A name that is not in the pool is noticed before the
-- operand behind it.
def operandFault (s : CompiledScript) (op : Opcode) (pos : Nat) : Fault :=
  match op with
  | .checkType | .peekCheckType =>
    match s.code.i32? pos with
    | some operand => .badTypeCheck operand
    | none => .truncated
  | .invokeDynamic =>
    match s.code.u16? pos with
    | some index => if index.toNat < s.strings.size then .truncated else .noSuchString index
    | none => .truncated
  | _ => .truncated

-- The instruction at a position, and the position behind it.
def fetch (s : CompiledScript) (pc : Nat) : Except Fault (Instr × Nat) :=
  match s.code[pc]? with
  | none => .error (.outside pc)
  | some byte =>
    match Opcode.ofByte? byte with
    | none => .error (.unknownOpcode byte pc)
    | some op =>
      match Instr.read? s.code op (pc + 1) with
      | some i => .ok (i, pc + 1 + op.operandSize)
      | none => .error (s.operandFault op (pc + 1))

end CompiledScript

namespace Work

-- Where the code being run ends: at the end of the innermost loop, or of the script.
def rangeEnd (env : RunEnv) (m : Machine) : Nat :=
  match m.loops with
  | frame :: _ => frame.stop
  | [] => env.script.code.size

-- One step of a run: the next instruction, or at the end of a loop's body the next round or what
-- follows the loop. The run stops where the script does.
def step [HostHooks] (env : RunEnv) : Work Flow := do
  let m ← get
  if m.pc < rangeEnd env m then do
    let (i, pc) ← settle (env.script.fetch m.pc)
    jumpTo pc
    effect env i
    return i.flow
  else match m.loops with
    | [] => return .stop
    | frame :: outer =>
      match frame.left with
      | left + 1 => do
        set { m with pc := frame.start, loops := { frame with left } :: outer }
        return .next
      | 0 => do
        set { m with pc := frame.stop, loops := outer }
        return .next

end Work

end HostScript
