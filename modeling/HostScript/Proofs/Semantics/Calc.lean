import Mathlib
import HostScript.Machine.Step

namespace HostScript

-- Whether a value is kept in the reference table.
def Value.isRef : Value → Bool
  | .text _ | .object _ => true
  | _ => false

-- What a calculation can change besides the variables: the host's world and what was printed.
structure Outside where
  world : World
  printed : Array String

-- A calculation on values. It may call the host, and a fault leaves the outside as it was then.
abbrev Calc := EStateM Fault Outside

namespace Calc

def host {α : Type} (x : HostM α) : Calc α := fun o =>
  let r := x o.world
  let o : Outside := ⟨r.world, o.printed ++ r.printed.toArray⟩
  match r.result with
  | .ok a => .ok a o
  | .error e => .error (.refused e) o

def display (v : Value) : Calc String := fun o =>
  .ok (o.world.display v) o

-- Numbers are calculated with, and a text with anything else is a concatenation.
def arith (op : Arith) (a b : Value) : Calc Value :=
  match a, b with
  | .number x, .number y => return .number (op.apply x y)
  | .text _, _ | _, .text _ =>
    if op = .add then do
      let s ← display a
      let t ← display b
      return .text (s ++ t)
    else throw (.badOperands op.symbol a.kindName b.kindName)
  | _, _ => throw (.badOperands op.symbol a.kindName b.kindName)

def order (op : Order) (a b : Value) : Calc Value :=
  match a, b with
  | .number x, .number y => return .bool (op.apply x y)
  | _, _ => throw (.badOperands op.symbol a.kindName b.kindName)

def equal (negated : Bool) (a b : Value) : Calc Value :=
  return .bool (a.equal b != negated)

-- The operators for operands known to be numbers.
def onNumbers (f : Float → Float → Value) (a b : Value) : Calc Value :=
  match a, b with
  | .number x, .number y => return f x y
  | _, _ => throw .notNumbers

def neg : Value → Calc Value
  | .number x => return .number (-x)
  | v => throw (.badOperand "-" v.kindName)

def negNum : Value → Calc Value
  | .number x => return .number (-x)
  | _ => throw .notANumber

def not : Value → Calc Value
  | .bool b => return .bool !b
  | v => throw (.badOperand "!" v.kindName)

def asBool : Value → Calc Bool
  | .bool b => return b
  | v => throw (.notABool v.kindName)

def asCount : Value → Calc Float
  | .number x => return x
  | v => throw (.badCount v.kindName)

-- A check that a value is of a type, made while the script runs.
def require (r : Registry) (expected : Ty) (v : Value) : Calc Unit :=
  if expected.admits (r.typeOf v) then pure ()
  else throw (.badValue (r.typeName expected) (r.typeName (r.typeOf v)))

-- What a member gave must be of its declared type; what one without a result gives does not count.
def result (r : Registry) (declared : Ty) (member : String) (v : Value) : Calc Value :=
  if declared = .void then return .null
  else if declared.admits (r.typeOf v) then return v
  else throw (.badResult member (r.typeName (r.typeOf v)) (r.typeName declared))

def receiver (member : String) : Value → Calc ObjectRef
  | .object o => return o
  | v => throw (.noMembers member v.kindName)

def methodAt (r : Registry) (id : Int32) : Calc MethodDef :=
  match r.methods[id.toUInt32.toNat]? with
  | some d => pure d
  | none => throw (.unknownMember .method id.toUInt32)

def propertyAt (r : Registry) (id : Int32) : Calc PropertyDef :=
  match r.properties[id.toUInt32.toNat]? with
  | some d => pure d
  | none => throw (.unknownMember .property id.toUInt32)

def constructorAt (r : Registry) (id : Int32) : Calc ConstructorDef :=
  match r.constructors[id.toUInt32.toNat]? with
  | some d => pure d
  | none => throw (.unknownMember .constructor id.toUInt32)

def getterOf (d : PropertyDef) : Calc Getter :=
  match d.getter with
  | some f => pure f
  | none => throw (.unreadable d.name)

def setterOf (d : PropertyDef) : Calc Setter :=
  match d.setter with
  | some f => pure f
  | none => throw (.readOnly d.name)

def callStatic (r : Registry) (d : MethodDef) (args : List Value) : Calc Value := do
  result r d.returns d.name (← host (d.call r.callContext none args))

def callMethod (r : Registry) (d : MethodDef) (target : Value) (args : List Value) :
    Calc Value := do
  let o ← receiver d.name target
  result r d.returns d.name (← host (d.call r.callContext (some o) args))

def readProperty (r : Registry) (d : PropertyDef) (get : Getter) (target : Value) :
    Calc Value := do
  let o ← receiver d.name target
  result r d.ty d.name (← host (get (some o)))

def readStatic (r : Registry) (d : PropertyDef) (get : Getter) : Calc Value := do
  result r d.ty d.name (← host (get none))

def writeProperty (d : PropertyDef) (set : Setter) (target v : Value) : Calc Unit := do
  let o ← receiver d.name target
  host (set (some o) v)

def writeStatic (set : Setter) (v : Value) : Calc Unit :=
  host (set none v)

def construct (d : ConstructorDef) (args : List Value) : Calc Value := do
  return .object (← host (d.build args))

-- The registered type of the object behind a value.
def instanceType (r : Registry) (member : String) (v : Value) : Calc Nat :=
  match r.typeOf v with
  | .object id => return id
  | .dynamic => throw (.unregistered member)
  | ty => throw (.noMembers member ty.text)

def checkArgs (r : Registry) (member : String) : Nat → List Ty → List Value → Calc Unit
  | index, ty :: params, v :: args =>
    if ty.admits (r.typeOf v) then checkArgs r member (index + 1) params args
    else throw (.badArgument index member (r.typeName ty) (r.typeName (r.typeOf v)))
  | _, _, _ => pure ()

def methodNamed (r : Registry) (ty : Nat) (name : String) (count : Nat) : Calc MethodDef :=
  match (r.instanceMethods ty name).filter (·.params.length = count) with
  | [d] => pure d
  | [] => throw (.noMethod (r.typeName (.object ty)) name count)
  | _ => throw (.ambiguousMethod name)

-- The only method of that name that takes so many arguments is looked up and called. The answer
-- comes with its declared type.
def callNamed (r : Registry) (name : String) (target : Value) (args : List Value) :
    Calc (Ty × Value) := do
  let ty ← instanceType r name target
  let o ← receiver name target
  let d ← methodNamed r ty name args.length
  checkArgs r name 1 d.params args
  let y ← host (d.call r.callContext (some o) args)
  return (d.returns, y)

-- The only readable property of that name is read, or else the only method of that name that takes
-- nothing is called.
def readNamed (r : Registry) (name : String) (target : Value) : Calc (Ty × Value) := do
  let ty ← instanceType r name target
  let o ← receiver name target
  match (r.instanceProperties ty name).filterMap fun p => p.getter.map fun f => (p.ty, f) with
  | [(declared, get)] => return (declared, ← host (get (some o)))
  | _ =>
    match (r.instanceMethods ty name).filter (·.params.isEmpty) with
    | [d] => return (d.returns, ← host (d.call r.callContext (some o) []))
    | _ => throw (.notReadable (r.typeName (.object ty)) name)

def named (r : Registry) (name : String) (k : Calc (Ty × Value)) : Calc Value := do
  let a ← k
  result r a.1 name a.2

-- The only writable property of that name is written.
def writeNamed (r : Registry) (name : String) (target v : Value) : Calc Unit := do
  let ty ← instanceType r name target
  let o ← receiver name target
  match (r.instanceProperties ty name).filterMap fun p => p.setter.map fun f => (p.ty, f) with
  | [(declared, set)] =>
    if declared.admits (r.typeOf v) then host (set (some o) v)
    else throw (.badPropertyValue name (r.typeName declared) (r.typeName (r.typeOf v)))
  | _ => throw (.notWritable (r.typeName (.object ty)) name)

end Calc

end HostScript
