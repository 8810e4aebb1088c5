import HostScript.Host.Builder

namespace HostScript.Core

-- The core library: namespaces `system`, `math` and `collections`.

def argument (args : List Value) (index : Nat) : Value :=
  args[index]?.getD .null

def numberArg (args : List Value) (index : Nat) (member : String) : HostM Float :=
  match args[index]? with
  | some (.number x) => pure x
  | _ => HostM.fail (.argumentType member index "a number")

-- Registered objects go by their qualified type name, everything else by its kind.
def typeNameOf (ctx : CallContext) (v : Value) : String :=
  match v with
  | .object o => (ctx.typeName? o).getD v.kindName
  | _ => v.kindName

def print (_ : CallContext) (args : List Value) : HostM Value := do
  HostM.print ((← HostM.world).display (argument args 0))
  return .null

def toText (_ : CallContext) (args : List Value) : HostM Value := do
  return .text ((← HostM.world).display (argument args 0))

def typeName (ctx : CallContext) (args : List Value) : HostM Value :=
  return .text (typeNameOf ctx (argument args 0))

def onNumber (member : String) (f : Float → Float) (_ : CallContext) (args : List Value) :
    HostM Value := do
  return .number (f (← numberArg args 0 member))

def onNumbers (member : String) (f : Float → Float → Float) (_ : CallContext)
    (args : List Value) : HostM Value := do
  let x ← numberArg args 0 member
  let y ← numberArg args 1 member
  return .number (f x y)

def newList (_ : List Value) : HostM ObjectRef := do
  let (o, w) := (← HostM.world).alloc .list "" (.items #[])
  HostM.setWorld w
  return o

def listAdd (_ : CallContext) (this : ObjectRef) (args : List Value) : HostM Value := do
  let w ← HostM.world
  HostM.setWorld (w.setItems this ((w.items this).push (argument args 0)))
  return .null

-- The item at a position, which is a whole number from zero up to the length.
def itemAt (items : Array Value) (index : Float) : Except HostError Value :=
  let refused := HostError.indexOutOfRange index items.size
  if index < 0 || !Number.isWhole index then .error refused
  else match items[index.toUInt64.toNat]? with
    | some v => .ok v
    | none => .error refused

def listGet (_ : CallContext) (this : ObjectRef) (args : List Value) : HostM Value := do
  let index ← numberArg args 0 "getitem"
  match itemAt ((← HostM.world).items this) index with
  | .ok v => return v
  | .error e => HostM.fail e

def listClear (_ : CallContext) (this : ObjectRef) (_ : List Value) : HostM Value := do
  HostM.setWorld ((← HostM.world).setItems this #[])
  return .null

def listCount (this : ObjectRef) : HostM Value := do
  return .number (Float.ofNat ((← HostM.world).items this).size)

def pi : Float :=
  Float.ofBits 0x400921fb54442d18

-- Adds the types and members of the core library. The answer is the number of its list type.
def addMembers (r : Registry) : Nat × Registry :=
  let r := (r.addStaticMethod "system" "Print" [.dynamic] .void print).2
  let r := (r.addStaticMethod "system" "ToString" [.dynamic] .string toText).2
  let r := (r.addStaticMethod "system" "TypeName" [.dynamic] .string typeName).2
  let r := (r.addStaticMethod "math" "Abs" [.double] .double (onNumber "abs" Float.abs)).2
  let r := (r.addStaticMethod "math" "Sqrt" [.double] .double (onNumber "sqrt" Float.sqrt)).2
  let r := (r.addStaticMethod "math" "Min" [.double, .double] .double
    (onNumbers "min" Number.least)).2
  let r := (r.addStaticMethod "math" "Max" [.double, .double] .double
    (onNumbers "max" Number.greatest)).2
  let r := (r.addStaticMethod "math" "Pow" [.double, .double] .double
    (onNumbers "pow" Float.pow)).2
  let r := (r.addStaticMethod "math" "Floor" [.double] .long (onNumber "floor" Float.floor)).2
  let r := r.addConst "math" "PI" (.double pi)
  let (list, r) := r.addType .list "collections" "List"
  let r := (r.addConstructor list [] newList).2
  let r := (r.addInstanceMethod list .list "Add" [.dynamic] .void listAdd).2
  let r := (r.addInstanceMethod list .list "GetItem" [.long] .dynamic listGet).2
  let r := (r.addInstanceMethod list .list "Clear" [] .void listClear).2
  let r := (r.addInstanceProperty list .list "Count" .long listCount none).2
  (list, r)

-- Adds the core library. Lists cannot be walked if the registry already held members of the same
-- names for their type; that is refused, but everything else stays.
def register (r : Registry) : Except HostError Unit × Registry :=
  let (list, r) := addMembers r
  match r.addIteration list "Count" "GetItem" with
  | .ok r => (.ok (), r)
  | .error e => (.error e, r)

-- A registry with the core library alone.
def registry : Except HostError Registry :=
  match register Registry.empty with
  | (.ok _, r) => .ok r
  | (.error e, _) => .error e

end HostScript.Core
