import HostScript.Proofs.Semantics.Calc

namespace HostScript

-- A machine whose references are looked up: every place shows its value, and there is no reference
-- table. What instructions do to it says what they mean. How large the machine is never matters
-- here; the two capacities are only carried along.
structure View where
  stackCapacity : Nat := 0
  refCapacity : Nat := 0
  stack : List Value := []
  locals : Array Value
  loops : List LoopFrame := []
  pc : Nat := 0
  returned : Value := .null
  world : World
  printed : Array String := #[]
  warnings : Array Warning := #[]

abbrev Plain := EStateM Fault View

def View.outside (v : View) : Outside :=
  ⟨v.world, v.printed⟩

def View.withOutside (v : View) (o : Outside) : View :=
  { v with world := o.world, printed := o.printed }

namespace Plain

def ofCalc {α : Type} (x : Calc α) : Plain α := fun v =>
  match x v.outside with
  | .ok a o => .ok a (v.withOutside o)
  | .error f o => .error f (v.withOutside o)

theorem ofCalc_bind {α β : Type} (k : Calc α) (k' : α → Calc β) :
    ofCalc (k >>= k') = ofCalc k >>= fun a => ofCalc (k' a) := by
  funext v
  simp only [ofCalc, bind, EStateM.bind]
  cases k v.outside <;> rfl

def push (x : Value) : Plain Unit :=
  modify fun v => { v with stack := x :: v.stack }

def pop : Plain Value := fun v =>
  match v.stack with
  | x :: stack => .ok x { v with stack }
  | [] => .error .stackUnderflow v

def popMany (count : Nat) : Plain (List Value) := fun v =>
  if count ≤ v.stack.length then
    .ok (v.stack.take count).reverse { v with stack := v.stack.drop count }
  else .error .stackUnderflow v

def peek (depth : Nat) : Plain Value := fun v =>
  match v.stack[depth]? with
  | some x => .ok x v
  | none => .error .stackUnderflow v

def loadLocal (slot : Nat) : Plain Value := fun v =>
  match v.locals[slot]? with
  | some x => .ok x v
  | none => .error (.noSuchLocal slot) v

def storeLocal (slot : Nat) (x : Value) : Plain Unit :=
  modify fun v => { v with locals := v.locals.setIfInBounds slot x }

def jumpTo (pc : Nat) : Plain Unit :=
  modify fun v => { v with pc }

def poolString (env : RunEnv) (index : UInt16) : Plain String :=
  match env.script.strings[index.toNat]? with
  | some s => pure s
  | none => throw (.noSuchString index)

-- Replaces the value on top, or the two values on top, by what is calculated from them.
def apply (f : Value → Calc Value) : Plain Unit := do
  let a ← pop
  push (← ofCalc (f a))

def apply₂ (f : Value → Value → Calc Value) : Plain Unit := do
  let b ← pop
  let a ← pop
  push (← ofCalc (f a b))

def jumpTarget (env : RunEnv) (target : Int32) : Plain Nat :=
  if 0 ≤ target.toInt ∧ target.toInt ≤ env.script.code.size then pure target.toInt.toNat
  else throw (.badJump target)

def jumpIf (env : RunEnv) (on : Bool) (target : Int32) : Plain Unit := do
  let target ← jumpTarget env target
  let b ← ofCalc (Calc.asBool (← pop))
  if b = on then jumpTo target

def store (slot : UInt8) : Plain Unit := do
  let _ ← loadLocal slot.toNat
  storeLocal slot.toNat (← pop)

def invokeStatic (r : Registry) (id : Int32) : Plain Unit := do
  let d ← ofCalc (Calc.methodAt r id)
  let args ← popMany d.params.length
  push (← ofCalc (Calc.callStatic r d args))

def invoke (r : Registry) (id : Int32) : Plain Unit := do
  let d ← ofCalc (Calc.methodAt r id)
  let args ← popMany d.params.length
  let target ← pop
  push (← ofCalc (Calc.callMethod r d target args))

def invokeDynamic (env : RunEnv) (name argc : UInt16) : Plain Unit := do
  let name ← poolString env name
  let args ← popMany argc.toNat
  let target ← pop
  push (← ofCalc (Calc.named env.registry name (Calc.callNamed env.registry name target args)))

def getProperty (r : Registry) (id : Int32) : Plain Unit := do
  let d ← ofCalc (Calc.propertyAt r id)
  let get ← ofCalc (Calc.getterOf d)
  apply (Calc.readProperty r d get)

def getStaticProperty (r : Registry) (id : Int32) : Plain Unit := do
  let d ← ofCalc (Calc.propertyAt r id)
  let get ← ofCalc (Calc.getterOf d)
  push (← ofCalc (Calc.readStatic r d get))

def setProperty (r : Registry) (id : Int32) : Plain Unit := do
  let d ← ofCalc (Calc.propertyAt r id)
  let set ← ofCalc (Calc.setterOf d)
  let x ← pop
  let target ← pop
  ofCalc (Calc.writeProperty d set target x)

def setStaticProperty (r : Registry) (id : Int32) : Plain Unit := do
  let d ← ofCalc (Calc.propertyAt r id)
  let set ← ofCalc (Calc.setterOf d)
  let x ← pop
  ofCalc (Calc.writeStatic set x)

def getDynamicProperty (env : RunEnv) (name : UInt16) : Plain Unit := do
  let name ← poolString env name
  apply fun target => Calc.named env.registry name (Calc.readNamed env.registry name target)

def setDynamicProperty (env : RunEnv) (name : UInt16) : Plain Unit := do
  let name ← poolString env name
  let x ← pop
  let target ← pop
  ofCalc (Calc.writeNamed env.registry name target x)

def construct (r : Registry) (id : Int32) : Plain Unit := do
  let d ← ofCalc (Calc.constructorAt r id)
  let args ← popMany d.params.length
  push (← ofCalc (Calc.construct d args))

def checkAt (r : Registry) (expected : Ty) (depth : Nat) : Plain Unit := do
  ofCalc (Calc.require r expected (← peek depth))

def enterLoop (env : RunEnv) (count : Nat) (length : Int32) : Plain Unit := do
  let start := (← get).pc
  let stop := start + length.toInt.toNat
  if length.toInt < 0 || env.script.code.size < stop then throw (.badLoopLength length)
  else if count = 0 || start = stop then jumpTo stop
  else modify fun v => { v with loops := ⟨start, stop, count - 1⟩ :: v.loops }

def enterLoopNum (env : RunEnv) (length : Int32) : Plain Unit := do
  let x ← ofCalc (Calc.asCount (← pop))
  enterLoop env (Number.wholesBelow x) length

def unwind : Plain Unit := fun v =>
  match v.stack with
  | [] => .ok () v
  | stack =>
    .ok () { v with stack := [], warnings := v.warnings.push (.stackNotEmpty stack.length) }

def ret : Plain Unit := do
  let x ← pop
  modify fun v => { v with returned := x }
  unwind

def effect (env : RunEnv) : Instr → Plain Unit
  | .nop => pure ()
  | .pushNull => push .null
  | .pushBool b => push (.bool b)
  | .pushLong n => push (.number (Number.ofLong n))
  | .pushDouble x => push (.number x)
  | .pushString index => do push (.text (← poolString env index))
  | .pop => do let _ ← pop
  | .loadLoc slot | .loadLocNoRef slot => do push (← loadLocal slot.toNat)
  | .setLoc slot | .setLocNoRef slot => store slot
  | .arith op => apply₂ (Calc.arith op)
  | .arithNum op => apply₂ (Calc.onNumbers fun x y => .number (op.apply x y))
  | .order op => apply₂ (Calc.order op)
  | .orderNum op => apply₂ (Calc.onNumbers fun x y => .bool (op.apply x y))
  | .equals negated => apply₂ (Calc.equal negated)
  | .equalsNum negated => apply₂ (Calc.onNumbers fun x y => .bool ((x == y) != negated))
  | .neg => apply Calc.neg
  | .negNum => apply Calc.negNum
  | .not => apply Calc.not
  | .jump target => do jumpTo (← jumpTarget env target)
  | .jumpIf on target => jumpIf env on target
  | .invoke id => invoke env.registry id
  | .invokeStatic id => invokeStatic env.registry id
  | .invokeDynamic name argc => invokeDynamic env name argc
  | .getProperty id => getProperty env.registry id
  | .setProperty id => setProperty env.registry id
  | .getStaticProperty id => getStaticProperty env.registry id
  | .setStaticProperty id => setStaticProperty env.registry id
  | .getDynamicProperty name => getDynamicProperty env name
  | .setDynamicProperty name => setDynamicProperty env name
  | .new id => construct env.registry id
  | .checkType ty => checkAt env.registry ty 0
  | .peekCheckType ty depth => checkAt env.registry ty depth.toNat
  | .loop count length => enterLoop env count.toInt.toNat length
  | .loopNum length => enterLoopNum env length
  | .ret => ret
  | .exit => unwind

def rangeEnd (env : RunEnv) (v : View) : Nat :=
  match v.loops with
  | frame :: _ => frame.stop
  | [] => env.script.code.size

def step (env : RunEnv) : Plain Flow := fun v =>
  if v.pc < rangeEnd env v then
    match env.script.fetch v.pc with
    | .ok (i, pc) => (effect env i).map (fun _ => i.flow) { v with pc }
    | .error f => .error f v
  else match v.loops with
    | [] => .ok .stop v
    | frame :: outer =>
      match frame.left with
      | left + 1 => .ok .next { v with pc := frame.start, loops := { frame with left } :: outer }
      | 0 => .ok .next { v with pc := frame.stop, loops := outer }

end Plain

end HostScript
