import HostScript.Proofs.Machine.Composition

namespace HostScript

-- A call of host code: what is called, on which object, and with what.
inductive HostCall where
  | method (call : MethodBody) (receiver : Option ObjectRef) (args : List Value)
  | read (get : Getter) (receiver : Option ObjectRef)
  | write (set : Setter) (receiver : Option ObjectRef) (value : Value)
  | build (make : Builder) (args : List Value)

namespace Work

-- The method that a call by name ends up at.
def callOfNamed (r : Registry) (name : String) (target : Cell) (args : List Cell) :
    Work HostCall := do
  let ty ← instanceType r name target
  let o ← objectOf name target
  let d ← methodNamed r ty name args.length
  checkArgs r name 1 d.params args
  return .method d.call (some o) (← toValues args)

-- The property that is read by name, or the method that stands in for it.
def readOfNamed (r : Registry) (name : String) (target : Cell) : Work HostCall := do
  let ty ← instanceType r name target
  let o ← objectOf name target
  match (r.instanceProperties ty name).filterMap fun p => p.getter.map fun f => (p.ty, f) with
  | [(_, get)] => return .read get (some o)
  | _ =>
    match (r.instanceMethods ty name).filter (·.params.isEmpty) with
    | [d] => return .method d.call (some o) []
    | _ => throw (.notReadable (r.typeName (.object ty)) name)

def writeOfNamed (r : Registry) (name : String) (target c : Cell) : Work HostCall := do
  let ty ← instanceType r name target
  let o ← objectOf name target
  match (r.instanceProperties ty name).filterMap fun p => p.setter.map fun f => (p.ty, f) with
  | [(declared, set)] =>
    let actual ← typeOf r c
    if declared.admits actual then do
      return .write set (some o) (← toValue c)
    else throw (.badPropertyValue name (r.typeName declared) (r.typeName actual))
  | _ => throw (.notWritable (r.typeName (.object ty)) name)

-- The call that an instruction makes of the host. It makes one at most, and none if it fails before.
def hostCall [HostHooks] (env : RunEnv) : Instr → Work (Option HostCall)
  | .invokeStatic id => do
    let d ← methodAt env.registry id
    let args ← popArgs d.params.length
    return some (.method d.call none args)
  | .invoke id => do
    let d ← methodAt env.registry id
    let args ← popArgs d.params.length
    let o ← objectOf d.name (← pop)
    return some (.method d.call (some o) args)
  | .invokeDynamic name argc => do
    let name ← poolString env name
    let args ← popMany argc.toNat
    return some (← callOfNamed env.registry name (← pop) args)
  | .getProperty id => do
    let d ← propertyAt env.registry id
    let get ← getterOf d
    let o ← objectOf d.name (← pop)
    return some (.read get (some o))
  | .getStaticProperty id => do
    let get ← getterOf (← propertyAt env.registry id)
    return some (.read get none)
  | .setProperty id => do
    let d ← propertyAt env.registry id
    let set ← setterOf d
    let c ← pop
    let o ← objectOf d.name (← pop)
    return some (.write set (some o) (← toValue c))
  | .setStaticProperty id => do
    let set ← setterOf (← propertyAt env.registry id)
    return some (.write set none (← toValue (← pop)))
  | .getDynamicProperty name => do
    let name ← poolString env name
    return some (← readOfNamed env.registry name (← pop))
  | .setDynamicProperty name => do
    let name ← poolString env name
    let c ← pop
    return some (← writeOfNamed env.registry name (← pop) c)
  | .new id => do
    let d ← constructorAt env.registry id
    return some (.build d.build (← popArgs d.params.length))
  | _ => return none

variable [HostHooks] {P Q : ∀ {α : Type}, Work α → Prop}

theorem Reads.callOfNamed (hP : Reads P) (r : Registry) (name : String) (target : Cell)
    (args : List Cell) : P (Work.callOfNamed r name target args) :=
  hP.bind (hP.instanceType r name target) fun ty => hP.bind (hP.objectOf name target) fun _ =>
    hP.bind (hP.methodNamed r ty name args.length) fun d =>
      hP.bind (hP.checkArgs r name 1 d.params args) fun _ => hP.bind (hP.toValues args) fun _ =>
        hP.pure _

theorem Reads.readOfNamed (hP : Reads P) (r : Registry) (name : String) (target : Cell) :
    P (Work.readOfNamed r name target) := by
  refine hP.bind (hP.instanceType r name target) fun ty =>
    hP.bind (hP.objectOf name target) fun o => ?_
  split
  · exact hP.pure _
  · split
    · exact hP.pure _
    · exact hP.throw rfl

theorem Reads.writeOfNamed (hP : Reads P) (r : Registry) (name : String) (target c : Cell) :
    P (Work.writeOfNamed r name target c) := by
  refine hP.bind (hP.instanceType r name target) fun ty =>
    hP.bind (hP.objectOf name target) fun o => ?_
  split
  · refine hP.bind (hP.typeOf r c) fun actual => ?_
    split
    · exact hP.bind (hP.toValue c) fun _ => hP.pure _
    · exact hP.throw rfl
  · exact hP.throw rfl

-- Finding out which call it is takes nothing but looking things up and taking values off the stack.
theorem Takes.hostCall (hP : Takes Q P) (env : RunEnv) (i : Instr) : P (Work.hostCall env i) := by
  have hread : ∀ {α : Type} {x : Work α}, Q x → P x := hP.of_reads
  cases i with
  | invokeStatic id =>
      exact hP.bind (hP.methodAt _ id) fun _ => hP.bind (hP.popArgs _) fun _ => hP.pure _
  | invoke id =>
      exact hP.bind (hP.methodAt _ id) fun _ => hP.bind (hP.popArgs _) fun _ =>
        hP.bind hP.pop fun _ => hP.bind (hread (hP.reads.objectOf _ _)) fun _ => hP.pure _
  | invokeDynamic name argc =>
      exact hP.bind (hP.poolString env name) fun _ => hP.bind (hP.popMany _) fun _ =>
        hP.bind hP.pop fun _ => hP.bind (hread (hP.reads.callOfNamed _ _ _ _)) fun _ => hP.pure _
  | getProperty id =>
      exact hP.bind (hP.propertyAt _ id) fun d => hP.bind (hread (hP.reads.getterOf d)) fun _ =>
        hP.bind hP.pop fun _ => hP.bind (hread (hP.reads.objectOf _ _)) fun _ => hP.pure _
  | getStaticProperty id =>
      exact hP.bind (hP.propertyAt _ id) fun d => hP.bind (hread (hP.reads.getterOf d)) fun _ =>
        hP.pure _
  | setProperty id =>
      exact hP.bind (hP.propertyAt _ id) fun d => hP.bind (hread (hP.reads.setterOf d)) fun _ =>
        hP.bind hP.pop fun c => hP.bind hP.pop fun _ =>
          hP.bind (hread (hP.reads.objectOf _ _)) fun _ =>
            hP.bind (hread (hP.reads.toValue c)) fun _ => hP.pure _
  | setStaticProperty id =>
      exact hP.bind (hP.propertyAt _ id) fun d => hP.bind (hread (hP.reads.setterOf d)) fun _ =>
        hP.bind hP.pop fun c => hP.bind (hread (hP.reads.toValue c)) fun _ => hP.pure _
  | getDynamicProperty name =>
      exact hP.bind (hP.poolString env name) fun _ => hP.bind hP.pop fun _ =>
        hP.bind (hread (hP.reads.readOfNamed _ _ _)) fun _ => hP.pure _
  | setDynamicProperty name =>
      exact hP.bind (hP.poolString env name) fun _ => hP.bind hP.pop fun c =>
        hP.bind hP.pop fun _ => hP.bind (hread (hP.reads.writeOfNamed _ _ _ c)) fun _ => hP.pure _
  | new id =>
      exact hP.bind (hP.constructorAt _ id) fun _ => hP.bind (hP.popArgs _) fun _ => hP.pure _
  | _ => exact hP.pure _

end Work

namespace Machine

variable [HostHooks]

-- The calls that one instruction makes of the host.
def callsOf (env : RunEnv) (i : Instr) (m : Machine) : List HostCall :=
  match Work.hostCall env i m with
  | .ok call _ => call.toList
  | .error _ _ => []

-- The calls that the next step makes.
def stepCalls (env : RunEnv) (m : Machine) : List HostCall :=
  if m.pc < Work.rangeEnd env m then
    match env.script.fetch m.pc with
    | .ok (i, pc) => callsOf env i { m with pc }
    | .error _ => []
  else []

-- All calls of a run with their receivers and arguments, in order.
def hostCalls (env : RunEnv) : (fuel : Nat) → Machine → List HostCall
  | 0, _ => []
  | fuel + 1, m =>
    match Work.step env m with
    | .ok .next m' => m.stepCalls env ++ hostCalls env fuel m'
    | _ => m.stepCalls env

end Machine

end HostScript
