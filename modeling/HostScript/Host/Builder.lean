import HostScript.Host.Registry
import HostScript.Text.Case

namespace HostScript.Registry

-- Registers a class of objects as a type. A class that is registered again goes by its latest type.
def addType (r : Registry) (cls : ObjectClass) (ns name : String) : Nat × Registry :=
  let id := r.types.size
  let def_ : TypeDef := ⟨id, Text.lower ns, Text.lower name, none⟩
  (id, { r with types := r.types.push def_, classes := (cls, id) :: r.classes })

def namespaceOf (r : Registry) (ty : Nat) : String :=
  (r.types[ty]?.map (·.ns)).getD ""

def addMethod (r : Registry) (ns name : String) (owner : Option Nat) (params : List Ty)
    (returns : Ty) (call : MethodBody) : Nat × Registry :=
  let id := r.methods.size
  (id, { r with methods := r.methods.push ⟨id, ns, Text.lower name, owner, params, returns, call⟩ })

def addProperty (r : Registry) (ns name : String) (owner : Option Nat) (ty : Ty)
    (getter : Option Getter) (setter : Option Setter) : Nat × Registry :=
  let id := r.properties.size
  (id, { r with
    properties := r.properties.push ⟨id, ns, Text.lower name, owner, ty, getter, setter⟩ })

-- Static members see no receiver, whatever they are called with.
def addStaticMethod (r : Registry) (ns name : String) (params : List Ty) (returns : Ty)
    (call : CallContext → List Value → HostM Value) : Nat × Registry :=
  r.addMethod (Text.lower ns) name none params returns fun ctx _ args => call ctx args

-- Hands the receiver on if it is of the expected class.
def receiver (cls : ObjectClass) (member : String) (this : Option ObjectRef) : HostM ObjectRef :=
  match this with
  | some o => if o.cls = cls then pure o else HostM.fail (.receiver member)
  | none => HostM.fail (.receiver member)

def addInstanceMethod (r : Registry) (owner : Nat) (cls : ObjectClass) (name : String)
    (params : List Ty) (returns : Ty) (call : CallContext → ObjectRef → List Value → HostM Value) :
    Nat × Registry :=
  let member := Text.lower name
  r.addMethod (r.namespaceOf owner) name (some owner) params returns fun ctx this args => do
    call ctx (← receiver cls member this) args

def addStaticProperty (r : Registry) (ns name : String) (ty : Ty) (get : HostM Value)
    (set : Option (Value → HostM Unit)) : Nat × Registry :=
  r.addProperty (Text.lower ns) name none ty (some fun _ => get) (set.map fun s _ v => s v)

def addInstanceProperty (r : Registry) (owner : Nat) (cls : ObjectClass) (name : String) (ty : Ty)
    (get : ObjectRef → HostM Value) (set : Option (ObjectRef → Value → HostM Unit)) :
    Nat × Registry :=
  let member := Text.lower name
  let getter : Getter := fun this => do get (← receiver cls member this)
  let setter : Option Setter := set.map fun s this v => do s (← receiver cls member this) v
  r.addProperty (r.namespaceOf owner) name (some owner) ty (some getter) setter

def addConst (r : Registry) (ns name : String) (value : Literal) : Registry :=
  { r with consts := r.consts.push ⟨Text.lower ns, Text.lower name, value⟩ }

def addConstructor (r : Registry) (ty : Nat) (params : List Ty) (build : Builder) :
    Nat × Registry :=
  let id := r.constructors.size
  (id, { r with constructors := r.constructors.push ⟨id, ty, params, build⟩ })

-- Makes a type usable in `foreach`. The count is a readable property of the type and the item
-- method takes one argument; both must be the only members of their kind with that name.
def addIteration (r : Registry) (ty : Nat) (count getItem : String) :
    Except HostError Registry :=
  let count := Text.lower count
  let getItem := Text.lower getItem
  match r.instanceProperties ty count with
  | [p] =>
    if p.getter.isNone then .error (noCount count)
    else match r.instanceMethods ty getItem with
      | [m] =>
        if m.params.length ≠ 1 then .error (noItem getItem)
        else match r.types[ty]? with
          | some t =>
            let t := { t with iteration := some ⟨p.id, m.id⟩ }
            .ok { r with types := r.types.setIfInBounds ty t }
          | none => .error (.failed s!"unknown host type {ty}")
      | _ => .error (noItem getItem)
  | _ => .error (noCount count)
where
  noCount (name : String) : HostError :=
    .failed s!"iteration count property '{name}' is not registered"
  noItem (name : String) : HostError :=
    .failed s!"iteration item method '{name}' is not registered"

end HostScript.Registry
