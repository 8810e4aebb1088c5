import HostScript.Host.Call
import HostScript.Script.Basic

namespace HostScript

-- The members through which `foreach` walks a type.
structure IterationMembers where
  count : Nat
  getItem : Nat
  deriving DecidableEq, Repr

structure TypeDef where
  id : Nat
  ns : String
  name : String
  iteration : Option IterationMembers

-- The owner is absent for static methods.
structure MethodDef where
  id : Nat
  ns : String
  name : String
  owner : Option Nat
  params : List Ty
  returns : Ty
  call : MethodBody

structure PropertyDef where
  id : Nat
  ns : String
  name : String
  owner : Option Nat
  ty : Ty
  getter : Option Getter
  setter : Option Setter

structure ConstDef where
  ns : String
  name : String
  value : Literal

structure ConstructorDef where
  id : Nat
  ty : Nat
  params : List Ty
  build : Builder

-- Everything a host offers to scripts. Types and members are addressed by their position, and names
-- are in lower case. `classes` says under which type each class of objects is known, latest
-- registration first.
structure Registry where
  types : Array TypeDef := #[]
  classes : List (ObjectClass × Nat) := []
  methods : Array MethodDef := #[]
  properties : Array PropertyDef := #[]
  consts : Array ConstDef := #[]
  constructors : Array ConstructorDef := #[]

-- Splits a qualified name at its last point.
def splitQualified (name : String) : Option String × String :=
  let back := name.toList.reverse
  let short := back.takeWhile (· ≠ '.')
  match back.dropWhile (· ≠ '.') with
  | _ :: ns => (some (String.ofList ns.reverse), String.ofList short.reverse)
  | [] => (none, name)

namespace Registry

def empty : Registry := {}

-- Every namespace that holds a type, a static member or a constant.
def namespacesUnsorted (r : Registry) : List String :=
  r.types.toList.map (·.ns) ++
  (r.methods.toList.filter (·.owner.isNone)).map (·.ns) ++
  (r.properties.toList.filter (·.owner.isNone)).map (·.ns) ++
  r.consts.toList.map (·.ns)

-- The namespaces in ascending order, each once.
def namespaces (r : Registry) : List String :=
  (r.namespacesUnsorted.foldl (fun sorted ns => putSorted ns () sorted) []).map (·.1)

def hasNamespace (r : Registry) (ns : String) : Bool :=
  r.namespacesUnsorted.contains ns

def typesNamed (r : Registry) (ns name : String) : List TypeDef :=
  r.types.toList.filter fun t => t.ns = ns && t.name = name

def staticMethods (r : Registry) (ns name : String) : List MethodDef :=
  r.methods.toList.filter fun m => m.owner.isNone && m.ns = ns && m.name = name

def staticProperties (r : Registry) (ns name : String) : List PropertyDef :=
  r.properties.toList.filter fun p => p.owner.isNone && p.ns = ns && p.name = name

def constsNamed (r : Registry) (ns name : String) : List ConstDef :=
  r.consts.toList.filter fun c => c.ns = ns && c.name = name

def instanceMethods (r : Registry) (ty : Nat) (name : String) : List MethodDef :=
  r.methods.toList.filter fun m => m.owner = some ty && m.name = name

def instanceProperties (r : Registry) (ty : Nat) (name : String) : List PropertyDef :=
  r.properties.toList.filter fun p => p.owner = some ty && p.name = name

def constructorsOf (r : Registry) (ty : Nat) : List ConstructorDef :=
  r.constructors.toList.filter (·.ty = ty)

-- The types a name may mean: a built-in type, a type of the namespace in front of the last point,
-- or types of the given namespaces.
def resolveType (r : Registry) (imports : List String) (name : String) : List Ty :=
  match Ty.builtin? name with
  | some ty => [ty]
  | none =>
    let found := match splitQualified name with
      | (some ns, short) => r.typesNamed ns short
      | (none, short) => imports.flatMap (r.typesNamed · short)
    found.map (Ty.object ·.id)

-- The type an object is registered under, by its class.
def typeOfObject? (r : Registry) (o : ObjectRef) : Option Nat :=
  r.classes.lookup o.cls

-- The type a value has while a script runs. Objects of unregistered classes are dynamic.
def typeOf (r : Registry) : Value → Ty
  | .null => .null
  | .number x => if Number.isWhole x then .long else .double
  | .bool _ => .bool
  | .text _ => .string
  | .object o => ((r.typeOfObject? o).map Ty.object).getD .dynamic

-- The name of a type for messages; registered types go by their qualified name.
def typeName (r : Registry) (ty : Ty) : String :=
  match ty with
  | .object id =>
    match r.types[id]? with
    | some t => s!"{t.ns}.{t.name}"
    | none => ty.text
  | _ => ty.text

def callContext (r : Registry) : CallContext :=
  ⟨fun o => (r.typeOfObject? o).map fun id => r.typeName (.object id)⟩

end Registry

end HostScript
