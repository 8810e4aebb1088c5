import HostScript.Host.Core

namespace HostScript

-- A value that is made anew each time it is asked for.
inductive Blueprint where
  | null
  | bool (b : Bool)
  | number (x : Float)
  | text (s : String)
  | list (items : List Blueprint)
  | shared (label : String) (kind : Nat)
  | foreign (label : String)
  deriving Inhabited

namespace World

-- The shared object of that label, made with the given kind when it is first asked for.
def share (w : World) (label : String) (kind : Nat) : ObjectRef × World :=
  match w.shared.lookup label with
  | some o => (o, w)
  | none =>
    let (o, w) := w.alloc (.record kind) label (.fields [])
    (o, { w with shared := (label, o) :: w.shared })

mutual

-- Makes the value a blueprint describes.
def make (w : World) : Blueprint → Value × World
  | .null => (.null, w)
  | .bool b => (.bool b, w)
  | .number x => (.number x, w)
  | .text s => (.text s, w)
  | .list items =>
    let (values, w) := makeAll w items
    let (o, w) := w.alloc .list "" (.items values.toArray)
    (.object o, w)
  | .shared label kind =>
    let (o, w) := w.share label kind
    (.object o, w)
  | .foreign label =>
    let (o, w) := w.alloc .foreign label (.fields [])
    (.object o, w)

def makeAll (w : World) : List Blueprint → List Value × World
  | [] => ([], w)
  | b :: rest =>
    let (v, w) := make w b
    let (vs, w) := makeAll w rest
    (v :: vs, w)

end

end World

-- What a declared member does when it is called.
inductive Behaviour where
  | null
  | give (value : Blueprint)
  | arg (index : Nat)
  | argc
  | fail (message : String)
  | readOnly (name : String)
  | print (lead : String)
  | scale (factor : Float)
  | get (field : String)
  | set (field : String)
  | share (label : String) (kind : Nat)
  deriving Inhabited

namespace Behaviour

-- Reads a field of the receiver, or a named value of the host when there is no receiver.
def readField (this : Option ObjectRef) (field : String) : HostM Value := do
  let w ← HostM.world
  let known := match this with
    | some o => w.fields o
    | none => w.globals
  return (known.lookup field).getD .null

def writeField (this : Option ObjectRef) (field : String) (value : Value) : HostM Unit := do
  let w ← HostM.world
  match this with
  | some o => HostM.setWorld (w.setField o field value)
  | none => HostM.setWorld { w with globals := putSorted field value w.globals }

def run (b : Behaviour) (this : Option ObjectRef) (args : List Value) : HostM Value :=
  match b with
  | .null => return .null
  | .give value => do
    let (v, w) := (← HostM.world).make value
    HostM.setWorld w
    return v
  | .arg index => return Core.argument args index
  | .argc => return .number (Float.ofNat args.length)
  | .fail message => HostM.fail (.failed message)
  | .readOnly name => HostM.fail (.readOnly name)
  | .print lead => do
    let w ← HostM.world
    HostM.print (lead ++ String.intercalate "," (args.map w.display))
    return .null
  | .scale factor => do
    return .number ((← Core.numberArg args 0 "scale") * factor)
  | .get field => readField this field
  | .set field => do
    writeField this field (Core.argument args 0)
    return .null
  | .share label kind => do
    let (o, w) := (← HostM.world).share label kind
    HostM.setWorld w
    return .object o

-- Properties never print.
def getter (b : Behaviour) (this : Option ObjectRef) : HostM Value :=
  HostM.silently (b.run this [])

def setter (b : Behaviour) (this : Option ObjectRef) (value : Value) : HostM Unit :=
  HostM.silently do
    let _ ← b.run this [value]

end Behaviour

-- A record made by a constructor is labelled by its number and keeps its arguments as fields.
def buildRecord (kind : Nat) (fail : Option String) (args : List Value) : HostM ObjectRef :=
  match fail with
  | some message => HostM.fail (.failed message)
  | none => do
    let w ← HostM.world
    let serial := w.made + 1
    let named := args.mapIdx fun i v => (s!"a{i}", v)
    let fields := named.foldl (fun fields (name, v) => putSorted name v fields) []
    let (o, w) := w.alloc (.record kind) s!"#{serial}" (.fields fields)
    HostM.setWorld { w with made := serial }
    return o

-- One step in describing a host by data.
inductive Declaration where
  | coreLibrary
  | type (ns name : String) (kind times : Nat)
  | staticMethod (ns name : String) (params : List Ty) (returns : Ty) (body : Behaviour)
  | instanceMethod (owner kind : Nat) (name : String) (params : List Ty) (returns : Ty)
      (body : Behaviour)
  | staticProperty (ns name : String) (ty : Ty) (get : Behaviour) (set : Option Behaviour)
  | instanceProperty (owner kind : Nat) (name : String) (ty : Ty) (get : Behaviour)
      (set : Option Behaviour)
  | const (ns name : String) (value : Literal)
  | constructor (owner kind : Nat) (params : List Ty) (fail : Option String)
  | iterable (owner : Nat) (count getItem : String)

namespace Declaration

def addTypes (r : Registry) (ns name : String) (kind : Nat) : Nat → Option Nat × Registry
  | 0 => (none, r)
  | 1 =>
    let (id, r) := r.addType (.record kind) ns name
    (some id, r)
  | times + 1 => addTypes (r.addType (.record kind) ns name).2 ns name kind times

def numbered (added : Nat × Registry) : Except HostError (Option Nat) × Registry :=
  (.ok (some added.1), added.2)

def unnumbered (answer : Except HostError Unit) : Except HostError (Option Nat) :=
  answer.map fun _ => none

def replaced (r : Registry) (result : Except HostError Registry) :
    Except HostError (Option Nat) × Registry :=
  match result with
  | .ok next => (.ok none, next)
  | .error e => (.error e, r)

-- Adds what is declared. The answer is the number of the new type or member, nothing for
-- declarations without one, or a refusal. A refused iteration leaves the registry as it was; a
-- refused core library leaves its members in it.
def apply (r : Registry) : Declaration → Except HostError (Option Nat) × Registry
  | .coreLibrary =>
    let (answer, r) := Core.register r
    (unnumbered answer, r)
  | .type ns name kind times =>
    let (id, r) := addTypes r ns name kind times
    (.ok id, r)
  | .staticMethod ns name params returns body =>
    numbered (r.addStaticMethod ns name params returns fun _ args => body.run none args)
  | .instanceMethod owner kind name params returns body =>
    numbered (r.addInstanceMethod owner (.record kind) name params returns
      fun _ this args => body.run (some this) args)
  | .staticProperty ns name ty get set =>
    numbered (r.addStaticProperty ns name ty (get.getter none)
      (set.map fun s v => s.setter none v))
  | .instanceProperty owner kind name ty get set =>
    numbered (r.addInstanceProperty owner (.record kind) name ty
      (fun this => get.getter (some this))
      (set.map fun s this v => s.setter (some this) v))
  | .const ns name value => (.ok none, r.addConst ns name value)
  | .constructor owner kind params fail =>
    numbered (r.addConstructor owner params (buildRecord kind fail))
  | .iterable owner count getItem => replaced r (r.addIteration owner count getItem)

-- Applies declarations in order and collects their answers.
def applyAll (r : Registry) : List Declaration → List (Except HostError (Option Nat)) × Registry
  | [] => ([], r)
  | d :: rest =>
    let (answer, r) := d.apply r
    let (answers, r) := applyAll r rest
    (answer :: answers, r)

end Declaration

end HostScript
