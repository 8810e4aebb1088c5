import HostScript.Host.World

namespace HostScript

-- Why a host refuses a call.
inductive HostError where
  | failed (message : String)
  | argumentType (member : String) (index : Nat) (expected : String)
  | receiver (member : String)
  | indexOutOfRange (index : Float) (length : Nat)
  | readOnly (name : String)
  deriving Inhabited

def HostError.message : HostError → String
  | .failed message => message
  | .argumentType member index expected =>
    s!"'{member}' expects argument {index} to be {expected}"
  | .receiver member => s!"'{member}' was called on an object of the wrong type"
  | .indexOutOfRange index length =>
    s!"Index {Number.plain index} is out of range for {length} items"
  | .readOnly name => s!"'{name}' is read-only"

-- The outcome of a call: a result or a refusal, the world afterwards and the lines printed
-- meanwhile.
structure Reply (α : Type) where
  result : Except HostError α
  world : World
  printed : List String := []

-- Host code: it reads and changes the world, may print, and may refuse.
def HostM (α : Type) := World → Reply α

namespace HostM

instance : Monad HostM where
  pure a := fun w => ⟨.ok a, w, []⟩
  bind x f := fun w =>
    let r := x w
    match r.result with
    | .ok a =>
      let s := f a r.world
      { s with printed := r.printed ++ s.printed }
    | .error e => ⟨.error e, r.world, r.printed⟩

def fail {α : Type} (e : HostError) : HostM α :=
  fun w => ⟨.error e, w, []⟩

def world : HostM World :=
  fun w => ⟨.ok w, w, []⟩

def setWorld (w : World) : HostM Unit :=
  fun _ => ⟨.ok (), w, []⟩

def print (line : String) : HostM Unit :=
  fun w => ⟨.ok (), w, [line]⟩

def silently {α : Type} (x : HostM α) : HostM α :=
  fun w => { x w with printed := [] }

end HostM

-- What a method may ask about the script that calls it: the registered type name of an object.
structure CallContext where
  typeName? : ObjectRef → Option String

-- Outside a running script no type names are known.
def CallContext.none : CallContext :=
  ⟨fun _ => Option.none⟩

-- The receiver is absent for static members.
abbrev MethodBody := CallContext → Option ObjectRef → List Value → HostM Value

abbrev Getter := Option ObjectRef → HostM Value

abbrev Setter := Option ObjectRef → Value → HostM Unit

abbrev Builder := List Value → HostM ObjectRef

end HostScript
