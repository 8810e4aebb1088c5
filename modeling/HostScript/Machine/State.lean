import HostScript.Code.Compiled
import HostScript.Host.Registry
import HostScript.Machine.Limits
import HostScript.Machine.References

namespace HostScript

-- What a stack position or a variable holds. Texts and objects are kept in the reference table and
-- found by their handle; each place that holds one counts as one reference.
inductive Cell where
  | null
  | number (x : Float)
  | bool (b : Bool)
  | text (handle : Nat)
  | object (handle : Nat)
  deriving Inhabited

namespace Cell

def handle? : Cell → Option Nat
  | .text h | .object h => some h
  | _ => none

def kindName : Cell → String
  | .null => "null"
  | .number x => if Number.isWhole x then "long" else "double"
  | .bool _ => "bool"
  | .text _ => "string"
  | .object _ => "object"

end Cell

-- A counted loop being run: where its body starts and stops, and how many rounds are still to come
-- after this one.
structure LoopFrame where
  start : Nat
  stop : Nat
  left : Nat
  deriving DecidableEq, Repr, Inhabited

-- The whole state of a run. The top of the stack and the innermost loop come first. The host's
-- world is part of it, and so is everything the run has reported so far. Between runs, `runs` says
-- how many there were.
structure Machine where
  stackCapacity : Nat
  stack : List Cell := []
  locals : Array Cell
  refs : References
  loops : List LoopFrame := []
  pc : Nat := 0
  returned : Value := .null
  runs : Nat := 0
  world : World := World.empty
  printed : Array String := #[]
  warnings : Array Warning := #[]

def Machine.new (limits : Limits) (world : World) : Machine :=
  { stackCapacity := limits.stack
    locals := Array.replicate limits.locals .null
    refs := References.ofCapacity limits.references
    world }

-- What a running script sees and never changes.
structure RunEnv where
  registry : Registry
  script : CompiledScript

-- What a host does to its world when it is told that a script holds an object, or no longer does.
class HostHooks where
  tell : Hook → World → World

-- A host of which nothing else is known does nothing then. The reference meaning of scripts, which
-- knows values only, is about such hosts.
instance (priority := low) HostHooks.idle : HostHooks :=
  ⟨fun _ w => w⟩

-- The world after all that was told, one after the other.
def HostHooks.tellAll [HostHooks] (hooks : List Hook) (w : World) : World :=
  hooks.foldl (fun w hook => tell hook w) w

theorem HostHooks.tellAll_eq_self [HostHooks] (h : ∀ hook w, tell hook w = w) (hooks : List Hook)
    (w : World) : tellAll hooks w = w := by
  induction hooks with
  | nil => rfl
  | cons hook hooks ih =>
      rw [tellAll, List.foldl_cons, h]
      exact ih

@[simp] theorem HostHooks.tellAll_idle (hooks : List Hook) (w : World) :
    @tellAll idle hooks w = w :=
  @tellAll_eq_self idle (fun _ _ => rfl) hooks w

-- Work on a machine. A fault leaves the machine as it was when the fault arose.
abbrev Work := EStateM Fault Machine

namespace Work

-- The outcome of some work as a value, so that cleaning up can come before a fault is passed on.
def attempt {α : Type} (x : Work α) : Work (Except Fault α) := fun m =>
  match x m with
  | .ok a m => .ok (.ok a) m
  | .error e m => .ok (.error e) m

def settle {α : Type} : Except Fault α → Work α
  | .ok a => pure a
  | .error e => throw e

-- Runs something that changes the reference table. The host acts on what it is told by that.
def onRefs [HostHooks] {α : Type} (f : References → Except Fault (α × References)) : Work α := fun m =>
  match f m.refs with
  | .ok (a, refs) =>
    .ok a { m with refs, world := HostHooks.tellAll (refs.toldSince m.refs) m.world }
  | .error e => .error e m

def readRefs {α : Type} (f : References → Except Fault α) : Work α := fun m =>
  match f m.refs with
  | .ok a => .ok a m
  | .error e => .error e m

def release [HostHooks] (c : Cell) : Work Unit :=
  match c.handle? with
  | some h => onRefs fun t => do return ((), ← t.release h)
  | none => pure ()

def releaseAll [HostHooks] : List Cell → Work Unit
  | [] => pure ()
  | c :: rest => do
    release c
    releaseAll rest

-- A value that finds no room on the stack gives its reference back.
def push [HostHooks] (c : Cell) : Work Unit := do
  let m ← get
  if m.stack.length < m.stackCapacity then set { m with stack := c :: m.stack }
  else do
    release c
    throw (.stackOverflow m.stackCapacity)

def pop : Work Cell := fun m =>
  match m.stack with
  | c :: stack => .ok c { m with stack }
  | [] => .error .stackUnderflow m

-- The top `count` values in the order in which they were pushed.
def popMany (count : Nat) : Work (List Cell) := fun m =>
  if count ≤ m.stack.length then
    .ok (m.stack.take count).reverse { m with stack := m.stack.drop count }
  else .error .stackUnderflow m

-- The value `depth` places below the top.
def peek (depth : Nat) : Work Cell := fun m =>
  match m.stack[depth]? with
  | some c => .ok c m
  | none => .error .stackUnderflow m

def loadLocal (slot : Nat) : Work Cell := fun m =>
  match m.locals[slot]? with
  | some c => .ok c m
  | none => .error (.noSuchLocal slot) m

-- Exchanges the value of an existing variable; the answer is the old one.
def storeLocal (slot : Nat) (c : Cell) : Work Cell := do
  let old ← loadLocal slot
  modify fun m => { m with locals := m.locals.setIfInBounds slot c }
  return old

def jumpTo (pc : Nat) : Work Unit :=
  modify fun m => { m with pc }

def warn (w : Warning) : Work Unit :=
  modify fun m => { m with warnings := m.warnings.push w }

-- Copies a value out for the host.
def toValue : Cell → Work Value
  | .null => return .null
  | .number x => return .number x
  | .bool b => return .bool b
  | .text h => return .text (← readRefs (·.text h))
  | .object h => return .object (← readRefs (·.object h))

def toValues : List Cell → Work (List Value)
  | [] => return []
  | c :: rest => do
    let v ← toValue c
    return v :: (← toValues rest)

-- Takes a value in from the host, with one reference when it needs one.
def ofValue [HostHooks] : Value → Work Cell
  | .null => return .null
  | .number x => return .number x
  | .bool b => return .bool b
  | .text s => return .text (← onRefs (·.insertText s))
  | .object o => return .object (← onRefs (·.acquire o))

-- The object behind a value, for a member that needs one.
def objectOf (member : String) : Cell → Work ObjectRef
  | .object h => readRefs (·.object h)
  | c => throw (.noMembers member c.kindName)

-- The type of a value while the script runs.
def typeOf (r : Registry) (c : Cell) : Work Ty := do
  match c with
  | .null => return .null
  | .number x => return if Number.isWhole x then .long else .double
  | .bool _ => return .bool
  | .text _ => return .string
  | .object h =>
    match (← get).refs.get? h with
    | some (.object o) => return r.typeOf (.object o)
    | _ => return .dynamic

-- The text of a value in a concatenation.
def display (c : Cell) : Work String := do
  let v ← toValue c
  return (← get).world.display v

-- Calls host code. What it prints and changes counts even if it refuses.
def host {α : Type} (x : HostM α) : Work α := fun m =>
  let r := x m.world
  let m := { m with world := r.world, printed := m.printed ++ r.printed.toArray }
  match r.result with
  | .ok a => .ok a m
  | .error e => .error (.refused e) m

end Work

end HostScript
