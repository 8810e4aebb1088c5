import HostScript.Machine.Fault
import Std.Data.TreeMap

namespace HostScript

-- What a payload's host is told: that a script now holds an object, or no longer does.
inductive Hook where
  | acquired (o : ObjectRef)
  | released (o : ObjectRef)
  deriving DecidableEq, Repr

-- A payload and how many places hold it.
structure Reference where
  payload : Payload
  count : Nat
  deriving DecidableEq, Repr

-- The texts and objects a script holds, addressed by their position. A position is in use from the
-- reference that takes its count to one until the release that takes it back to zero. An object has
-- at most one position, which `holders` finds. `free` lists the positions to be used again, latest
-- first, and `hooks` what the host was told, in order.
structure References where
  capacity : Nat
  slots : Array (Option Reference) := #[]
  free : List Nat := []
  holders : Std.TreeMap ObjectRef Nat := ∅
  hooks : Array Hook := #[]

namespace References

def ofCapacity (capacity : Nat) : References :=
  { capacity := capacity }

def find? (t : References) (h : Nat) : Option Reference :=
  (t.slots[h]?).join

def get? (t : References) (h : Nat) : Option Payload :=
  (t.find? h).map (·.payload)

def count? (t : References) (h : Nat) : Option Nat :=
  (t.find? h).map (·.count)

-- Number of positions in use.
def live (t : References) : Nat :=
  t.slots.size - t.free.length

-- Takes a position for a payload that has none. Positions given back are used again before the
-- table grows.
def allocate (t : References) (payload : Payload) : Except Fault (Nat × References) :=
  let entry := some ⟨payload, 1⟩
  match t.free with
  | h :: free => .ok (h, { t with slots := t.slots.setIfInBounds h entry, free })
  | [] =>
    if t.slots.size < t.capacity then
      .ok (t.slots.size, { t with slots := t.slots.push entry })
    else .error (.referencesFull t.capacity)

-- Every text gets a position of its own.
def insertText (t : References) (s : String) : Except Fault (Nat × References) :=
  t.allocate (.text s)

def addRef (t : References) (h : Nat) : Except Fault References :=
  match t.find? h with
  | some e => .ok { t with slots := t.slots.setIfInBounds h (some { e with count := e.count + 1 }) }
  | none => .error (.deadHandle h)

-- One more reference to an object, in its position if it has one.
def acquire (t : References) (o : ObjectRef) : Except Fault (Nat × References) :=
  match t.holders[o]? with
  | some h => do return (h, ← t.addRef h)
  | none => do
    let (h, t) ← t.allocate (.object o)
    return (h, { t with holders := t.holders.insert o h, hooks := t.hooks.push (.acquired o) })

-- Gives a position back, and tells the host when it held an object.
def vacate (t : References) (h : Nat) (payload : Payload) : References :=
  let t := { t with slots := t.slots.setIfInBounds h none, free := h :: t.free }
  match payload with
  | .text _ => t
  | .object o => { t with holders := t.holders.erase o, hooks := t.hooks.push (.released o) }

-- One reference less; the last one gives the position back.
def release (t : References) (h : Nat) : Except Fault References :=
  match t.find? h with
  | some e =>
    if 1 < e.count then
      .ok { t with slots := t.slots.setIfInBounds h (some { e with count := e.count - 1 }) }
    else .ok (t.vacate h e.payload)
  | none => .error (.deadHandle h)

def text (t : References) (h : Nat) : Except Fault String :=
  match t.get? h with
  | some (.text s) => .ok s
  | _ => .error (.notAText h)

def object (t : References) (h : Nat) : Except Fault ObjectRef :=
  match t.get? h with
  | some (.object o) => .ok o
  | _ => .error (.notAnObject h)

-- The payloads in use with their positions, in ascending order.
def leftovers (t : References) : List (Nat × Payload) :=
  t.slots.toList.zipIdx.filterMap fun (e, h) => e.map fun e => (h, e.payload)

-- Gives all positions back at once. The answer is what was still held.
def drain (t : References) : List (Nat × Payload) × References :=
  let left := t.leftovers
  let told := left.filterMap fun (_, payload) => match payload with
    | .text _ => none
    | .object o => some (Hook.released o)
  (left, { t with slots := #[], free := [], holders := ∅, hooks := t.hooks ++ told.toArray })

-- What the host was told between two states of a table.
def toldSince (t before : References) : List Hook :=
  (t.hooks.extract before.hooks.size t.hooks.size).toList

-- Starts a new record of what the host is told.
def forgetHooks (t : References) : References :=
  { t with hooks := #[] }

end References

end HostScript
