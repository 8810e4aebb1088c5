import HostScript.Machine.Step
import HostScript.Text.Case

namespace HostScript

-- How a run ends. A run is given a number of steps, and may need more than that.
inductive Outcome where
  | finished
  | failed (f : Fault)
  | outOfFuel
  deriving Inhabited

namespace Machine

-- Steps until the script stops.
def runSteps [HostHooks] (env : RunEnv) : (fuel : Nat) → Machine → Outcome × Machine
  | 0, m => (.outOfFuel, m)
  | fuel + 1, m =>
    match Work.step env m with
    | .ok .next m => runSteps env fuel m
    | .ok .stop m => (.finished, m)
    | .error f m => (.failed f, m)

-- Makes a machine ready for a script. Only the host's world, the size of the machine and a table
-- without references stay from earlier runs.
def prepare (m : Machine) (localsCount : Nat) : Machine :=
  { m with
    stack := []
    locals := Array.replicate (max m.locals.size localsCount) .null
    refs := m.refs.forgetHooks
    loops := []
    pc := 0
    returned := .null
    runs := 0
    printed := #[]
    warnings := #[] }

-- The entries of a map in one of the orders in which they can come. Every order has a number.
def arrangement {α : Type} : (number : Nat) → List α → List α
  | _, [] => []
  | n, a :: rest =>
    (arrangement (n / (rest.length + 1)) rest).insertIdx (n % (rest.length + 1)) a

-- The values by their names in lower case; the last one counts when two names become the same.
def suppliedValue (inputs : List (String × Value)) (name : String) : Value :=
  ((inputs.reverse.find? fun input => Text.lower input.1 = name).map (·.2)).getD .null

-- Puts one input into its variable, after checking it.
def bindInput [HostHooks] (r : Registry) (name : String) (slot : InputSlot) (v : Value) : Work Unit := do
  if slot.ty.admits (r.typeOf v) then do
    let _ ← Work.loadLocal slot.slot
    let c ← Work.ofValue v
    let _ ← Work.storeLocal slot.slot c
  else throw (.badInput name (r.typeName slot.ty) (r.typeName (r.typeOf v)))

-- Binds all inputs of a script. A missing one is null.
def bindInputs [HostHooks] (r : Registry) (inputs : List (String × Value)) :
    List (String × InputSlot) → Work Unit
  | [] => pure ()
  | (name, slot) :: rest => do
    bindInput r name slot (suppliedValue inputs name)
    bindInputs r inputs rest

-- Releases what a place still holds. A handle that is no longer in use has nothing to give back.
def letGo [HostHooks] (m : Machine) (c : Cell) : Machine :=
  match Work.release c m with
  | .ok _ m | .error _ m => m

def leftoverWarning (w : World) : Nat × Payload → Warning
  | (h, .text s) => .textLeft h s
  | (h, .object o) => .objectLeft h (w.display (.object o))

-- Gives everything back after a run: the stack from the bottom, the variables, and with a warning
-- whatever is still referenced then.
def reset [HostHooks] (m : Machine) : Machine :=
  let held := m.stack.reverse ++ m.locals.toList
  let cleared := { m with stack := [], locals := m.locals.map fun _ => .null }
  let m := held.foldl letGo cleared
  let (left, refs) := m.refs.drain
  let world := HostHooks.tellAll (refs.toldSince m.refs) m.world
  { m with refs, world, warnings := m.warnings ++ (left.map (leftoverWarning world)).toArray }

-- Only a script that finishes returns a value.
def execute [HostHooks] (env : RunEnv) (fuel : Nat) (inputs : List (String × Value)) (m : Machine) :
    Outcome × Machine :=
  match bindInputs env.registry inputs env.script.inputs m with
  | .ok _ m => runSteps env fuel m
  | .error f m => (.failed f, m)

-- Runs a script with its inputs, taking them in the order in which they are given. Afterwards the
-- machine holds no references, and shows what the run printed, warned about and returned.
def runInOrder [HostHooks] (env : RunEnv) (fuel : Nat) (inputs : List (String × Value)) (m : Machine) :
    Outcome × Machine :=
  let (outcome, m) := execute env fuel inputs (m.prepare env.script.localsCount)
  let m := m.reset
  match outcome with
  | .finished => (outcome, m)
  | _ => (outcome, { m with returned := .null })

-- Runs a script with a map of inputs. The order in which a hash map gives its entries is left open
-- and need not be the same the next time: here every run of a machine takes the next one.
def run [HostHooks] (env : RunEnv) (fuel : Nat) (inputs : List (String × Value)) (m : Machine) :
    Outcome × Machine :=
  let (outcome, after) := m.runInOrder env fuel (arrangement m.runs inputs)
  (outcome, { after with runs := m.runs + 1 })

end Machine

end HostScript
