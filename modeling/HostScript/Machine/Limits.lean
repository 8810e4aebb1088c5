import HostScript.Json.Parse

namespace HostScript

-- How large a machine is. Scripts that need more variables than `locals` still get them.
structure Limits where
  stack : Nat := 256
  locals : Nat := 64
  references : Nat := 4096
  deriving DecidableEq, Repr, Inhabited

namespace Limits

def fieldNames : List String :=
  ["stack_capacity", "locals_capacity", "reference_capacity"]

def size? (j : Json) : Option Nat :=
  j.natBelow? (Nat.pow 2 64)

-- A missing limit has its usual size.
def sizeOr (usual : Nat) : Option Json → Option Nat
  | some j => size? j
  | none => some usual

def ofFields? (stack locals references : Option Json) : Option Limits := do
  let usual : Limits := {}
  return ⟨← sizeOr usual.stack stack, ← sizeOr usual.locals locals,
    ← sizeOr usual.references references⟩

-- Limits are an object, whose other fields are ignored, or an array in the order of the fields.
def ofJson? : Json → Option Limits
  | .object fields =>
    if fieldNames.all fun name => (fields.filter (·.1 = name)).length ≤ 1 then
      ofFields? (fields.lookup "stack_capacity") (fields.lookup "locals_capacity")
        (fields.lookup "reference_capacity")
    else none
  | .array items =>
    if items.length ≤ fieldNames.length then ofFields? items[0]? items[1]? items[2]? else none
  | _ => none

def parse? (text : String) : Option Limits := do
  ofJson? (← Json.parse? text)

def toJson (l : Limits) : Json :=
  .object
    [("stack_capacity", .ofNat l.stack), ("locals_capacity", .ofNat l.locals),
     ("reference_capacity", .ofNat l.references)]

end Limits

end HostScript
