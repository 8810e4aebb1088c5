import HostScript.Code.Instr
import HostScript.Host.World
import HostScript.Json.Basic

namespace HostScript

-- Where an input is kept and what it must be.
structure InputSlot where
  ty : Ty
  slot : Nat
  deriving DecidableEq, Repr, Inhabited

-- A script ready to run. Inputs are in the order of their names.
structure CompiledScript where
  name : String
  code : Bytes
  strings : Array String
  localsCount : Nat
  maxStack : Nat
  inputs : List (String × InputSlot)
  deriving Inhabited

namespace CompiledScript

def tyJson : Ty → Json
  | .dynamic => .string "Dynamic"
  | .void => .string "Void"
  | .null => .string "Null"
  | .bool => .string "Bool"
  | .long => .string "Long"
  | .double => .string "Double"
  | .string => .string "String"
  | .object id => .object [("Object", .ofNat id)]

-- The form in which scripts are stored.
def toJson (s : CompiledScript) : Json :=
  .object
    [("name", .string s.name),
     ("runtime_kind", .string "Bytecode"),
     ("bytecode", .array (s.code.toList.map fun b => .ofNat b.toNat)),
     ("string_pool", .array (s.strings.toList.map .string)),
     ("locals_count", .ofNat s.localsCount),
     ("max_stack_hint", .ofNat s.maxStack),
     ("in_vars", .object (s.inputs.map fun (name, slot) =>
       (name, .object [("ty", tyJson slot.ty), ("slot", .ofNat slot.slot)])))]

-- The values of the named fields, from an object or from an array in the same order.
def fieldsOf (names : List String) : Json → Option (List Json)
  | .object fields => names.mapM (Json.object fields).field?
  | .array items => if items.length = names.length then some items else none
  | _ => none

-- The name of a variant without contents, which may also be written as an object that holds
-- nothing.
def variantName? : Json → Option String
  | .string name => some name
  | .object [(name, .null)] => some name
  | _ => none

def plainTy? (name : String) : Option Ty :=
  [Ty.dynamic, .void, .null, .bool, .long, .double, .string].find? fun ty =>
    (variantName? (tyJson ty)) = some name

def tyOfJson? (j : Json) : Option Ty :=
  match j with
  | .object [("Object", id)] => (id.natBelow? 4294967296).map .object
  | j => (variantName? j).bind plainTy?

def slotOfJson? (j : Json) : Option InputSlot :=
  match fieldsOf ["ty", "slot"] j with
  | some [ty, slot] => do
    return ⟨← tyOfJson? ty, ← slot.natBelow? 256⟩
  | _ => none

def inputsOfJson? : Json → Option (List (String × InputSlot))
  | .object fields =>
    let named := fields.foldl (fun sorted (name, j) => putSorted name j sorted) []
    named.mapM fun (name, j) => do return (name, ← slotOfJson? j)
  | _ => none

-- Reads the stored form. Every field must be there and hold what it should; other fields are
-- ignored.
def ofJson? (j : Json) : Option CompiledScript :=
  match fieldsOf ["name", "runtime_kind", "bytecode", "string_pool", "locals_count",
      "max_stack_hint", "in_vars"] j with
  | some [name, kind, code, strings, locals, stack, inputs] => do
    let name ← name.string?
    if variantName? kind ≠ some "Bytecode" then none
    let code ← (← code.items?).mapM (Json.natBelow? 256)
    let strings ← (← strings.items?).mapM Json.string?
    let locals ← locals.natBelow? (Nat.pow 2 64)
    let stack ← stack.natBelow? (Nat.pow 2 64)
    let inputs ← inputsOfJson? inputs
    return ⟨name, (code.map UInt8.ofNat).toArray, strings.toArray, locals, stack, inputs⟩
  | _ => none

end CompiledScript

end HostScript
