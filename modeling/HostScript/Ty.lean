namespace HostScript

-- What is known of a value before a script runs. Whole and fractional numbers share one
-- representation; `long` only records that a number is known to be whole. Host types are numbered
-- in the order of their registration.
inductive Ty where
  | dynamic
  | void
  | null
  | bool
  | long
  | double
  | string
  | object (id : Nat)
  deriving DecidableEq, Repr, Inhabited

namespace Ty

def isNumeric : Ty → Bool
  | .long | .double => true
  | _ => false

-- Whether a value of this type may live in the reference table.
def mayBeRef : Ty → Bool
  | .dynamic | .string | .object _ => true
  | _ => false

-- Whether `null` may flow into a place of this type.
def isNullable : Ty → Bool
  | .dynamic | .null | .string | .object _ => true
  | _ => false

-- Whether a value of static type `arg` may flow into a place of type `param` as it is. A dynamic
-- argument is let through here and checked when the script runs; the result of a member that
-- returns nothing never flows anywhere.
def accepts (param arg : Ty) : Bool :=
  if param = arg || param = .dynamic || arg = .dynamic then arg ≠ .void
  else match param, arg with
    | .double, .long => true
    | _, .null => param.isNullable
    | _, _ => false

-- Whether a value found to be of type `actual` while a script runs may be stored where `expected`
-- is declared. A whole number is good enough for `double`. An object of a type that was never
-- registered counts as dynamic and only fits a dynamic place.
def admits (expected actual : Ty) : Bool :=
  if expected = .dynamic then true
  else match expected, actual with
    | _, .null => expected.isNullable
    | .double, .long => true
    | _, _ => expected = actual

-- The types that have a name of their own in every script.
def builtin? (name : String) : Option Ty :=
  if name = "var" || name = "dynamic" || name = "object" then some .dynamic
  else if name = "bool" then some .bool
  else if name = "long" || name = "int" then some .long
  else if name = "double" || name = "number" then some .double
  else if name = "string" then some .string
  else none

def text : Ty → String
  | .dynamic => "dynamic"
  | .void => "void"
  | .null => "null"
  | .bool => "bool"
  | .long => "long"
  | .double => "double"
  | .string => "string"
  | .object id => s!"object#{id}"

end Ty

end HostScript
