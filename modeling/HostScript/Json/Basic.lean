namespace HostScript

-- A JSON document. Numbers keep their text, because whether a number is whole is decided by how it
-- is written. A string that names half a surrogate pair is well formed but has no characters; it is
-- garbled, and so is an object with such a name in it. Garbled values mean nothing and can only be
-- skipped.
inductive Json where
  | null
  | bool (b : Bool)
  | number (lexeme : String)
  | string (s : String)
  | garbled
  | array (items : List Json)
  | object (fields : List (String × Json))
  deriving Inhabited

namespace Json

-- The field of that name; the last one counts when a name is repeated.
def field? (j : Json) (name : String) : Option Json :=
  match j with
  | .object fields => (fields.reverse.find? (·.1 = name)).map (·.2)
  | _ => none

-- A whole number that is not negative, written with digits alone.
def natural? : Json → Option Nat
  | .number lexeme => if lexeme.toList.all Char.isDigit then lexeme.toNat? else none
  | _ => none

def natBelow? (limit : Nat) (j : Json) : Option Nat :=
  j.natural?.filter (· < limit)

def string? : Json → Option String
  | .string s => some s
  | _ => none

def items? : Json → Option (List Json)
  | .array items => some items
  | _ => none

-- An object, if all of its names could be read.
def ofFields (fields : List (Option String × Json)) : Json :=
  match fields.mapM fun (name, j) => name.map (·, j) with
  | some fields => .object fields
  | none => .garbled

def ofNat (n : Nat) : Json :=
  .number (toString n)

def ofInt (n : Int) : Json :=
  .number (toString n)

end Json

end HostScript
