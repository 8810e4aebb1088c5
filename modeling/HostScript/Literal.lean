import HostScript.Number.Read
import HostScript.Ty

namespace HostScript

-- A value written in a script, or a host constant folded into it.
inductive Literal where
  | null
  | bool (b : Bool)
  | long (n : Int64)
  | double (x : Float)
  | string (s : String)
  deriving Inhabited

namespace Literal

def ty : Literal → Ty
  | .null => .null
  | .bool _ => .bool
  | .long _ => .long
  | .double _ => .double
  | .string _ => .string

-- Reads a number. Underscores only group digits. Without a point the number is whole if it fits in
-- 64 bits; anything else is read as a double.
def ofNumeral? (lexeme : List Char) : Option Literal :=
  let digits := lexeme.filter (· ≠ '_')
  let whole := if digits.contains '.' then none else Number.readLong digits
  match whole with
  | some n => some (.long n)
  | none => (Number.readDouble digits).map .double

end Literal

end HostScript
