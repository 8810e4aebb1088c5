import HostScript.Ty

namespace HostScript

-- Operands of type checks. The lowest byte says which type, the next two hold the number of a host
-- type, and the highest one how deep in the stack the checked value lies.
namespace TypeGuard

def kindCode : Ty → Nat
  | .dynamic | .void => 0
  | .null => 1
  | .bool => 2
  | .long => 3
  | .double => 4
  | .string => 5
  | .object _ => 6

def idOf : Ty → Nat
  | .object id => id
  | _ => 0

-- The operand that checks for a type at a depth. Host types beyond the first 65536 have none.
def encodeAt (ty : Ty) (depth : UInt8) : Option Int32 :=
  if idOf ty < 65536 then
    some (UInt32.ofNat (kindCode ty + 256 * idOf ty + 16777216 * depth.toNat)).toInt32
  else none

def encode (ty : Ty) : Option Int32 :=
  encodeAt ty 0

def tyOf? (kind id : Nat) : Option Ty :=
  match kind with
  | 0 => some .dynamic
  | 1 => some .null
  | 2 => some .bool
  | 3 => some .long
  | 4 => some .double
  | 5 => some .string
  | 6 => some (.object id)
  | _ => none

-- The type part of an operand.
def decode (code : Int32) : Option Ty :=
  let n := code.toUInt32.toNat
  tyOf? (n % 256) (n / 256 % 65536)

-- Both parts of an operand.
def decodeAt (code : Int32) : Option (Ty × UInt8) :=
  (decode code).map fun ty => (ty, UInt8.ofNat (code.toUInt32.toNat / 16777216))

end TypeGuard

end HostScript
