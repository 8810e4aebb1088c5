import HostScript.Operator
import HostScript.Ty

namespace HostScript

namespace Ty

-- Types an arithmetic operand may have: numbers, and what may turn out to be one.
def mayBeNumber : Ty → Bool
  | .dynamic | .long | .double => true
  | _ => false

def mayBeBool : Ty → Bool
  | .dynamic | .bool => true
  | _ => false

-- The result type of arithmetic on two numbers. A dynamic operand that passes the check at run time
-- is a number, so that nothing is left to be dynamic.
def arithResult? (lhs rhs : Ty) : Option Ty :=
  if !lhs.mayBeNumber || !rhs.mayBeNumber then none
  else if lhs = .long && rhs = .long then some .long
  else some .double

-- Addition also joins texts: one text operand makes the result a text, whatever the other is.
def addResult? (lhs rhs : Ty) : Option Ty :=
  if lhs = .void || rhs = .void then none
  else if lhs = .string || rhs = .string then some .string
  else if lhs = .dynamic || rhs = .dynamic then some .dynamic
  else arithResult? lhs rhs

end Ty

-- The type of `lhs op rhs`, or nothing when the operands do not go together. A quotient is never
-- known to be whole.
def BinaryOp.result? (op : BinaryOp) (lhs rhs : Ty) : Option Ty :=
  match op with
  | .arith .add => Ty.addResult? lhs rhs
  | .arith .div => (Ty.arithResult? lhs rhs).map fun _ => .double
  | .arith _ => Ty.arithResult? lhs rhs
  | .order _ => if lhs.mayBeNumber && rhs.mayBeNumber then some .bool else none
  | .eq | .ne => if lhs = .void || rhs = .void then none else some .bool
  | .and | .or => if lhs.mayBeBool && rhs.mayBeBool then some .bool else none

def UnaryOp.result? (op : UnaryOp) (operand : Ty) : Option Ty :=
  match op, operand with
  | .neg, .long => some .long
  | .neg, .double | .neg, .dynamic => some .double
  | .not, .bool | .not, .dynamic => some .bool
  | _, _ => none

end HostScript
