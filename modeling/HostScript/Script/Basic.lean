import HostScript.Literal
import HostScript.Operator

namespace HostScript

-- Where an expression starts in the source, in bytes, and what type it was found to have.
structure Mark where
  offset : Nat
  ty : Ty := .dynamic
  deriving DecidableEq, Repr, Inhabited

-- What a name without a target stands for. Members are numbered by their registration.
inductive StaticBinding where
  | unresolved
  | method (id : Nat)
  | property (id : Nat)
  | const (value : Literal)
  deriving Inhabited

-- What a member of a target stands for. A dynamic one is looked up by name when the script runs.
inductive MemberBinding where
  | unresolved
  | method (id : Nat)
  | property (id : Nat)
  | dynamic
  deriving DecidableEq, Repr, Inhabited

-- Expressions. Arguments stand in brackets behind a name; a reference without brackets has none, so
-- an empty argument list means that no call was written.
inductive Expr where
  | name (mark : Mark) (name : String)
  | literal (mark : Mark) (value : Literal)
  | static (mark : Mark) (name : String) (args : List Expr) (binding : StaticBinding)
  | member (mark : Mark) (target : Expr) (name : String) (args : List Expr)
      (binding : MemberBinding)
  | new (mark : Mark) (typeName : String) (args : List Expr) (binding : Option Nat)
  | binary (mark : Mark) (op : BinaryOp) (lhs rhs : Expr)
  | unary (mark : Mark) (op : UnaryOp) (operand : Expr)
  | cast (mark : Mark) (typeName : String) (operand : Expr)
  deriving Inhabited

namespace Expr

def mark : Expr → Mark
  | .name m _ | .literal m _ | .static m _ _ _ | .member m _ _ _ _ | .new m _ _ _
  | .binary m _ _ _ | .unary m _ _ | .cast m _ _ => m

def offset (e : Expr) : Nat :=
  e.mark.offset

def ty (e : Expr) : Ty :=
  e.mark.ty

def literal? : Expr → Option Literal
  | .literal _ value => some value
  | _ => none

end Expr

-- How `var` changes a variable that already has a value.
inductive Change where
  | compound (op : Arith) (value : Expr)
  | increment
  | decrement
  deriving Inhabited

-- The operator a change applies to the old value.
def Change.op : Change → Arith
  | .compound op _ => op
  | .increment => .add
  | .decrement => .sub

-- A `var` statement: the first form gives a variable its value, the second changes it and records
-- the types before and after.
inductive VarStmt where
  | declare (offset : Nat) (name : String) (value : Expr)
  | update (offset : Nat) (name : String) (change : Change) (current result : Ty)
  deriving Inhabited

def VarStmt.offset : VarStmt → Nat
  | .declare offset _ _ | .update offset _ _ _ _ => offset

-- How a `foreach` reads its items: by the members registered for the type, or by name at run time.
inductive Iteration where
  | unresolved
  | members (count getItem : Nat)
  | dynamic
  deriving DecidableEq, Repr, Inhabited

mutual

inductive Stmt where
  | using (offset : Nat) (ns : String)
  | input (offset : Nat) (name : String) (typeName : Option String) (declared : Ty)
  | var (stmt : VarStmt)
  | cond (offset : Nat) (test : Expr) (body : List Stmt) (rest : Branches)
  | whileLoop (offset : Nat) (test : Expr) (body : List Stmt)
  | forLoop (offset : Nat) (init : VarStmt) (test : Expr) (step : VarStmt) (body : List Stmt)
  | eachLoop (offset : Nat) (item : String) (source : Expr) (body : List Stmt)
      (iteration : Iteration)
  | countLoop (offset : Nat) (count : Expr) (body : List Stmt)
  | leave (offset : Nat)
  | again (offset : Nat)
  | ret (offset : Nat) (value : Option Expr)
  | exit (offset : Nat)
  | func (offset : Nat) (name : String) (params : List String) (body : List Stmt)
  | call (offset : Nat) (target : Expr)
  | assign (offset : Nat) (target value : Expr)

-- What follows the first branch of an `if`.
inductive Branches where
  | done
  | otherwise (body : List Stmt)
  | elseIf (test : Expr) (body : List Stmt) (rest : Branches)

end

instance : Inhabited Stmt := ⟨.exit 0⟩

instance : Inhabited Branches := ⟨.done⟩

def Stmt.offset : Stmt → Nat
  | .using offset _ | .input offset _ _ _ | .cond offset _ _ _ | .whileLoop offset _ _
  | .forLoop offset _ _ _ _ | .eachLoop offset _ _ _ _ | .countLoop offset _ _ | .leave offset
  | .again offset | .ret offset _ | .exit offset | .func offset _ _ _ | .call offset _
  | .assign offset _ _ => offset
  | .var stmt => stmt.offset

-- A whole script, statement by statement.
abbrev Script := List Stmt

end HostScript
