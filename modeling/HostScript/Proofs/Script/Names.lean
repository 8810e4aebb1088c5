import Mathlib
import HostScript.Script.Basic

namespace HostScript

-- A name that a script can write. The names of the compiler's own variables start with a dollar
-- sign.
def PlainName (name : String) : Prop :=
  '$' ∉ name.toList

namespace Expr

mutual

-- Every variable in the expression has a plain name.
def Plain : Expr → Prop
  | .name _ x => PlainName x
  | .literal _ _ => True
  | .static _ _ args _ => AllPlain args
  | .member _ target _ args _ => target.Plain ∧ AllPlain args
  | .new _ _ args _ => AllPlain args
  | .binary _ _ lhs rhs => lhs.Plain ∧ rhs.Plain
  | .unary _ _ operand => operand.Plain
  | .cast _ _ operand => operand.Plain

def AllPlain : List Expr → Prop
  | [] => True
  | e :: rest => e.Plain ∧ AllPlain rest

end

end Expr

def Change.Plain : Change → Prop
  | .compound _ value => value.Plain
  | .increment | .decrement => True

def VarStmt.Plain : VarStmt → Prop
  | .declare _ name value => PlainName name ∧ value.Plain
  | .update _ name change _ _ => PlainName name ∧ change.Plain

namespace Stmt

mutual

-- The same of the variables that statements read and write.
def Plain : Stmt → Prop
  | .using _ _ | .leave _ | .again _ | .exit _ => True
  | .input _ x _ _ => PlainName x
  | .var stmt => stmt.Plain
  | .cond _ test body rest => test.Plain ∧ AllPlain body ∧ BranchesPlain rest
  | .whileLoop _ test body => test.Plain ∧ AllPlain body
  | .forLoop _ init test step body => init.Plain ∧ test.Plain ∧ step.Plain ∧ AllPlain body
  | .eachLoop _ item source body _ => PlainName item ∧ source.Plain ∧ AllPlain body
  | .countLoop _ count body => count.Plain ∧ AllPlain body
  | .ret _ value => ∀ e, value = some e → e.Plain
  | .func _ _ _ body => AllPlain body
  | .call _ target => target.Plain
  | .assign _ target value => target.Plain ∧ value.Plain

def AllPlain : List Stmt → Prop
  | [] => True
  | s :: rest => s.Plain ∧ AllPlain rest

def BranchesPlain : Branches → Prop
  | .done => True
  | .otherwise body => AllPlain body
  | .elseIf test body rest => test.Plain ∧ AllPlain body ∧ BranchesPlain rest

end

end Stmt

end HostScript
