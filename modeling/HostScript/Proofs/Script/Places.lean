import HostScript.Proofs.Script.Every

namespace HostScript

-- The variable a `var` statement writes.
def VarStmt.name : VarStmt → String
  | .declare _ name _ | .update _ name _ _ _ => name

namespace Stmt

mutual

-- The variables that are written in a statement.
def written : Stmt → List String
  | .var v => [v.name]
  | .cond _ _ body rest => writtenAll body ++ writtenBranches rest
  | .whileLoop _ _ body | .countLoop _ _ body => writtenAll body
  | .forLoop _ init _ step body => init.name :: (writtenAll body ++ [step.name])
  | .eachLoop _ item _ body _ => item :: writtenAll body
  | .using _ _ | .input _ _ _ _ | .leave _ | .again _ | .ret _ _ | .exit _ | .func _ _ _ _
  | .call _ _ | .assign _ _ _ => []

def writtenAll : List Stmt → List String
  | [] => []
  | s :: rest => s.written ++ writtenAll rest

def writtenBranches : Branches → List String
  | .done => []
  | .otherwise body => writtenAll body
  | .elseIf _ body rest => writtenAll body ++ writtenBranches rest

end

end Stmt

-- All places in the source that an expression is marked with are as `P` says.
def Expr.Placed (P : Nat → Prop) (e : Expr) : Prop :=
  e.Every fun part => P part.offset

def Expr.AllPlaced (P : Nat → Prop) (es : List Expr) : Prop :=
  EveryOne (fun part => P part.offset) es

def Change.Placed (P : Nat → Prop) (how : Change) : Prop :=
  how.Every fun part => P part.offset

def VarStmt.Placed (P : Nat → Prop) (v : VarStmt) : Prop :=
  P v.offset ∧ v.Every fun part => P part.offset

namespace Stmt

mutual

-- The same of a statement.
def Placed (P : Nat → Prop) : Stmt → Prop
  | .using offset _ | .input offset _ _ _ | .leave offset | .again offset | .exit offset => P offset
  | .var v => v.Placed P
  | .cond offset test body rest =>
    P offset ∧ test.Placed P ∧ AllPlaced P body ∧ BranchesPlaced P rest
  | .whileLoop offset test body => P offset ∧ test.Placed P ∧ AllPlaced P body
  | .forLoop offset init test step body =>
    P offset ∧ init.Placed P ∧ test.Placed P ∧ step.Placed P ∧ AllPlaced P body
  | .eachLoop offset _ source body _ => P offset ∧ source.Placed P ∧ AllPlaced P body
  | .countLoop offset count body => P offset ∧ count.Placed P ∧ AllPlaced P body
  | .ret offset value => P offset ∧ ∀ e, value = some e → e.Placed P
  | .func offset _ _ body => P offset ∧ AllPlaced P body
  | .call offset target => P offset ∧ target.Placed P
  | .assign offset target value => P offset ∧ target.Placed P ∧ value.Placed P

def AllPlaced (P : Nat → Prop) : List Stmt → Prop
  | [] => True
  | s :: rest => s.Placed P ∧ AllPlaced P rest

def BranchesPlaced (P : Nat → Prop) : Branches → Prop
  | .done => True
  | .otherwise body => AllPlaced P body
  | .elseIf test body rest => test.Placed P ∧ AllPlaced P body ∧ BranchesPlaced P rest

end

end Stmt

section Always

variable {P : Nat → Prop}

theorem Expr.Placed.offset {e : Expr} (h : e.Placed P) : P e.offset := by
  cases e with
  | name m x => exact h
  | literal m value => exact h
  | static m x args binding => exact h.1
  | member m target x args binding => exact h.1
  | new m typeName args binding => exact h.1
  | binary m op lhs rhs => exact h.1
  | unary m op operand => exact h.1
  | cast m typeName operand => exact h.1

theorem VarStmt.placed_of_always (h : ∀ n, P n) (v : VarStmt) : v.Placed P :=
  ⟨h _, VarStmt.every_of_always (fun _ => h _) v⟩

mutual

theorem Stmt.placed_of_always (h : ∀ n, P n) (s : Stmt) : s.Placed P := by
  have hexpr : ∀ e : Expr, e.Placed P := Expr.every_of_always fun _ => h _
  cases s with
  | var v => exact v.placed_of_always h
  | cond offset test body rest =>
      exact ⟨h _, hexpr _, Stmt.allPlaced_of_always h body, Stmt.branchesPlaced_of_always h rest⟩
  | whileLoop offset test body => exact ⟨h _, hexpr _, Stmt.allPlaced_of_always h body⟩
  | forLoop offset init test step body =>
      exact ⟨h _, init.placed_of_always h, hexpr _, step.placed_of_always h,
        Stmt.allPlaced_of_always h body⟩
  | eachLoop offset item source body how =>
      exact ⟨h _, hexpr _, Stmt.allPlaced_of_always h body⟩
  | countLoop offset count body => exact ⟨h _, hexpr _, Stmt.allPlaced_of_always h body⟩
  | ret offset value => exact ⟨h _, fun e _ => hexpr e⟩
  | func offset name params body => exact ⟨h _, Stmt.allPlaced_of_always h body⟩
  | call offset target => exact ⟨h _, hexpr _⟩
  | assign offset target value => exact ⟨h _, hexpr _, hexpr _⟩
  | _ => exact h _

theorem Stmt.allPlaced_of_always (h : ∀ n, P n) (ss : List Stmt) : Stmt.AllPlaced P ss := by
  cases ss with
  | nil => trivial
  | cons s rest => exact ⟨Stmt.placed_of_always h s, Stmt.allPlaced_of_always h rest⟩

theorem Stmt.branchesPlaced_of_always (h : ∀ n, P n) (b : Branches) :
    Stmt.BranchesPlaced P b := by
  have hexpr : ∀ e : Expr, e.Placed P := Expr.every_of_always fun _ => h _
  cases b with
  | done => trivial
  | otherwise body => exact Stmt.allPlaced_of_always h body
  | elseIf test body rest =>
      exact ⟨hexpr _, Stmt.allPlaced_of_always h body, Stmt.branchesPlaced_of_always h rest⟩

end

end Always

end HostScript
