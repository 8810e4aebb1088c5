import Mathlib
import HostScript.Script.Basic

namespace HostScript

namespace Expr

mutual

-- A property of an expression and of all expressions inside it.
def Every (P : Expr → Prop) : Expr → Prop
  | .name m x => P (.name m x)
  | .literal m value => P (.literal m value)
  | .static m x args binding => P (.static m x args binding) ∧ EveryOne P args
  | .member m target x args binding =>
    P (.member m target x args binding) ∧ target.Every P ∧ EveryOne P args
  | .new m typeName args binding => P (.new m typeName args binding) ∧ EveryOne P args
  | .binary m op lhs rhs => P (.binary m op lhs rhs) ∧ lhs.Every P ∧ rhs.Every P
  | .unary m op operand => P (.unary m op operand) ∧ operand.Every P
  | .cast m typeName operand => P (.cast m typeName operand) ∧ operand.Every P

def EveryOne (P : Expr → Prop) : List Expr → Prop
  | [] => True
  | e :: rest => e.Every P ∧ EveryOne P rest

end

end Expr

-- The type of the operand that a change brings along.
def Change.ty : Change → Ty
  | .compound _ value => value.ty
  | .increment | .decrement => .long

def Change.Every (P : Expr → Prop) : Change → Prop
  | .compound _ value => value.Every P
  | .increment | .decrement => True

def VarStmt.Every (P : Expr → Prop) : VarStmt → Prop
  | .declare _ _ value => value.Every P
  | .update _ _ change _ _ => change.Every P

namespace Stmt

mutual

-- A property of all expressions in a statement.
def Every (P : Expr → Prop) : Stmt → Prop
  | .using _ _ | .input _ _ _ _ | .leave _ | .again _ | .exit _ => True
  | .var stmt => stmt.Every P
  | .cond _ test body rest => test.Every P ∧ EveryOne P body ∧ EveryBranch P rest
  | .whileLoop _ test body => test.Every P ∧ EveryOne P body
  | .forLoop _ init test step body =>
    init.Every P ∧ test.Every P ∧ step.Every P ∧ EveryOne P body
  | .eachLoop _ _ source body _ => source.Every P ∧ EveryOne P body
  | .countLoop _ count body => count.Every P ∧ EveryOne P body
  | .ret _ value => ∀ e, value = some e → e.Every P
  | .func _ _ _ body => EveryOne P body
  | .call _ target => target.Every P
  | .assign _ target value => target.Every P ∧ value.Every P

def EveryOne (P : Expr → Prop) : List Stmt → Prop
  | [] => True
  | s :: rest => s.Every P ∧ EveryOne P rest

def EveryBranch (P : Expr → Prop) : Branches → Prop
  | .done => True
  | .otherwise body => EveryOne P body
  | .elseIf test body rest => test.Every P ∧ EveryOne P body ∧ EveryBranch P rest

end

end Stmt

-- Whether it holds can be worked out.
section Decidable

variable (P : Expr → Prop) [DecidablePred P]

mutual

def Expr.decEvery : (e : Expr) → Decidable (e.Every P)
  | .name m x => inferInstanceAs (Decidable (P (.name m x)))
  | .literal m value => inferInstanceAs (Decidable (P (.literal m value)))
  | .static m x args binding =>
    have := Expr.decEveryOne args
    inferInstanceAs (Decidable (P (.static m x args binding) ∧ Expr.EveryOne P args))
  | .member m target x args binding =>
    have := Expr.decEvery target
    have := Expr.decEveryOne args
    inferInstanceAs
      (Decidable (P (.member m target x args binding) ∧ target.Every P ∧ Expr.EveryOne P args))
  | .new m typeName args binding =>
    have := Expr.decEveryOne args
    inferInstanceAs (Decidable (P (.new m typeName args binding) ∧ Expr.EveryOne P args))
  | .binary m op lhs rhs =>
    have := Expr.decEvery lhs
    have := Expr.decEvery rhs
    inferInstanceAs (Decidable (P (.binary m op lhs rhs) ∧ lhs.Every P ∧ rhs.Every P))
  | .unary m op operand =>
    have := Expr.decEvery operand
    inferInstanceAs (Decidable (P (.unary m op operand) ∧ operand.Every P))
  | .cast m typeName operand =>
    have := Expr.decEvery operand
    inferInstanceAs (Decidable (P (.cast m typeName operand) ∧ operand.Every P))

def Expr.decEveryOne : (es : List Expr) → Decidable (Expr.EveryOne P es)
  | [] => inferInstanceAs (Decidable True)
  | e :: rest =>
    have := Expr.decEvery e
    have := Expr.decEveryOne rest
    inferInstanceAs (Decidable (e.Every P ∧ Expr.EveryOne P rest))

end

instance (e : Expr) : Decidable (e.Every P) := e.decEvery P

instance : (v : VarStmt) → Decidable (v.Every P)
  | .declare _ _ value => inferInstanceAs (Decidable (value.Every P))
  | .update _ _ (.compound _ value) _ _ => inferInstanceAs (Decidable (value.Every P))
  | .update _ _ .increment _ _ | .update _ _ .decrement _ _ => inferInstanceAs (Decidable True)

mutual

def Stmt.decEvery : (s : Stmt) → Decidable (s.Every P)
  | .using _ _ | .input _ _ _ _ | .leave _ | .again _ | .exit _ => inferInstanceAs (Decidable True)
  | .var stmt => inferInstanceAs (Decidable (stmt.Every P))
  | .cond _ test body rest =>
    have := Stmt.decEveryOne body
    have := Stmt.decEveryBranch rest
    inferInstanceAs (Decidable (test.Every P ∧ Stmt.EveryOne P body ∧ Stmt.EveryBranch P rest))
  | .whileLoop _ test body =>
    have := Stmt.decEveryOne body
    inferInstanceAs (Decidable (test.Every P ∧ Stmt.EveryOne P body))
  | .forLoop _ init test step body =>
    have := Stmt.decEveryOne body
    inferInstanceAs
      (Decidable (init.Every P ∧ test.Every P ∧ step.Every P ∧ Stmt.EveryOne P body))
  | .eachLoop _ _ source body _ =>
    have := Stmt.decEveryOne body
    inferInstanceAs (Decidable (source.Every P ∧ Stmt.EveryOne P body))
  | .countLoop _ count body =>
    have := Stmt.decEveryOne body
    inferInstanceAs (Decidable (count.Every P ∧ Stmt.EveryOne P body))
  | .ret _ none => .isTrue nofun
  | .ret _ (some e) =>
    decidable_of_iff (e.Every P) ⟨fun h _ he => Option.some.inj he ▸ h, fun h => h e rfl⟩
  | .func _ _ _ body => Stmt.decEveryOne body
  | .call _ target => inferInstanceAs (Decidable (target.Every P))
  | .assign _ target value => inferInstanceAs (Decidable (target.Every P ∧ value.Every P))

def Stmt.decEveryOne : (ss : List Stmt) → Decidable (Stmt.EveryOne P ss)
  | [] => inferInstanceAs (Decidable True)
  | s :: rest =>
    have := Stmt.decEvery s
    have := Stmt.decEveryOne rest
    inferInstanceAs (Decidable (s.Every P ∧ Stmt.EveryOne P rest))

def Stmt.decEveryBranch : (b : Branches) → Decidable (Stmt.EveryBranch P b)
  | .done => inferInstanceAs (Decidable True)
  | .otherwise body => Stmt.decEveryOne body
  | .elseIf test body rest =>
    have := Stmt.decEveryOne body
    have := Stmt.decEveryBranch rest
    inferInstanceAs (Decidable (test.Every P ∧ Stmt.EveryOne P body ∧ Stmt.EveryBranch P rest))

end

instance (ss : List Stmt) : Decidable (Stmt.EveryOne P ss) := Stmt.decEveryOne P ss

end Decidable

-- What follows from a property follows everywhere.
section Imp

variable {P Q : Expr → Prop}

mutual

theorem Expr.Every.imp {e : Expr} (he : e.Every P) (h : ∀ e, P e → Q e) : e.Every Q := by
  cases e with
  | name m x => exact h _ he
  | literal m value => exact h _ he
  | static m x args binding => exact ⟨h _ he.1, Expr.EveryOne.imp he.2 h⟩
  | member m target x args binding => exact ⟨h _ he.1, he.2.1.imp h, Expr.EveryOne.imp he.2.2 h⟩
  | new m typeName args binding => exact ⟨h _ he.1, Expr.EveryOne.imp he.2 h⟩
  | binary m op lhs rhs => exact ⟨h _ he.1, he.2.1.imp h, he.2.2.imp h⟩
  | unary m op operand => exact ⟨h _ he.1, he.2.imp h⟩
  | cast m typeName operand => exact ⟨h _ he.1, he.2.imp h⟩

theorem Expr.EveryOne.imp {es : List Expr} (hes : Expr.EveryOne P es) (h : ∀ e, P e → Q e) :
    Expr.EveryOne Q es := by
  cases es with
  | nil => trivial
  | cons e rest => exact ⟨hes.1.imp h, Expr.EveryOne.imp hes.2 h⟩

end

theorem VarStmt.Every.imp {v : VarStmt} (hv : v.Every P) (h : ∀ e, P e → Q e) : v.Every Q := by
  cases v with
  | declare offset name value => exact Expr.Every.imp hv h
  | update offset name change current result =>
      cases change with
      | compound op value => exact Expr.Every.imp hv h
      | increment => trivial
      | decrement => trivial

end Imp

-- What holds of all expressions holds everywhere in a script.
section Always

variable {P : Expr → Prop}

mutual

theorem Expr.every_of_always (h : ∀ e, P e) (e : Expr) : e.Every P := by
  cases e with
  | name m x => exact h _
  | literal m value => exact h _
  | static m x args binding => exact ⟨h _, Expr.everyOne_of_always h args⟩
  | member m target x args binding =>
      exact ⟨h _, Expr.every_of_always h target, Expr.everyOne_of_always h args⟩
  | new m typeName args binding => exact ⟨h _, Expr.everyOne_of_always h args⟩
  | binary m op lhs rhs => exact ⟨h _, Expr.every_of_always h lhs, Expr.every_of_always h rhs⟩
  | unary m op operand => exact ⟨h _, Expr.every_of_always h operand⟩
  | cast m typeName operand => exact ⟨h _, Expr.every_of_always h operand⟩

theorem Expr.everyOne_of_always (h : ∀ e, P e) (es : List Expr) : Expr.EveryOne P es := by
  cases es with
  | nil => trivial
  | cons e rest => exact ⟨Expr.every_of_always h e, Expr.everyOne_of_always h rest⟩

end

theorem VarStmt.every_of_always (h : ∀ e, P e) (v : VarStmt) : v.Every P := by
  cases v with
  | declare offset name value => exact Expr.every_of_always h value
  | update offset name change current result =>
      cases change with
      | compound op value => exact Expr.every_of_always h value
      | increment => trivial
      | decrement => trivial

mutual

theorem Stmt.every_of_always (h : ∀ e, P e) (s : Stmt) : s.Every P := by
  cases s with
  | var v => exact VarStmt.every_of_always h v
  | cond offset test body rest =>
      exact ⟨Expr.every_of_always h test, Stmt.everyOne_of_always h body,
        Stmt.everyBranch_of_always h rest⟩
  | whileLoop offset test body =>
      exact ⟨Expr.every_of_always h test, Stmt.everyOne_of_always h body⟩
  | forLoop offset init test step body =>
      exact ⟨VarStmt.every_of_always h init, Expr.every_of_always h test,
        VarStmt.every_of_always h step, Stmt.everyOne_of_always h body⟩
  | eachLoop offset item source body how =>
      exact ⟨Expr.every_of_always h source, Stmt.everyOne_of_always h body⟩
  | countLoop offset count body =>
      exact ⟨Expr.every_of_always h count, Stmt.everyOne_of_always h body⟩
  | ret offset value => exact fun e _ => Expr.every_of_always h e
  | func offset name params body => exact Stmt.everyOne_of_always h body
  | call offset target => exact Expr.every_of_always h target
  | assign offset target value =>
      exact ⟨Expr.every_of_always h target, Expr.every_of_always h value⟩
  | _ => trivial

theorem Stmt.everyOne_of_always (h : ∀ e, P e) (ss : List Stmt) : Stmt.EveryOne P ss := by
  cases ss with
  | nil => trivial
  | cons s rest => exact ⟨Stmt.every_of_always h s, Stmt.everyOne_of_always h rest⟩

theorem Stmt.everyBranch_of_always (h : ∀ e, P e) (b : Branches) : Stmt.EveryBranch P b := by
  cases b with
  | done => trivial
  | otherwise body => exact Stmt.everyOne_of_always h body
  | elseIf test body rest =>
      exact ⟨Expr.every_of_always h test, Stmt.everyOne_of_always h body,
        Stmt.everyBranch_of_always h rest⟩

end

end Always

end HostScript
