import HostScript.Proofs.Script.Every
import HostScript.Proofs.Stateful
import HostScript.Script.Parse

namespace HostScript

-- What is asked of one token of a script: a kind and a lexeme, or to be a number of that value.
inductive Piece where
  | fixed (kind : Token.Kind) (lexeme : String)
  | number (value : Literal)

namespace Piece

def Fits : Piece → Token → Prop
  | .fixed kind lexeme, t => t.kind = kind ∧ t.lexeme = lexeme
  | .number value, t => t.kind = .numLiteral ∧ Literal.ofNumeral? t.lexeme.toList = some value

def word (lexeme : String) : Piece :=
  .fixed .keyword lexeme

def operator (lexeme : String) : Piece :=
  .fixed .operator lexeme

def name (lexeme : String) : Piece :=
  .fixed .identifier lexeme

def opening : Piece :=
  .fixed .openBracket "["

def closing : Piece :=
  .fixed .closedBracket "]"

def colon : Piece :=
  .fixed .colon ":"

def endLine : Piece :=
  .fixed .endLine "\n"

def ofLiteral : Literal → Piece
  | .null => .fixed .nullLiteral "null"
  | .bool true => .fixed .trueLiteral "true"
  | .bool false => .fixed .falseLiteral "false"
  | .string s => .fixed .stringLiteral s
  | .long n => .number (.long n)
  | .double x => .number (.double x)

def inBrackets (pieces : List Piece) : List Piece :=
  opening :: pieces ++ [closing]

end Piece

namespace Expr

-- Names and literals stand as operands by themselves.
def isAtom : Expr → Bool
  | .name _ _ | .literal _ _ => true
  | _ => false

-- Anything else stands in brackets there.
def asOperand (e : Expr) (pieces : List Piece) : List Piece :=
  if e.isAtom then pieces else Piece.inBrackets pieces

mutual

-- How an expression is written. The target of a member stands in brackets, and so does each
-- argument.
def render : Expr → List Piece
  | .name _ x => [.name x]
  | .literal _ value => [.ofLiteral value]
  | .static _ x args _ => .name x :: renderArgs args
  | .member _ target x args _ =>
    Piece.inBrackets target.render ++ .colon :: .name x :: renderArgs args
  | .new _ typeName args _ => .word "new" :: .name typeName :: renderArgs args
  | .binary _ op lhs rhs =>
    lhs.asOperand lhs.render ++ .operator op.symbol :: rhs.asOperand rhs.render
  | .unary _ op operand => .operator op.symbol :: operand.asOperand operand.render
  | .cast _ typeName operand =>
    .operator "<" :: .name typeName :: .operator ">" :: operand.asOperand operand.render

def renderArgs : List Expr → List Piece
  | [] => []
  | e :: rest => Piece.inBrackets e.render ++ renderArgs rest

end

-- The arguments that stand behind a name.
def args : Expr → List Expr
  | .static _ _ args _ | .member _ _ _ args _ | .new _ _ args _ => args
  | _ => []

-- What can be read: types and members are not known yet, and a call without a target has arguments.
def Bare : Expr → Prop
  | .static m _ args binding => m.ty = .dynamic ∧ args ≠ [] ∧ binding = .unresolved
  | .member m _ _ _ binding => m.ty = .dynamic ∧ binding = .unresolved
  | .new m _ _ binding => m.ty = .dynamic ∧ binding = none
  | e => e.ty = .dynamic

mutual

-- An expression without its place in the source.
def unplaced : Expr → Expr
  | .name m x => .name { m with offset := 0 } x
  | .literal m value => .literal { m with offset := 0 } value
  | .static m x args binding => .static { m with offset := 0 } x (unplacedAll args) binding
  | .member m target x args binding =>
    .member { m with offset := 0 } target.unplaced x (unplacedAll args) binding
  | .new m typeName args binding => .new { m with offset := 0 } typeName (unplacedAll args) binding
  | .binary m op lhs rhs => .binary { m with offset := 0 } op lhs.unplaced rhs.unplaced
  | .unary m op operand => .unary { m with offset := 0 } op operand.unplaced
  | .cast m typeName operand => .cast { m with offset := 0 } typeName operand.unplaced

def unplacedAll : List Expr → List Expr
  | [] => []
  | e :: rest => e.unplaced :: unplacedAll rest

end

end Expr

namespace Change

def render : Change → List Piece
  | .compound op value => .operator (op.symbol ++ "=") :: value.render
  | .increment => [.operator "++"]
  | .decrement => [.operator "--"]

def unplaced : Change → Change
  | .compound op value => .compound op value.unplaced
  | .increment => .increment
  | .decrement => .decrement

end Change

namespace VarStmt

def render : VarStmt → List Piece
  | .declare _ x value => .word "var" :: Piece.inBrackets [.name x] ++ .operator "=" :: value.render
  | .update _ x change _ _ => .word "var" :: Piece.inBrackets [.name x] ++ change.render

-- The types before and after are not known yet.
def Bare : VarStmt → Prop
  | .declare _ _ value => value.Every Expr.Bare
  | .update _ _ change current result =>
    change.Every Expr.Bare ∧ current = .dynamic ∧ result = .dynamic

def unplaced : VarStmt → VarStmt
  | .declare _ x value => .declare 0 x value.unplaced
  | .update _ x change current result => .update 0 x change.unplaced current result

end VarStmt

namespace Stmt

-- What can stand as a statement by itself. Of these, what has no arguments can be assigned to.
def IsCall : Expr → Prop
  | .name _ _ | .static _ _ _ _ | .member _ _ _ _ _ => True
  | _ => False

def renderParams (params : List String) : List Piece :=
  params.flatMap fun x => Piece.inBrackets [.name x]

mutual

-- How a statement is written. The end of its line is not part of it, but that of a header is.
def render : Stmt → List Piece
  | .using _ ns => [.word "using", .name ns]
  | .input _ x none _ => .word "in" :: Piece.inBrackets [.name x]
  | .input _ x (some typeName) _ =>
    .word "in" :: .operator "<" :: .name typeName :: .operator ">" :: Piece.inBrackets [.name x]
  | .var stmt => stmt.render
  | .cond _ test body rest =>
    .word "if" :: test.render ++ .endLine :: renderAll body ++ renderBranches rest
  | .whileLoop _ test body =>
    .word "while" :: test.render ++ .endLine :: renderAll body ++ [.word "end"]
  | .forLoop _ init test step body =>
    .word "for" :: init.render ++ .endLine :: test.render ++ .endLine :: step.render ++
      .endLine :: renderAll body ++ [.word "end"]
  | .eachLoop _ item source body _ =>
    .word "foreach" :: Piece.inBrackets [.name item] ++ .word "in" :: source.render ++
      .endLine :: renderAll body ++ [.word "end"]
  | .countLoop _ count body =>
    .word "loop" :: count.render ++ .endLine :: renderAll body ++ [.word "end"]
  | .leave _ => [.word "break"]
  | .again _ => [.word "continue"]
  | .ret _ none => [.word "return"]
  | .ret _ (some value) => .word "return" :: value.render
  | .exit _ => [.word "exit"]
  | .func _ name params body =>
    .word "function" :: .name name :: renderParams params ++
      .endLine :: renderAll body ++ [.word "end"]
  | .call _ target => target.render
  | .assign _ target value => target.render ++ .operator "=" :: value.render

def renderAll : List Stmt → List Piece
  | [] => []
  | s :: rest => s.render ++ .endLine :: renderAll rest

def renderBranches : Branches → List Piece
  | .done => [.word "end"]
  | .otherwise body => .word "else" :: .endLine :: renderAll body ++ [.word "end"]
  | .elseIf test body rest =>
    .word "elseif" :: test.render ++ .endLine :: renderAll body ++ renderBranches rest

end

mutual

-- What can be read as a statement.
def Bare : Stmt → Prop
  | .using _ _ | .leave _ | .again _ | .exit _ => True
  | .input _ _ _ declared => declared = .dynamic
  | .var stmt => stmt.Bare
  | .cond _ test body rest => test.Every Expr.Bare ∧ AllBare body ∧ BranchesBare rest
  | .whileLoop _ test body => test.Every Expr.Bare ∧ AllBare body
  | .forLoop _ init test step body =>
    init.Bare ∧ test.Every Expr.Bare ∧ step.Bare ∧ AllBare body
  | .eachLoop _ _ source body iteration =>
    source.Every Expr.Bare ∧ AllBare body ∧ iteration = .unresolved
  | .countLoop _ count body => count.Every Expr.Bare ∧ AllBare body
  | .ret _ value => ∀ e, value = some e → e.Every Expr.Bare
  | .func _ _ _ body => AllBare body
  | .call _ target => target.Every Expr.Bare ∧ IsCall target
  | .assign _ target value =>
    target.Every Expr.Bare ∧ IsCall target ∧ target.args = [] ∧ value.Every Expr.Bare

def AllBare : List Stmt → Prop
  | [] => True
  | s :: rest => s.Bare ∧ AllBare rest

def BranchesBare : Branches → Prop
  | .done => True
  | .otherwise body => AllBare body
  | .elseIf test body rest => test.Every Expr.Bare ∧ AllBare body ∧ BranchesBare rest

end

mutual

-- A statement without its place in the source.
def unplaced : Stmt → Stmt
  | .using _ ns => .using 0 ns
  | .input _ x typeName declared => .input 0 x typeName declared
  | .var stmt => .var stmt.unplaced
  | .cond _ test body rest => .cond 0 test.unplaced (unplacedAll body) (unplacedBranches rest)
  | .whileLoop _ test body => .whileLoop 0 test.unplaced (unplacedAll body)
  | .forLoop _ init test step body =>
    .forLoop 0 init.unplaced test.unplaced step.unplaced (unplacedAll body)
  | .eachLoop _ item source body iteration =>
    .eachLoop 0 item source.unplaced (unplacedAll body) iteration
  | .countLoop _ count body => .countLoop 0 count.unplaced (unplacedAll body)
  | .leave _ => .leave 0
  | .again _ => .again 0
  | .ret _ value => .ret 0 (value.map Expr.unplaced)
  | .exit _ => .exit 0
  | .func _ name params body => .func 0 name params (unplacedAll body)
  | .call _ target => .call 0 target.unplaced
  | .assign _ target value => .assign 0 target.unplaced value.unplaced

def unplacedAll : List Stmt → List Stmt
  | [] => []
  | s :: rest => s.unplaced :: unplacedAll rest

def unplacedBranches : Branches → Branches
  | .done => .done
  | .otherwise body => .otherwise (unplacedAll body)
  | .elseIf test body rest =>
    .elseIf test.unplaced (unplacedAll body) (unplacedBranches rest)

end

end Stmt

-- What is written holds no comments.
def Piece.Speaks : Piece → Prop
  | .fixed kind _ => kind ≠ .comment
  | .number _ => True

def Speak (pieces : List Piece) : Prop :=
  ∀ p ∈ pieces, p.Speaks

section Speaking

variable {p : Piece} {ps qs : List Piece}

@[simp] theorem speak_nil : Speak [] :=
  nofun

@[simp] theorem speak_cons : Speak (p :: ps) ↔ p.Speaks ∧ Speak ps :=
  List.forall_mem_cons

@[simp] theorem speak_append : Speak (ps ++ qs) ↔ Speak ps ∧ Speak qs :=
  List.forall_mem_append

@[simp] theorem speaks_fixed {kind : Token.Kind} {lexeme : String} (h : kind ≠ .comment) :
    (Piece.fixed kind lexeme).Speaks :=
  h

@[simp] theorem speak_inBrackets (h : Speak ps) : Speak (Piece.inBrackets ps) := by
  simp [Piece.inBrackets, Piece.opening, Piece.closing, h]

theorem speaks_ofLiteral (value : Literal) : (Piece.ofLiteral value).Speaks := by
  cases value with
  | bool b => cases b <;> simp [Piece.ofLiteral]
  | _ => simp [Piece.ofLiteral, Piece.Speaks]

theorem Expr.speak_asOperand {e : Expr} (h : Speak ps) : Speak (e.asOperand ps) := by
  unfold asOperand
  split
  · exact h
  · exact speak_inBrackets h

mutual

theorem Expr.speak_render (e : Expr) : Speak e.render := by
  cases e with
  | name m x => simp [Expr.render, Piece.name]
  | literal m value => simp [Expr.render, speaks_ofLiteral]
  | static m x args binding => simp [Expr.render, Piece.name, Expr.speak_renderArgs args]
  | member m target x args binding =>
      simp [Expr.render, Piece.name, Piece.colon, Expr.speak_render target,
        Expr.speak_renderArgs args]
  | new m typeName args binding =>
      simp [Expr.render, Piece.name, Piece.word, Expr.speak_renderArgs args]
  | binary m op lhs rhs =>
      simp [Expr.render, Piece.operator, Expr.speak_asOperand (Expr.speak_render lhs),
        Expr.speak_asOperand (Expr.speak_render rhs)]
  | unary m op operand =>
      simp [Expr.render, Piece.operator, Expr.speak_asOperand (Expr.speak_render operand)]
  | cast m typeName operand =>
      simp [Expr.render, Piece.operator, Piece.name,
        Expr.speak_asOperand (Expr.speak_render operand)]

theorem Expr.speak_renderArgs (es : List Expr) : Speak (Expr.renderArgs es) := by
  cases es with
  | nil => simp [Expr.renderArgs]
  | cons e es => simp [Expr.renderArgs, Expr.speak_render e, Expr.speak_renderArgs es]

end

theorem VarStmt.speak_render (v : VarStmt) : Speak v.render := by
  cases v with
  | declare offset x value =>
      simp [VarStmt.render, Piece.word, Piece.name, Piece.operator, value.speak_render]
  | update offset x change current result =>
      cases change with
      | compound op value =>
          simp [VarStmt.render, Change.render, Piece.word, Piece.name, Piece.operator,
            value.speak_render]
      | increment => simp [VarStmt.render, Change.render, Piece.word, Piece.name, Piece.operator]
      | decrement => simp [VarStmt.render, Change.render, Piece.word, Piece.name, Piece.operator]

theorem Stmt.speak_renderParams (names : List String) : Speak (Stmt.renderParams names) := by
  intro p hp
  obtain ⟨x, -, hx⟩ := List.mem_flatMap.mp hp
  exact speak_inBrackets (by simp [Piece.name]) p hx

mutual

theorem Stmt.speak_render (stmt : Stmt) : Speak stmt.render := by
  cases stmt with
  | var v => exact v.speak_render
  | input offset x typeName declared =>
      cases typeName <;> simp [Stmt.render, Piece.word, Piece.name, Piece.operator]
  | cond offset test body rest =>
      simp [Stmt.render, Piece.word, Piece.endLine, test.speak_render, Stmt.speak_renderAll body,
        Stmt.speak_renderBranches rest]
  | whileLoop offset test body =>
      simp [Stmt.render, Piece.word, Piece.endLine, test.speak_render, Stmt.speak_renderAll body]
  | forLoop offset init test step body =>
      simp [Stmt.render, Piece.word, Piece.endLine, init.speak_render, test.speak_render,
        step.speak_render, Stmt.speak_renderAll body]
  | eachLoop offset item source body iteration =>
      simp [Stmt.render, Piece.word, Piece.name, Piece.endLine, source.speak_render,
        Stmt.speak_renderAll body]
  | countLoop offset count body =>
      simp [Stmt.render, Piece.word, Piece.endLine, count.speak_render, Stmt.speak_renderAll body]
  | ret offset value =>
      cases value with
      | none => simp [Stmt.render, Piece.word]
      | some value => simp [Stmt.render, Piece.word, value.speak_render]
  | func offset name params body =>
      simp [Stmt.render, Piece.word, Piece.name, Piece.endLine, Stmt.speak_renderParams params,
        Stmt.speak_renderAll body]
  | call offset target => exact target.speak_render
  | assign offset target value =>
      simp [Stmt.render, Piece.operator, target.speak_render, value.speak_render]
  | _ => simp [Stmt.render, Piece.word, Piece.name]

theorem Stmt.speak_renderAll (stmts : List Stmt) : Speak (Stmt.renderAll stmts) := by
  cases stmts with
  | nil => simp [Stmt.renderAll]
  | cons stmt stmts =>
      simp [Stmt.renderAll, Piece.endLine, Stmt.speak_render stmt, Stmt.speak_renderAll stmts]

theorem Stmt.speak_renderBranches (branches : Branches) : Speak (Stmt.renderBranches branches) := by
  cases branches with
  | done => simp [Stmt.renderBranches, Piece.word]
  | otherwise body =>
      simp [Stmt.renderBranches, Piece.word, Piece.endLine, Stmt.speak_renderAll body]
  | elseIf test body rest =>
      simp [Stmt.renderBranches, Piece.word, Piece.endLine, test.speak_render,
        Stmt.speak_renderAll body, Stmt.speak_renderBranches rest]

end

end Speaking

end HostScript
