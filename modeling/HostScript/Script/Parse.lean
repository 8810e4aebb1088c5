import HostScript.Diagnostic
import HostScript.Script.Basic
import HostScript.Token.Basic

namespace HostScript

-- A recursive-descent parser: it takes tokens off the front of the list or finds a problem. Binary
-- operators have no precedence and group from the right. Fuel bounds the depth of the recursion; as
-- every call takes a token within a few levels, a small multiple of the number of tokens is enough.
abbrev Parser (α : Type) := StateT (List Token) (Except Diagnostic) α

namespace Parser

def fail {α : Type} (problem : Diagnostic.Problem) (offset : Nat) : Parser α :=
  throw ⟨problem, offset⟩

def peek : Parser (Option Token) := do
  return (← get).head?

def advance : Parser Unit :=
  modify List.tail

def skipLines : Parser Unit :=
  modify (·.dropWhile (·.kind = .endLine))

-- The offset of the next token, or `stop` at the end.
def offset (stop : Nat) : Parser Nat := do
  return ((← peek).map Token.offset).getD stop

def isNext (p : Token → Bool) : Parser Bool := do
  return ((← peek).map p).getD false

def unexpected {α : Type} (stop : Nat) (expected : String) : Parser α := do
  match ← peek with
  | some t => fail (.unexpected expected t.describe) t.offset
  | none => fail (.missing expected) stop

def expect (stop : Nat) (p : Token → Bool) (expected : String) : Parser Token := do
  match ← peek with
  | some t => if p t then do advance; return t else unexpected stop expected
  | none => unexpected stop expected

def expectKind (stop : Nat) (kind : Token.Kind) (expected : String) : Parser Token :=
  expect stop (·.kind = kind) expected

def expectKeyword (stop : Nat) (word : String) : Parser Token :=
  expect stop (·.isKeyword word) s!"'{word}'"

def expectName (stop : Nat) (expected : String) : Parser Token := do
  match ← peek with
  | some t =>
    if t.kind = .identifier then do advance; return t
    else fail (.notAName expected t.describe) t.offset
  | none => unexpected stop expected

def skipKeyword (word : String) : Parser Unit := do
  if ← isNext (·.isKeyword word) then advance

-- A name in brackets.
def bracketedName (stop : Nat) : Parser String := do
  let _ ← expectKind stop .openBracket "'['"
  let name ← expectName stop "a name"
  let _ ← expectKind stop .closedBracket "']'"
  return name.lexeme

-- A type name between angle brackets.
def typeRef (stop : Nat) : Parser String := do
  let _ ← expect stop (·.isOperator "<") "'<'"
  let name ← expectName stop "a type name"
  let _ ← expect stop (·.isOperator ">") "'>'"
  return name.lexeme

def endsStmt (t : Token) : Bool :=
  t.kind = .endLine || t.isKeyword "end" || t.isKeyword "else" || t.isKeyword "elseif"

def atStmtEnd : Parser Bool := do
  return ((← peek).map endsStmt).getD true

-- A statement ends with its line, before the word that closes its block, or with the source.
def stmtEnd : Parser Unit := do
  match ← peek with
  | none => return
  | some t =>
    if t.kind = .endLine then advance
    else if endsStmt t then return
    else fail (.lineGoesOn t.describe) t.offset

def unaryOp? (t : Token) : Option UnaryOp :=
  if t.isOperator "-" then some .neg
  else if t.isOperator "!" || t.isOperator "not" then some .not
  else none

def binaryOp? (t : Token) : Option BinaryOp :=
  if t.kind = .operator then BinaryOp.ofLexeme? t.lexeme else none

mutual

def expr (stop : Nat) : Nat → Parser Expr
  | 0 => fail (.missing "an expression") stop
  | fuel + 1 => do
    let lhs ← unary stop fuel
    match (← peek).bind binaryOp? with
    | some op =>
      advance
      let rhs ← expr stop fuel
      return .binary ⟨lhs.offset, .dynamic⟩ op lhs rhs
    | none => return lhs

def unary (stop : Nat) : Nat → Parser Expr
  | 0 => fail (.missing "an expression") stop
  | fuel + 1 => do
    let start ← offset stop
    match (← peek).bind unaryOp? with
    | some op =>
      advance
      let operand ← unary stop fuel
      return .unary ⟨start, .dynamic⟩ op operand
    | none => operand stop fuel

def operand (stop : Nat) : Nat → Parser Expr
  | 0 => fail (.missing "an expression") stop
  | fuel + 1 => do
    match ← peek with
    | none => fail (.missing "an expression") stop
    | some t =>
      let mark : Mark := ⟨t.offset, .dynamic⟩
      match t.kind with
      | .openBracket =>
        advance
        let inner ← expr stop fuel
        let _ ← expectKind stop .closedBracket "']'"
        suffixes stop inner fuel
      | .numLiteral =>
        advance
        match Literal.ofNumeral? t.lexeme.toList with
        | some value => return .literal mark value
        | none => fail (.badNumber t.lexeme) t.offset
      | .stringLiteral =>
        advance
        return .literal mark (.string t.lexeme)
      | .nullLiteral =>
        advance
        return .literal mark .null
      | .trueLiteral =>
        advance
        return .literal mark (.bool true)
      | .falseLiteral =>
        advance
        return .literal mark (.bool false)
      | .identifier =>
        advance
        match ← args stop fuel with
        | [] => suffixes stop (.name mark t.lexeme) fuel
        | given => suffixes stop (.static mark t.lexeme given .unresolved) fuel
      | _ =>
        if t.isKeyword "new" then
          advance
          let typeName ← expectName stop "a type name"
          let given ← args stop fuel
          suffixes stop (.new mark typeName.lexeme given none) fuel
        else if t.isOperator "<" then
          let typeName ← typeRef stop
          let inner ← operand stop fuel
          return .cast mark typeName inner
        else fail (.notAnExpression t.describe) t.offset

-- Bracketed arguments, as many as follow.
def args (stop : Nat) : Nat → Parser (List Expr)
  | 0 => return []
  | fuel + 1 => do
    if ← isNext (·.kind = .openBracket) then
      advance
      let first ← expr stop fuel
      let _ ← expectKind stop .closedBracket "']'"
      let rest ← args stop fuel
      return first :: rest
    else return []

-- Member accesses behind an expression, as many as follow.
def suffixes (stop : Nat) (target : Expr) : Nat → Parser Expr
  | 0 => return target
  | fuel + 1 => do
    if ← isNext (·.kind = .colon) then
      advance
      let name ← expectName stop "a member name"
      let given ← args stop fuel
      suffixes stop (.member ⟨name.offset, .dynamic⟩ target name.lexeme given .unresolved) fuel
    else return target

end

-- The header of a block: an expression, then perhaps `do`. Both may stand on lines of their own.
def header (stop fuel : Nat) : Parser Expr := do
  skipLines
  let e ← expr stop fuel
  skipLines
  skipKeyword "do"
  return e

def compoundOp? (lexeme : String) : Option Arith :=
  if lexeme = "+=" then some .add
  else if lexeme = "-=" then some .sub
  else if lexeme = "*=" then some .mul
  else if lexeme = "/=" then some .div
  else if lexeme = "%=" then some .mod
  else none

def varStmt (stop fuel : Nat) : Parser VarStmt := do
  let start ← offset stop
  if !(← isNext (·.isKeyword "var")) then fail .notAVarStatement start
  advance
  let name ← bracketedName stop
  let opOffset ← offset stop
  match ← peek with
  | some t =>
    if t.kind ≠ .operator then fail (.noAssignment name) opOffset
    else
      advance
      if t.lexeme = "=" then
        return .declare start name (← expr stop fuel)
      else if t.lexeme = "++" then return .update start name .increment .dynamic .dynamic
      else if t.lexeme = "--" then return .update start name .decrement .dynamic .dynamic
      else match compoundOp? t.lexeme with
        | some op =>
          let value ← expr stop fuel
          return .update start name (.compound op value) .dynamic .dynamic
        | none => fail (.notAnAssignment t.lexeme) opOffset
  | none => fail (.noAssignment name) opOffset

-- A call, or an assignment to a property. Only a reference without arguments can be assigned to,
-- and a constructor makes no statement by itself.
def memberStmt (stop fuel : Nat) : Parser Stmt := do
  let start ← offset stop
  let target ← operand stop fuel
  let assignable ← match target with
    | .name _ _ => pure true
    | .static _ _ given _ | .member _ _ _ given _ => pure given.isEmpty
    | .new _ _ _ _ => pure false
    | _ => fail .notAStatement start
  if ← isNext (·.isOperator "=") then
    let opOffset ← offset stop
    advance
    if !assignable then fail .assignsCall opOffset
    return .assign start target (← expr stop fuel)
  else match target with
    | .new _ _ _ _ => fail .constructsNothing start
    | _ => return .call start target

def inputStmt (stop start : Nat) : Parser Stmt := do
  let typeName ← if ← isNext (·.isOperator "<") then some <$> typeRef stop else pure none
  let name ← bracketedName stop
  return .input start name typeName .dynamic

def returnStmt (stop fuel start : Nat) : Parser Stmt := do
  if ← atStmtEnd then return .ret start none
  else return .ret start (some (← expr stop fuel))

-- Parameter names in brackets, as many as follow.
def params (stop : Nat) : Nat → Parser (List String)
  | 0 => return []
  | fuel + 1 => do
    if ← isNext (·.kind = .openBracket) then
      let name ← bracketedName stop
      return name :: (← params stop fuel)
    else return []

mutual

def stmt (stop : Nat) : Nat → Parser Stmt
  | 0 => fail (.missing "a statement") stop
  | fuel + 1 => do
    match ← peek with
    | none => unexpected stop "a statement"
    | some t =>
      if t.kind ≠ .keyword || t.lexeme = "new" then memberStmt stop fuel
      else if t.lexeme = "using" then
        advance
        let ns ← expectName stop "a namespace"
        return .using t.offset ns.lexeme
      else if t.lexeme = "in" then
        advance
        inputStmt stop t.offset
      else if t.lexeme = "var" then return .var (← varStmt stop fuel)
      else if t.lexeme = "if" then
        advance
        let test ← header stop fuel
        let body ← block stop ["elseif", "else", "end"] fuel
        let rest ← branches stop fuel
        return .cond t.offset test body rest
      else if t.lexeme = "while" then
        advance
        let test ← header stop fuel
        let body ← closedBlock stop fuel
        return .whileLoop t.offset test body
      else if t.lexeme = "for" then
        advance
        skipLines
        let init ← varStmt stop fuel
        skipLines
        let test ← expr stop fuel
        skipLines
        let step ← varStmt stop fuel
        skipLines
        skipKeyword "do"
        let body ← closedBlock stop fuel
        return .forLoop t.offset init test step body
      else if t.lexeme = "foreach" then
        advance
        skipLines
        let item ← bracketedName stop
        skipLines
        let _ ← expectKeyword stop "in"
        let source ← header stop fuel
        let body ← closedBlock stop fuel
        return .eachLoop t.offset item source body .unresolved
      else if t.lexeme = "loop" then
        advance
        let count ← header stop fuel
        let body ← closedBlock stop fuel
        return .countLoop t.offset count body
      else if t.lexeme = "break" then
        advance
        return .leave t.offset
      else if t.lexeme = "continue" then
        advance
        return .again t.offset
      else if t.lexeme = "exit" then
        advance
        return .exit t.offset
      else if t.lexeme = "return" then
        advance
        returnStmt stop fuel t.offset
      else if t.lexeme = "function" then
        advance
        let name ← expectName stop "a function name"
        let names ← params stop fuel
        let body ← closedBlock stop fuel
        return .func t.offset name.lexeme names body
      else fail (.strayKeyword t.lexeme) t.offset

-- Statements up to one of the closing words, which is left in place.
def block (stop : Nat) (closers : List String) : Nat → Parser (List Stmt)
  | 0 => fail .openBlock stop
  | fuel + 1 => do
    skipLines
    match ← peek with
    | none => fail .openBlock stop
    | some t =>
      if t.kind = .keyword && closers.contains t.lexeme then return []
      else
        let first ← stmt stop fuel
        stmtEnd
        let rest ← block stop closers fuel
        return first :: rest

-- Statements up to `end`, which is taken.
def closedBlock (stop : Nat) : Nat → Parser (List Stmt)
  | 0 => fail .openBlock stop
  | fuel + 1 => do
    let body ← block stop ["end"] fuel
    let _ ← expectKeyword stop "end"
    return body

-- The other branches of an `if`, with the `end` behind them.
def branches (stop : Nat) : Nat → Parser Branches
  | 0 => fail .openBlock stop
  | fuel + 1 => do
    match (← peek).map Token.lexeme with
    | some "elseif" =>
      advance
      let test ← header stop fuel
      let body ← block stop ["elseif", "else", "end"] fuel
      let rest ← branches stop fuel
      return .elseIf test body rest
    | some "else" =>
      advance
      let body ← closedBlock stop fuel
      return .otherwise body
    | _ =>
      let _ ← expectKeyword stop "end"
      return .done

end

-- Statements up to the end of the source.
def stmts (stop : Nat) : Nat → Parser (List Stmt)
  | 0 => fail .openBlock stop
  | fuel + 1 => do
    skipLines
    match ← peek with
    | none => return []
    | some _ =>
      let first ← stmt stop fuel
      stmtEnd
      let rest ← stmts stop fuel
      return first :: rest

-- Where the source is taken to end when a problem is found there: right behind the last token, as
-- long as its lexeme.
def stopOffset (tokens : List Token) : Nat :=
  (tokens.getLast?.map fun t => t.offset + t.lexeme.utf8ByteSize).getD 0

def fuelFor (tokens : List Token) : Nat :=
  4 * tokens.length + 8

-- Runs a parser on the tokens that carry meaning.
def runOn {α : Type} (tokens : List Token) (p : Nat → Nat → Parser α) :
    Except Diagnostic α :=
  (StateT.run (p (stopOffset tokens) (fuelFor tokens))
    (tokens.filter (·.kind ≠ .comment))).map (·.1)

end Parser

-- Reads a script. Comment tokens are passed over.
def Script.ofTokens (tokens : List Token) : Except Diagnostic Script :=
  Parser.runOn tokens Parser.stmts

-- Reads one expression and ignores what stands behind it.
def Expr.ofTokens (tokens : List Token) : Except Diagnostic Expr :=
  Parser.runOn tokens Parser.expr

end HostScript
