import HostScript.Diagnostic
import HostScript.Host.Registry
import HostScript.Text.Case
import HostScript.Typing.Context
import HostScript.Typing.Operators
import HostScript.Typing.Symbols

namespace HostScript

-- An input of a script.
structure InputVar where
  name : String
  ty : Ty
  deriving DecidableEq, Repr

-- What may still be declared: imports come first, then inputs, then everything else.
inductive HeaderPart where
  | imports
  | inputs
  | body
  deriving DecidableEq, Repr

-- What the checker knows on its way through a script. `writes` holds the writes seen in each loop
-- around the current point, innermost loop first.
structure Checker where
  ctx : TypeContext := .initial
  symbols : SymbolTable := .empty
  imports : List String := []
  inputs : List InputVar := []
  writes : List (List (String × Ty)) := []
  header : HeaderPart := .imports

-- What the code generator needs besides the annotated script.
structure Analysis where
  inputs : List InputVar
  symbols : SymbolTable
  imports : List String

abbrev Check (α : Type) := StateT Checker (Except Diagnostic) α

namespace Check

def fail {α : Type} (problem : Diagnostic.Problem) (offset : Nat) : Check α :=
  throw ⟨problem, offset⟩

def lookup (name : String) : Check (Option Ty) := do
  return (← get).ctx.lookup name

def pushFrame (kind : FrameKind) : Check Unit :=
  modify fun c => { c with ctx := c.ctx.push kind }

def popFrame : Check Unit :=
  modify fun c => { c with ctx := c.ctx.pop }

def addImport (ns : String) : Check Unit :=
  modify fun c =>
    let ns := Text.lower ns
    if c.imports.contains ns then c else { c with imports := c.imports ++ [ns] }

-- A variable is read.
def use (name : String) (offset : Nat) : Check Unit :=
  modify fun c => { c with symbols := c.symbols.record name offset false false }

-- A variable is written. Every loop around the write takes note.
def write (name : String) (ty : Ty) (offset : Nat) : Check Unit :=
  modify fun c => { c with
    ctx := c.ctx.set name ty
    symbols := c.symbols.record name offset ty.mayBeRef false
    writes := c.writes.map ((name, ty) :: ·) }

def resolveType (r : Registry) (name : String) (offset : Nat) : Check Ty := do
  match r.resolveType (← get).imports name with
  | [ty] => return ty
  | [] => fail (.unknownType name) offset
  | _ => fail (.ambiguousType name) offset

-- The static members a name may mean.
structure Candidates where
  methods : List MethodDef
  properties : List PropertyDef
  consts : List ConstDef

def Candidates.count (c : Candidates) : Nat :=
  c.methods.length + c.properties.length + c.consts.length

-- Looks in the namespace in front of the last point, or in the imported ones.
def staticCandidates (r : Registry) (imports : List String) (name : String) : Candidates :=
  let (spaces, short) := match splitQualified name with
    | (some ns, short) => ([ns], short)
    | (none, short) => (imports, short)
  { methods := spaces.flatMap (r.staticMethods · short)
    properties := spaces.flatMap (r.staticProperties · short)
    consts := spaces.flatMap (r.constsNamed · short) }

def checkArgsFrom (r : Registry) (name : String) (index : Nat) : List Ty → List Expr → Check Unit
  | param :: params, arg :: args => do
    if !param.accepts arg.ty then
      fail (.badArgument index name (r.typeName param) arg.ty) arg.offset
    checkArgsFrom r name (index + 1) params args
  | _, _ => return

def checkArgs (r : Registry) (name : String) (params : List Ty) (args : List Expr) (offset : Nat) :
    Check Unit := do
  if params.length ≠ args.length then
    fail (.argumentCount name params.length args.length) offset
  checkArgsFrom r name 1 params args

-- Settles what a single candidate stands for. A property that is about to be assigned need not be
-- readable.
def settleProperty (p : PropertyDef) (name : String) (args : List Expr) (offset : Nat)
    (assigned : Bool) : Check Unit := do
  if !args.isEmpty then fail (.notAMethod name) offset
  if !assigned && p.getter.isNone then fail (.unreadable name) offset

-- Finds the one member that a name without a target means, with its arguments already checked.
def resolveStatic (r : Registry) (name : String) (args : List Expr) (offset : Nat)
    (assigned : Bool) : Check (StaticBinding × Ty) := do
  let found := staticCandidates r (← get).imports name
  if found.count = 0 then fail (.unknownMember name) offset
  if found.count > 1 then fail (.ambiguousMember name) offset
  match found.methods, found.properties, found.consts with
  | m :: _, _, _ =>
    checkArgs r name m.params args offset
    return (.method m.id, m.returns)
  | [], p :: _, _ =>
    settleProperty p name args offset assigned
    return (.property p.id, p.ty)
  | [], [], c :: _ =>
    if !args.isEmpty then fail (.notAMethod name) offset
    return (.const c.value, c.value.ty)
  | [], [], [] => fail (.unknownMember name) offset

-- Finds the one member that a name behind a target means. On a dynamic target that is left to the
-- run.
def resolveMember (r : Registry) (target : Ty) (name : String) (args : List Expr) (offset : Nat)
    (assigned : Bool) : Check (MemberBinding × Ty) := do
  match target with
  | .dynamic => return (.dynamic, .dynamic)
  | .object id =>
    match r.instanceMethods id name, r.instanceProperties id name with
    | [], [] => fail (.unknownMemberOn name (r.typeName target)) offset
    | [m], [] =>
      checkArgs r name m.params args offset
      return (.method m.id, m.returns)
    | [], [p] =>
      settleProperty p name args offset assigned
      return (.property p.id, p.ty)
    | _, _ => fail (.ambiguousMember name) offset
  | other => fail (.noMembers other name) offset

-- Finds the constructor that takes these arguments.
def resolveConstructor (r : Registry) (typeName : String) (args : List Expr) (offset : Nat) :
    Check (Nat × Ty) := do
  let ty ← resolveType r typeName offset
  match ty with
  | .object id =>
    let counted := (r.constructorsOf id).filter (·.params.length = args.length)
    if counted.isEmpty then fail (.noConstructor typeName args.length) offset
    let fitting := counted.filter fun c =>
      (c.params.zip args).all fun (param, arg) => param.accepts arg.ty
    match fitting with
    | [c] => return (c.id, ty)
    | [] => fail (.noFittingConstructor typeName) offset
    | _ => fail (.ambiguousConstructor typeName) offset
  | _ => fail (.notConstructible typeName) offset

-- A name that is no variable is a static member, if there is one.
def resolveName (r : Registry) (name : String) (offset : Nat) : Check Expr := do
  if (staticCandidates r (← get).imports name).count = 0 then fail (.undeclared name) offset
  let (binding, ty) ← resolveStatic r name [] offset false
  return .static ⟨offset, ty⟩ name [] binding

mutual

-- Checks an expression and returns it with its type and its bindings.
def expr (r : Registry) : Expr → Check Expr
  | .literal m value => return .literal ⟨m.offset, value.ty⟩ value
  | .name m name => do
    match ← lookup name with
    | some ty =>
      use name m.offset
      return .name ⟨m.offset, ty⟩ name
    | none => resolveName r name m.offset
  | .static m name args _ => do
    let args ← exprs r args
    let (binding, ty) ← resolveStatic r name args m.offset false
    return .static ⟨m.offset, ty⟩ name args binding
  | .member m target name args _ => do
    let target ← expr r target
    let args ← exprs r args
    let (binding, ty) ← resolveMember r target.ty name args m.offset false
    return .member ⟨m.offset, ty⟩ target name args binding
  | .new m typeName args _ => do
    let args ← exprs r args
    let (id, ty) ← resolveConstructor r typeName args m.offset
    return .new ⟨m.offset, ty⟩ typeName args (some id)
  | .binary m op lhs rhs => do
    let lhs ← expr r lhs
    let rhs ← expr r rhs
    match op.result? lhs.ty rhs.ty with
    | some ty => return .binary ⟨m.offset, ty⟩ op lhs rhs
    | none => fail (.badOperands op.symbol lhs.ty rhs.ty) m.offset
  | .unary m op operand => do
    let operand ← expr r operand
    match op.result? operand.ty with
    | some ty => return .unary ⟨m.offset, ty⟩ op operand
    | none => fail (.badOperand op.symbol operand.ty) m.offset
  | .cast m typeName _ => fail (.castsValue typeName) m.offset

def exprs (r : Registry) : List Expr → Check (List Expr)
  | [] => return []
  | e :: rest => do
    let e ← expr r e
    let rest ← exprs r rest
    return e :: rest

end

def condition (r : Registry) (test : Expr) : Check Expr := do
  let test ← expr r test
  if !test.ty.mayBeBool then fail (.badCondition test.ty) test.offset
  return test

def change (r : Registry) : Change → Check (Change × Ty)
  | .compound op value => do
    let value ← expr r value
    return (.compound op value, value.ty)
  | .increment => return (.increment, .long)
  | .decrement => return (.decrement, .long)

def varStmt (r : Registry) : VarStmt → Check VarStmt
  | .declare offset name value => do
    let value ← expr r value
    if value.ty = .void then fail (.assignsNothing name) value.offset
    write name value.ty offset
    return .declare offset name value
  | .update offset name how _ _ => do
    match ← lookup name with
    | none => fail (.undeclared name) offset
    | some current =>
      let (how, rhs) ← change r how
      match (BinaryOp.arith how.op).result? current rhs with
      | none => fail (.badOperands how.op.symbol current rhs) offset
      | some result =>
        write name result offset
        return .update offset name how current result

-- How a `foreach` walks its source, and the type of the items.
def iteration (r : Registry) (source : Expr) : Check (Iteration × Ty) := do
  match source.ty with
  | .dynamic => return (.dynamic, .dynamic)
  | .object id =>
    match r.types[id]?.bind (·.iteration) with
    | some it =>
      let itemTy := (r.methods[it.getItem]?.map (·.returns)).getD .dynamic
      return (.members it.count it.getItem, itemTy)
    | none => fail (.notIterable (r.typeName source.ty)) source.offset
  | other => fail (.notIterable other.text) source.offset

def enterLoop : Check Unit :=
  modify fun c => { c with ctx := c.ctx.push .loop, writes := [] :: c.writes }

-- Stops watching the writes of the innermost loop and hands them over.
def takeWrites : Check (List (String × Ty)) := do
  let c ← get
  set { c with writes := c.writes.tail }
  return c.writes.headD []

-- Variables that were known before a loop and were written with another type inside it.
def changedIn (before : TypeContext) (writes : List (String × Ty)) : List String :=
  (writes.filter fun (name, ty) =>
    match before.lookup name with
    | some outer => outer ≠ ty
    | none => false).map (·.1)

-- Checks the part of a loop that runs again and again. If a variable from outside changes its type
-- in there, the part is checked once more with nothing known of that variable, because a later
-- round sees what an earlier one left. Code behind the loop sees what the body assigned last.
def loop {α : Type} (pass : Check α) : Check α := do
  let before := (← get).ctx
  enterLoop
  let first ← pass
  let changed := changedIn before (← takeWrites)
  if changed.isEmpty then
    popFrame
    return first
  else
    modify fun c => { c with ctx := before }
    enterLoop
    modify fun c => { c with ctx := changed.foldl (fun ctx name => ctx.set name .dynamic) c.ctx }
    let second ← pass
    let _ ← takeWrites
    popFrame
    return second

-- A property that is assigned: it must be writable and accept the value.
def assignedProperty (r : Registry) (id : Nat) (name : String) (value : Expr) (offset : Nat) :
    Check Unit := do
  match r.properties[id]?.filter (·.setter.isSome) with
  | none => fail (.readOnly name) offset
  | some p =>
    if !p.ty.accepts value.ty then
      fail (.badPropertyValue value.ty name (r.typeName p.ty)) value.offset

def assignStatic (r : Registry) (mark : Mark) (name : String) (args : List Expr) (value : Expr) :
    Check Expr := do
  let (binding, ty) ← resolveStatic r name args mark.offset true
  match binding with
  | .property id => assignedProperty r id name value mark.offset
  | _ => fail (.notAProperty name) mark.offset
  return .static ⟨mark.offset, ty⟩ name args binding

-- The target of an assignment. Variables are assigned with `var` and nothing else.
def assignTarget (r : Registry) (target value : Expr) (offset : Nat) : Check Expr := do
  match target with
  | .name m name => assignStatic r m name [] value
  | .static m name args _ => assignStatic r m name args value
  | .member m owner name args _ =>
    let owner ← expr r owner
    let (binding, ty) ← resolveMember r owner.ty name args m.offset true
    match binding with
    | .dynamic => pure ()
    | .property id => assignedProperty r id name value m.offset
    | _ => fail (.notAProperty name) m.offset
    return .member ⟨m.offset, ty⟩ owner name args binding
  | _ => fail .assignsNonMember offset

-- A variable cannot stand where a member is expected.
def refuseVariable (target : Expr) (problem : String → Diagnostic.Problem) (offset : Nat) :
    Check Unit := do
  match target with
  | .name _ name => if (← lookup name).isSome then fail (problem name) offset
  | _ => return

mutual

def stmt (r : Registry) : Stmt → Check Stmt
  | .using offset _ => fail .buriedHeader offset
  | .input offset _ _ _ => fail .buriedHeader offset
  | .var v => return .var (← varStmt r v)
  | .cond offset test body rest => do
    let test ← condition r test
    pushFrame .condition
    let body ← stmts r body
    popFrame
    let rest ← branches r rest
    return .cond offset test body rest
  | .whileLoop offset test body =>
    loop do
      let test ← condition r test
      let body ← stmts r body
      return .whileLoop offset test body
  | .forLoop offset init test step body => do
    let init ← varStmt r init
    loop do
      let test ← condition r test
      let body ← stmts r body
      let step ← varStmt r step
      return .forLoop offset init test step body
  | .eachLoop offset item source body _ => do
    let source ← expr r source
    let (how, itemTy) ← iteration r source
    loop do
      write item itemTy offset
      let body ← stmts r body
      return .eachLoop offset item source body how
  | .countLoop offset count body => do
    let count ← expr r count
    if !count.ty.mayBeNumber then fail (.badCount count.ty) count.offset
    loop do
      let body ← stmts r body
      return .countLoop offset count body
  | .leave offset => do
    if !(← get).ctx.inLoop then fail .strayBreak offset
    return .leave offset
  | .again offset => do
    if !(← get).ctx.inLoop then fail .strayContinue offset
    return .again offset
  | .ret offset none => return .ret offset none
  | .ret offset (some value) => do
    let value ← expr r value
    if value.ty = .void then fail .returnsNothing value.offset
    return .ret offset (some value)
  | .exit offset => return .exit offset
  | .func offset name _ _ => fail (.declaresFunction name) offset
  | .call offset target => do
    refuseVariable target .variableAlone offset
    return .call offset (← expr r target)
  | .assign offset target value => do
    refuseVariable target .assignsVariable offset
    let value ← expr r value
    let target ← assignTarget r target value offset
    return .assign offset target value

def stmts (r : Registry) : List Stmt → Check (List Stmt)
  | [] => return []
  | s :: rest => do
    let s ← stmt r s
    let rest ← stmts r rest
    return s :: rest

def branches (r : Registry) : Branches → Check Branches
  | .done => return .done
  | .otherwise body => do
    pushFrame .condition
    let body ← stmts r body
    popFrame
    return .otherwise body
  | .elseIf test body rest => do
    let test ← condition r test
    pushFrame .condition
    let body ← stmts r body
    popFrame
    let rest ← branches r rest
    return .elseIf test body rest

end

def usingStmt (r : Registry) (offset : Nat) (ns : String) : Check Unit := do
  if (← get).header ≠ .imports then fail .lateUsing offset
  if !r.hasNamespace ns then fail (.unknownNamespace ns) offset
  addImport ns

def inputStmt (r : Registry) (offset : Nat) (name : String) (typeName : Option String) :
    Check Ty := do
  if (← get).header = .body then fail .lateInput offset
  modify fun c => { c with header := .inputs }
  if (← get).inputs.any (·.name = name) then fail (.duplicateInput name) offset
  let ty ← match typeName with
    | some t => resolveType r t offset
    | none => pure .dynamic
  modify fun c => { c with
    ctx := c.ctx.set name ty
    symbols := c.symbols.record name offset ty.mayBeRef true
    inputs := c.inputs ++ [⟨name, ty⟩] }
  return ty

-- A statement outside all blocks. Only here may imports and inputs be declared.
def topStmt (r : Registry) (s : Stmt) : Check Stmt := do
  match s with
  | .using offset ns =>
    usingStmt r offset ns
    return .using offset ns
  | .input offset name typeName _ =>
    return .input offset name typeName (← inputStmt r offset name typeName)
  | s =>
    modify fun c => { c with header := .body }
    stmt r s

def topStmts (r : Registry) : List Stmt → Check (List Stmt)
  | [] => return []
  | s :: rest => do
    let s ← topStmt r s
    let rest ← topStmts r rest
    return s :: rest

def importAll : List String → Check Unit
  | [] => return
  | ns :: rest => do
    addImport ns
    importAll rest

def script (r : Registry) (imports : List String) (s : Script) : Check Script := do
  importAll imports
  topStmts r s

end Check

-- Checks a script against a registry: every name is declared or registered, operands and arguments
-- go together, and each expression gets its type.
def Script.check (r : Registry) (imports : List String) (s : Script) :
    Except Diagnostic (Script × Analysis) :=
  ((Check.script r imports s).run {}).map fun (checked, c) =>
    (checked, ⟨c.inputs, c.symbols, c.imports⟩)

end HostScript
