import HostScript.Code.Compiled
import HostScript.Code.StringPool
import HostScript.Code.Writer
import HostScript.Typing.Check

namespace HostScript

-- Where `break` and `continue` lead in a loop.
structure LoopLabels where
  leave : Nat
  again : Nat

-- What code generation looks things up in.
structure EmitEnv where
  registry : Registry
  symbols : SymbolTable
  level : Nat

-- Code under construction. A variable's slot is its place in `slots`; loops are innermost first;
-- `depth` is the height of the stack at the current point and `maxDepth` the greatest so far;
-- `hidden` counts the variables that no script can name.
structure Emitter where
  writer : Writer := .empty
  strings : StringPool := .empty
  slots : List String := []
  loops : List LoopLabels := []
  depth : Nat := 0
  maxDepth : Nat := 0
  hidden : Nat := 0

abbrev Emit (α : Type) := StateT Emitter (Except Diagnostic) α

namespace Emit

def fail {α : Type} (problem : Diagnostic.Problem) (offset : Nat) : Emit α :=
  throw ⟨problem, offset⟩

def write (f : Writer → Writer) : Emit Unit :=
  modify fun e => { e with writer := f e.writer }

def position : Emit Nat := do
  return (← get).writer.position

def pushed (n : Nat) : Emit Unit :=
  modify fun e =>
    let depth := e.depth + n
    { e with depth, maxDepth := max e.maxDepth depth }

def popped (n : Nat) : Emit Unit :=
  modify fun e => { e with depth := e.depth - n }

-- An instruction without operands.
def op (o : Opcode) : Emit Unit :=
  write (·.emit o)

def newLabel : Emit Nat := do
  let e ← get
  let (label, writer) := e.writer.newLabel
  set { e with writer }
  return label

def mark (label : Nat) : Emit Unit :=
  write (·.mark label)

-- A jump. The conditional ones take their condition off the stack.
def jump (o : Opcode) (label : Nat) : Emit Unit := do
  write (·.emitJump o label)
  if o ≠ .jump then popped 1

def intern (s : String) : Emit UInt16 := do
  let e ← get
  match e.strings.intern s with
  | (.ok i, strings) =>
    set { e with strings }
    return UInt16.ofNat i
  | (.error d, _) => throw d

-- The slot of a variable. Slots are given out on first use and never taken back.
def slot (name : String) (offset : Nat) : Emit UInt8 := do
  let e ← get
  match e.slots.idxOf? name with
  | some i => return UInt8.ofNat i
  | none =>
    if e.slots.length < 256 then
      set { e with slots := e.slots ++ [name] }
      return UInt8.ofNat e.slots.length
    else fail (.tooManyLocals name) offset

-- A variable of the compiler's own. No identifier starts with a dollar sign.
def hiddenSlot (what : String) (offset : Nat) : Emit UInt8 := do
  modify fun e => { e with hidden := e.hidden + 1 }
  slot s!"${what}{(← get).hidden}" offset

def loadSlot (s : UInt8) (holdsRef : Bool) : Emit Unit := do
  write (·.emitU8 (if holdsRef then .loadLoc else .loadLocNoRef) s)
  pushed 1

def storeSlot (s : UInt8) (holdsRef : Bool) : Emit Unit := do
  write (·.emitU8 (if holdsRef then .setLoc else .setLocNoRef) s)
  popped 1

def load (env : EmitEnv) (name : String) (offset : Nat) : Emit Unit := do
  loadSlot (← slot name offset) (env.symbols.mayHoldRef name)

def store (env : EmitEnv) (name : String) (offset : Nat) : Emit Unit := do
  storeSlot (← slot name offset) (env.symbols.mayHoldRef name)

def long (n : Int64) : Emit Unit := do
  write (·.emitLong n)
  pushed 1

def member (o : Opcode) (id : Nat) : Emit Unit :=
  write (·.emitI32 o (Int32.ofNat id))

-- A check of the value on top of the stack.
def guardTop (env : EmitEnv) (ty : Ty) (offset : Nat) : Emit Unit := do
  match TypeGuard.encode ty with
  | some code => write (·.emitI32 .checkType code)
  | none => fail (.uncheckableType (env.registry.typeName ty)) offset

-- Whether a value known only at run time has to be checked before it is used as `expected`.
def needsGuard (expected actual : Ty) : Bool :=
  expected ≠ .dynamic && actual = .dynamic

def checkTop (env : EmitEnv) (expected actual : Ty) (offset : Nat) : Emit Unit := do
  if needsGuard expected actual then guardTop env expected offset

def literal : Literal → Emit Unit
  | .null => do
    op .pushNull
    pushed 1
  | .bool b => do
    op (if b then .pushTrue else .pushFalse)
    pushed 1
  | .long n => long n
  | .double x => do
    write (·.emitDouble x)
    pushed 1
  | .string s => do
    let index ← intern s
    write (·.emitU16 .pushString index)
    pushed 1

def arithOp : Arith → (numeric : Bool) → Opcode
  | .add, true => .addNum
  | .add, false => .add
  | .sub, true => .subNum
  | .sub, false => .sub
  | .mul, true => .mulNum
  | .mul, false => .mul
  | .div, true => .divNum
  | .div, false => .div
  | .mod, true => .modNum
  | .mod, false => .mod

def orderOp : Order → (numeric : Bool) → Opcode
  | .lt, true => .lessNum
  | .lt, false => .less
  | .le, true => .lessEqNum
  | .le, false => .lessEq
  | .gt, true => .greaterNum
  | .gt, false => .greater
  | .ge, true => .greaterEqNum
  | .ge, false => .greaterEq

-- The instruction of a binary operator. The logical ones are made of jumps instead.
def binaryOpcode : BinaryOp → (numeric : Bool) → Opcode
  | .arith a, numeric => arithOp a numeric
  | .order o, numeric => orderOp o numeric
  | .eq, true => .equalsNum
  | .eq, false => .equals
  | .ne, true => .notEqualsNum
  | .ne, false => .notEquals
  | .and, _ | .or, _ => .nop

def binary (o : BinaryOp) (lhs rhs : Ty) : Emit Unit := do
  op (binaryOpcode o (lhs.isNumeric && rhs.isNumeric))
  popped 1

-- Checks of the arguments on the stack. The last argument lies on top; `above` counts the arguments
-- behind the current one, and depths beyond 255 are written as 255.
def guardArgs (env : EmitEnv) : List Ty → List Expr → (above : Nat) → Emit Unit
  | param :: params, arg :: args, above => do
    if needsGuard param arg.ty then
      match TypeGuard.encodeAt param (UInt8.ofNat (min above 255)) with
      | some code => write (·.emitI32 .peekCheckType code)
      | none => fail (.uncheckableType (env.registry.typeName param)) arg.offset
    guardArgs env params args (above - 1)
  | _, _, _ => return

-- A literal under an operator is replaced by its result.
def folded? (o : UnaryOp) (operand : Expr) : Option Literal :=
  match o, operand.literal? with
  | .neg, some (.long n) => some (.long (-n))
  | .neg, some (.double x) => some (.double (-x))
  | .not, some (.bool b) => some (.bool !b)
  | _, _ => none

mutual

-- Code that leaves the value of an expression on the stack.
def expr (env : EmitEnv) : Expr → Emit Unit
  | .literal _ value => literal value
  | .name m name => load env name m.offset
  | .static m name args binding =>
    match binding with
    | .const value => literal value
    | .method id => do
      let params := (env.registry.methods[id]?.map (·.params)).getD []
      exprs env args
      guardArgs env params args (args.length - 1)
      member .invokeStatic id
      popped args.length
      pushed 1
    | .property id => do
      member .getStaticProperty id
      pushed 1
    | .unresolved => fail (.unresolvedMember name) m.offset
  | .member m target name args binding =>
    match binding with
    | .method id => do
      let params := (env.registry.methods[id]?.map (·.params)).getD []
      expr env target
      exprs env args
      guardArgs env params args (args.length - 1)
      member .invoke id
      popped (args.length + 1)
      pushed 1
    | .property id => do
      expr env target
      member .getProperty id
      popped 1
      pushed 1
    | .dynamic => do
      expr env target
      let index ← intern name
      if args.isEmpty then
        write (·.emitU16 .getDynamicProperty index)
        popped 1
      else
        exprs env args
        if args.length ≥ 65536 then fail .tooManyArguments m.offset
        write (·.emitU16Pair .invokeDynamic index (UInt16.ofNat args.length))
        popped (args.length + 1)
      pushed 1
    | .unresolved => fail (.unresolvedMember name) m.offset
  | .new m typeName args binding =>
    match binding with
    | some id => do
      let params := (env.registry.constructors[id]?.map (·.params)).getD []
      exprs env args
      guardArgs env params args (args.length - 1)
      member .new id
      popped args.length
      pushed 1
    | none => fail (.unresolvedConstructor typeName) m.offset
  | .binary _ .and lhs rhs => do
    let skip ← newLabel
    let done ← newLabel
    expr env lhs
    jump .jumpIfFalse skip
    expr env rhs
    checkTop env .bool rhs.ty rhs.offset
    jump .jump done
    mark skip
    op .pushFalse
    mark done
  | .binary _ .or lhs rhs => do
    let skip ← newLabel
    let done ← newLabel
    expr env lhs
    jump .jumpIfTrue skip
    expr env rhs
    checkTop env .bool rhs.ty rhs.offset
    jump .jump done
    mark skip
    op .pushTrue
    mark done
  | .binary _ o lhs rhs => do
    expr env lhs
    expr env rhs
    binary o lhs.ty rhs.ty
  | .unary _ o operand =>
    match folded? o operand with
    | some value => literal value
    | none => do
      expr env operand
      match o with
      | .neg => op (if operand.ty.isNumeric then .negNum else .neg)
      | .not => op .not
  | .cast m typeName _ => fail (.compilesCast typeName) m.offset

def exprs (env : EmitEnv) : List Expr → Emit Unit
  | [] => return
  | e :: rest => do
    expr env e
    exprs env rest

end

-- The operand a change brings along; steps of one are whole.
def changeValue (env : EmitEnv) : Change → Emit Ty
  | .compound _ value => do
    expr env value
    return value.ty
  | .increment | .decrement => do
    long 1
    return .long

def varStmt (env : EmitEnv) : VarStmt → Emit Unit
  | .declare offset name value => do
    expr env value
    store env name offset
  | .update offset name how current _ => do
    load env name offset
    let rhs ← changeValue env how
    binary (.arith how.op) current rhs
    store env name offset

-- A call leaves a value behind that nobody wants.
def callStmt (env : EmitEnv) (target : Expr) : Emit Unit := do
  expr env target
  op .pop
  popped 1

def setProperty (env : EmitEnv) (o : Opcode) (id : Nat) (value : Expr) : Emit Unit := do
  let ty := (env.registry.properties[id]?.map (·.ty)).getD .dynamic
  checkTop env ty value.ty value.offset
  member o id

def assignStmt (env : EmitEnv) (target value : Expr) : Emit Unit :=
  match target with
  | .static m name _ binding => do
    expr env value
    match binding with
    | .property id => setProperty env .setStaticProperty id value
    | _ => fail (.compilesNonProperty name) m.offset
    popped 1
  | .member m owner name _ binding => do
    expr env owner
    expr env value
    match binding with
    | .property id => setProperty env .setProperty id value
    | .dynamic =>
      let index ← intern name
      write (·.emitU16 .setDynamicProperty index)
    | _ => fail (.compilesNonProperty name) m.offset
    popped 2
  | e => fail .compilesNonMember e.offset

mutual

-- Whether a body leaves the loop around it early. Nested loops keep their own to themselves.
def escapes : Stmt → Bool
  | .leave _ | .again _ => true
  | .cond _ _ body rest => anyEscapes body || branchesEscape rest
  | _ => false

def anyEscapes : List Stmt → Bool
  | [] => false
  | s :: rest => escapes s || anyEscapes rest

def branchesEscape : Branches → Bool
  | .done => false
  | .otherwise body => anyEscapes body
  | .elseIf _ body rest => anyEscapes body || branchesEscape rest

end

-- A count that is written down and fits an operand.
def literalCount? (count : Expr) : Option Int32 :=
  match count.literal? with
  | some (.long n) => if n.toInt < 2147483648 then some (Int32.ofNat n.toInt.toNat) else none
  | some (.double x) =>
    let n := Number.wholesBelow x
    if n < 2147483648 then some (Int32.ofNat n) else none
  | _ => none

-- Runs `body` inside a loop with the given labels.
def inLoop (labels : LoopLabels) (body : Emit Unit) : Emit Unit := do
  modify fun e => { e with loops := labels :: e.loops }
  body
  modify fun e => { e with loops := e.loops.tail }

-- A loop that counts a hidden variable up from zero while it is below another one.
def countedLoop (index limit : UInt8) (item body : Emit Unit) : Emit Unit := do
  long 0
  storeSlot index false
  let top ← newLabel
  let next ← newLabel
  let done ← newLabel
  mark top
  loadSlot index false
  loadSlot limit false
  op .lessNum
  popped 1
  jump .jumpIfFalse done
  item
  inLoop ⟨done, next⟩ body
  mark next
  loadSlot index false
  long 1
  op .addNum
  popped 1
  storeSlot index false
  jump .jump top
  mark done

-- A loop run by the machine's own counter. The length of the body is filled in behind it.
def machineLoop (env : EmitEnv) (count : Expr) (body : Emit Unit) (offset : Nat) : Emit Unit := do
  let lengthAt ← match literalCount? count with
    | some n =>
      let operand := (← position) + 1
      write (·.emitI32Pair .loop n 0)
      pure (operand + 4)
    | none =>
      expr env count
      checkTop env .double count.ty count.offset
      popped 1
      let operand := (← position) + 1
      write (·.emitI32 .loopNum 0)
      pure operand
  let start ← position
  body
  let length := (← position) - start
  if length ≥ 2147483648 then fail .largeLoop offset
  write (·.patchI32 lengthAt (Int32.ofNat length))

def countLoop (env : EmitEnv) (count : Expr) (body : Emit Unit) (offset : Nat) : Emit Unit := do
  let limit ← hiddenSlot "limit" offset
  let index ← hiddenSlot "index" offset
  expr env count
  checkTop env .double count.ty count.offset
  storeSlot limit false
  countedLoop index limit (pure ()) body

-- The item count of a `foreach` source that lies on top of the stack.
def itemCount (env : EmitEnv) (how : Iteration) (offset : Nat) : Emit Unit := do
  match how with
  | .members count _ => member .getProperty count
  | .dynamic =>
    let name ← intern "count"
    write (·.emitU16 .getDynamicProperty name)
    guardTop env .double offset
  | .unresolved => fail .unresolvedIteration offset

-- Reads the current item of a `foreach` into its variable.
def bindItem (env : EmitEnv) (item : String) (source index : UInt8) (how : Iteration)
    (offset : Nat) : Emit Unit := do
  loadSlot source true
  loadSlot index false
  match how with
  | .members _ getItem => member .invoke getItem
  | _ =>
    let name ← intern "getitem"
    write (·.emitU16Pair .invokeDynamic name 1)
  popped 1
  store env item offset

-- The source is let go as soon as the loop is over.
def eachLoop (env : EmitEnv) (item : String) (sourceExpr : Expr) (body : Emit Unit)
    (how : Iteration) (offset : Nat) : Emit Unit := do
  let source ← hiddenSlot "iter" offset
  let count ← hiddenSlot "count" offset
  let index ← hiddenSlot "index" offset
  expr env sourceExpr
  storeSlot source true
  loadSlot source true
  itemCount env how offset
  storeSlot count false
  countedLoop index count (bindItem env item source index how offset) body
  op .pushNull
  pushed 1
  storeSlot source true

-- A test at the top, the body, and what is done between two rounds.
def testedLoop (env : EmitEnv) (test : Expr) (body : LoopLabels → Emit Unit) (top next : Nat) :
    Emit Unit := do
  let done ← newLabel
  mark top
  expr env test
  jump .jumpIfFalse done
  body ⟨done, next⟩
  jump .jump top
  mark done

mutual

def stmt (env : EmitEnv) : Stmt → Emit Unit
  | .using _ _ | .input _ _ _ _ => return
  | .var v => varStmt env v
  | .cond _ test body rest => do
    let done ← newLabel
    let next ← newLabel
    expr env test
    jump .jumpIfFalse next
    stmts env body
    jump .jump done
    mark next
    branches env done rest
    mark done
  | .whileLoop _ test body => do
    let top ← newLabel
    testedLoop env test (fun labels => inLoop labels (stmts env body)) top top
  | .forLoop _ init test step body => do
    varStmt env init
    let top ← newLabel
    let next ← newLabel
    testedLoop env test (fun labels => do
      inLoop labels (stmts env body)
      mark next
      varStmt env step) top next
  | .eachLoop offset item source body how =>
    eachLoop env item source (stmts env body) how offset
  | .countLoop offset count body =>
    if env.level ≥ 1 && !anyEscapes body then machineLoop env count (stmts env body) offset
    else countLoop env count (stmts env body) offset
  | .leave offset => do
    match (← get).loops with
    | labels :: _ => jump .jump labels.leave
    | [] => fail .breakWithoutLoop offset
  | .again offset => do
    match (← get).loops with
    | labels :: _ => jump .jump labels.again
    | [] => fail .continueWithoutLoop offset
  | .ret _ value => do
    match value with
    | some v => expr env v
    | none =>
      op .pushNull
      pushed 1
    op .ret
    popped 1
  | .exit _ => op .exit
  | .func offset name _ _ => fail (.compilesFunction name) offset
  | .call _ target => callStmt env target
  | .assign _ target value => assignStmt env target value

def stmts (env : EmitEnv) : List Stmt → Emit Unit
  | [] => return
  | s :: rest => do
    stmt env s
    stmts env rest

-- The branches behind the first one; each leads to `done`.
def branches (env : EmitEnv) (done : Nat) : Branches → Emit Unit
  | .done => return
  | .otherwise body => stmts env body
  | .elseIf test body rest => do
    let next ← newLabel
    expr env test
    jump .jumpIfFalse next
    stmts env body
    jump .jump done
    mark next
    branches env done rest

end

-- Inputs take the first slots, in the order of their declaration.
def inputSlots : List InputVar → Emit Unit
  | [] => return
  | v :: rest => do
    let _ ← slot v.name 0
    inputSlots rest

def script (env : EmitEnv) (inputs : List InputVar) (s : Script) : Emit Unit := do
  inputSlots inputs
  stmts env s
  op .exit

end Emit

end HostScript
