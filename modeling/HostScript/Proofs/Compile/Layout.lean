import HostScript.Proofs.Compile.Growth
import HostScript.Proofs.Script.Every

namespace HostScript

-- A script's code together with what it was made from: the registry, the flags of the variables,
-- the optimization level and the names of the variables' places.
structure Layout where
  script : CompiledScript
  registry : Registry
  symbols : SymbolTable
  level : Nat
  slots : List String

namespace Layout

variable (L : Layout)

-- The instruction at `p`, with the next one at `q`.
def At (p : Nat) (i : Instr) (q : Nat) : Prop :=
  L.script.fetch p = .ok (i, q)

def Slot (name : String) (n : UInt8) : Prop :=
  L.slots[n.toNat]? = some name

def Text (index : UInt16) (s : String) : Prop :=
  L.script.strings[index.toNat]? = some s

-- Jumps name a place in the code or its end.
def Goes (t : Int32) (target : Nat) : Prop :=
  t.toInt = target ∧ target ≤ L.script.code.size

def Jump (p q target : Nat) : Prop :=
  ∃ t, L.At p (.jump t) q ∧ L.Goes t target

def JumpIf (on : Bool) (p q target : Nat) : Prop :=
  ∃ t, L.At p (.jumpIf on t) q ∧ L.Goes t target

def loadInstr (holdsRef : Bool) (n : UInt8) : Instr :=
  if holdsRef then .loadLoc n else .loadLocNoRef n

def storeInstr (holdsRef : Bool) (n : UInt8) : Instr :=
  if holdsRef then .setLoc n else .setLocNoRef n

def Load (name : String) (p q : Nat) : Prop :=
  ∃ n, L.Slot name n ∧ L.At p (loadInstr (L.symbols.mayHoldRef name) n) q

def Store (name : String) (p q : Nat) : Prop :=
  ∃ n, L.Slot name n ∧ L.At p (storeInstr (L.symbols.mayHoldRef name) n) q

-- Whether the machine counts the rounds of a loop with the given body itself.
def counts (body : List Stmt) : Bool :=
  L.level ≥ 1 && !Emit.anyEscapes body

def binaryInstr : BinaryOp → Bool → Instr
  | .arith op, true => .arithNum op
  | .arith op, false => .arith op
  | .order op, true => .orderNum op
  | .order op, false => .order op
  | .eq, true => .equalsNum false
  | .eq, false => .equals false
  | .ne, true => .equalsNum true
  | .ne, false => .equals true
  | .and, _ | .or, _ => .nop

def unaryInstr : UnaryOp → Bool → Instr
  | .neg, true => .negNum
  | .neg, false => .neg
  | .not, _ => .not

end Layout

open Layout

-- The code of a literal.
inductive LiteralCode (L : Layout) : Literal → Nat → Nat → Prop
  | null : L.At p .pushNull q → LiteralCode L .null p q
  | bool : L.At p (.pushBool b) q → LiteralCode L (.bool b) p q
  | long : L.At p (.pushLong n) q → LiteralCode L (.long n) p q
  | double : L.At p (.pushDouble x) q → LiteralCode L (.double x) p q
  | string : L.Text index s → L.At p (.pushString index) q → LiteralCode L (.string s) p q

-- A check of the value on top, if one is needed.
inductive CheckCode (L : Layout) (expected actual : Ty) : Nat → Nat → Prop
  | needed : Emit.needsGuard expected actual = true →
      L.At p (.checkType (TypeGuard.checked expected)) q → CheckCode L expected actual p q
  | skipped : Emit.needsGuard expected actual = false → CheckCode L expected actual p p

-- The checks of arguments, with the number of arguments above the first one.
inductive GuardsCode (L : Layout) : List Ty → List Expr → Nat → Nat → Nat → Prop
  | params : GuardsCode L [] args above p p
  | args : GuardsCode L params [] above p p
  | needed : Emit.needsGuard param arg.ty = true →
      L.At p (.peekCheckType (TypeGuard.checked param) (UInt8.ofNat (min above 255))) q →
      GuardsCode L params args (above - 1) q r →
      GuardsCode L (param :: params) (arg :: args) above p r
  | skipped : Emit.needsGuard param arg.ty = false → GuardsCode L params args (above - 1) p q →
      GuardsCode L (param :: params) (arg :: args) above p q

mutual

-- The code of an expression, from its start to its end. It leaves one value on the stack.
inductive ExprCode (L : Layout) : Expr → Nat → Nat → Prop
  | literal : LiteralCode L value p q → ExprCode L (.literal m value) p q
  | name : L.Load name p q → ExprCode L (.name m name) p q
  | const : LiteralCode L value p q → ExprCode L (.static m name args (.const value)) p q
  | staticMethod {id : Nat} : ExprsCode L args p q₁ →
      GuardsCode L ((L.registry.methods[id]?.map (·.params)).getD []) args (args.length - 1) q₁ q₂ →
      L.At q₂ (.invokeStatic (Int32.ofNat id)) q → ExprCode L (.static m name args (.method id)) p q
  | staticProperty {id : Nat} : L.At p (.getStaticProperty (Int32.ofNat id)) q →
      ExprCode L (.static m name args (.property id)) p q
  | method {id : Nat} : ExprCode L target p q₀ → ExprsCode L args q₀ q₁ →
      GuardsCode L ((L.registry.methods[id]?.map (·.params)).getD []) args (args.length - 1) q₁ q₂ →
      L.At q₂ (.invoke (Int32.ofNat id)) q →
      ExprCode L (.member m target name args (.method id)) p q
  | property {id : Nat} : ExprCode L target p q₀ → L.At q₀ (.getProperty (Int32.ofNat id)) q →
      ExprCode L (.member m target name args (.property id)) p q
  | read : ExprCode L target p q₀ → L.Text index name → L.At q₀ (.getDynamicProperty index) q →
      ExprCode L (.member m target name [] .dynamic) p q
  | call : args ≠ [] → args.length < 65536 → ExprCode L target p q₀ → ExprsCode L args q₀ q₁ →
      L.Text index name → L.At q₁ (.invokeDynamic index (UInt16.ofNat args.length)) q →
      ExprCode L (.member m target name args .dynamic) p q
  | new {id : Nat} : ExprsCode L args p q₁ →
      GuardsCode L ((L.registry.constructors[id]?.map (·.params)).getD []) args (args.length - 1)
        q₁ q₂ → L.At q₂ (.new (Int32.ofNat id)) q → ExprCode L (.new m typeName args (some id)) p q
  | and : ExprCode L lhs p q₁ → L.JumpIf false q₁ q₂ q₅ → ExprCode L rhs q₂ q₃ →
      CheckCode L .bool rhs.ty q₃ q₄ → L.Jump q₄ q₅ q → L.At q₅ (.pushBool false) q →
      ExprCode L (.binary m .and lhs rhs) p q
  | or : ExprCode L lhs p q₁ → L.JumpIf true q₁ q₂ q₅ → ExprCode L rhs q₂ q₃ →
      CheckCode L .bool rhs.ty q₃ q₄ → L.Jump q₄ q₅ q → L.At q₅ (.pushBool true) q →
      ExprCode L (.binary m .or lhs rhs) p q
  | binary : op ≠ .and → op ≠ .or → ExprCode L lhs p q₁ → ExprCode L rhs q₁ q₂ →
      L.At q₂ (binaryInstr op (lhs.ty.isNumeric && rhs.ty.isNumeric)) q →
      ExprCode L (.binary m op lhs rhs) p q
  | folded : Emit.folded? op operand = some value → LiteralCode L value p q →
      ExprCode L (.unary m op operand) p q
  | unary : Emit.folded? op operand = none → ExprCode L operand p q₁ →
      L.At q₁ (unaryInstr op operand.ty.isNumeric) q → ExprCode L (.unary m op operand) p q

inductive ExprsCode (L : Layout) : List Expr → Nat → Nat → Prop
  | nil : ExprsCode L [] p p
  | cons : ExprCode L e p q → ExprsCode L rest q r → ExprsCode L (e :: rest) p r

end

-- The operand a change brings along.
inductive ChangeCode (L : Layout) : Change → Nat → Nat → Prop
  | compound : ExprCode L value p q → ChangeCode L (.compound op value) p q
  | increment : L.At p (.pushLong 1) q → ChangeCode L .increment p q
  | decrement : L.At p (.pushLong 1) q → ChangeCode L .decrement p q

inductive VarCode (L : Layout) : VarStmt → Nat → Nat → Prop
  | declare : ExprCode L value p q₁ → L.Store name q₁ q → VarCode L (.declare offset name value) p q
  | update : L.Load name p q₁ → ChangeCode L how q₁ q₂ →
      L.At q₂ (binaryInstr (.arith how.op) (current.isNumeric && how.ty.isNumeric)) q₃ →
      L.Store name q₃ q → VarCode L (.update offset name how current result) p q

-- Reading the number of items of a source on top of the stack.
inductive CountCode (L : Layout) : Iteration → Nat → Nat → Prop
  | members : L.At p (.getProperty (Int32.ofNat count)) q → CountCode L (.members count getItem) p q
  | dynamic : L.Text index "count" → L.At p (.getDynamicProperty index) q₁ →
      L.At q₁ (.checkType .double) q → CountCode L .dynamic p q

-- Reading the current item into its variable.
inductive ItemCode (L : Layout) (item : String) (iter index : UInt8) : Iteration → Nat → Nat → Prop
  | members : L.At p (.loadLoc iter) q₁ → L.At q₁ (.loadLocNoRef index) q₂ →
      L.At q₂ (.invoke (Int32.ofNat getItem)) q₃ → L.Store item q₃ q →
      ItemCode L item iter index (.members count getItem) p q
  | dynamic : L.At p (.loadLoc iter) q₁ → L.At q₁ (.loadLocNoRef index) q₂ → L.Text name "getitem" →
      L.At q₂ (.invokeDynamic name 1) q₃ → L.Store item q₃ q →
      ItemCode L item iter index .dynamic p q

-- What stands before the body of a loop that the machine counts, with the length of the body.
inductive HeadCode (L : Layout) (count : Expr) (length : Int32) : Nat → Nat → Prop
  | literal : Emit.literalCount? count = some n →
      L.At p (.loop n length) q → HeadCode L count length p q
  | computed : Emit.literalCount? count = none → ExprCode L count p q₁ →
      CheckCode L .double count.ty q₁ q₂ → L.At q₂ (.loopNum length) q → HeadCode L count length p q

mutual

-- The code of a statement inside a loop whose `break` and `continue` lead to `exits`. The hidden
-- variables of the loops in it have numbers above `k` and up to `k'`.
inductive StmtCode (L : Layout) : Option (Nat × Nat) → Nat → Stmt → Nat → Nat → Nat → Prop
  | «using» : StmtCode L exits k (.using offset ns) p p k
  | input : StmtCode L exits k (.input offset name typeName declared) p p k
  | var : VarCode L v p q → StmtCode L exits k (.var v) p q k
  | cond : ExprCode L test p q₁ → L.JumpIf false q₁ q₂ q₄ → StmtsCode L exits k body q₂ q₃ k₁ →
      L.Jump q₃ q₄ q → BranchesCode L exits k₁ q rest q₄ q k' →
      StmtCode L exits k (.cond offset test body rest) p q k'
  | whileLoop :
      ExprCode L test p q₁ → L.JumpIf false q₁ q₂ q → StmtsCode L (some (q, p)) k body q₂ q₃ k' →
      L.Jump q₃ q p → StmtCode L exits k (.whileLoop offset test body) p q k'
  | forLoop : VarCode L init p p₁ → ExprCode L test p₁ q₁ → L.JumpIf false q₁ q₂ q →
      StmtsCode L (some (q, q₃)) k body q₂ q₃ k' → VarCode L step q₃ q₄ → L.Jump q₄ q p₁ →
      StmtCode L exits k (.forLoop offset init test step body) p q k'
  | eachLoop : L.Slot (hiddenName "iter" (k + 1)) iter → L.Slot (hiddenName "count" (k + 2)) count →
      L.Slot (hiddenName "index" (k + 3)) index → ExprCode L source p q₁ →
      L.At q₁ (.setLoc iter) q₂ → L.At q₂ (.loadLoc iter) q₃ → CountCode L how q₃ q₄ →
      L.At q₄ (.setLocNoRef count) q₅ →
      CountedCode L index count (ItemCode L item iter index how) (k + 3) body q₅ q₆ k' →
      L.At q₆ .pushNull q₇ → L.At q₇ (.setLoc iter) q →
      StmtCode L exits k (.eachLoop offset item source body how) p q k'
  | countLoop : L.counts body = false →
      L.Slot (hiddenName "limit" (k + 1)) limit → L.Slot (hiddenName "index" (k + 2)) index →
      ExprCode L count p q₁ → CheckCode L .double count.ty q₁ q₂ → L.At q₂ (.setLocNoRef limit) q₃ →
      CountedCode L index limit Eq (k + 2) body q₃ q k' →
      StmtCode L exits k (.countLoop offset count body) p q k'
  | machineLoop : L.counts body = true → HeadCode L count length p start →
      0 ≤ length.toInt → start + length.toInt.toNat = q → q ≤ L.script.code.size →
      StmtsCode L exits k body start q k' → StmtCode L exits k (.countLoop offset count body) p q k'
  | leave : L.Jump p q leaving → StmtCode L (some (leaving, again)) k (.leave offset) p q k
  | again : L.Jump p q again → StmtCode L (some (leaving, again)) k (.again offset) p q k
  | ret :
      ExprCode L value p q₁ → L.At q₁ .ret q → StmtCode L exits k (.ret offset (some value)) p q k
  | retNull : L.At p .pushNull q₁ → L.At q₁ .ret q → StmtCode L exits k (.ret offset none) p q k
  | exit : L.At p .exit q → StmtCode L exits k (.exit offset) p q k
  | call : ExprCode L target p q₁ → L.At q₁ .pop q → StmtCode L exits k (.call offset target) p q k
  | assignStatic {id : Nat} : ExprCode L value p q₁ →
      CheckCode L ((L.registry.properties[id]?.map (·.ty)).getD .dynamic) value.ty q₁ q₂ →
      L.At q₂ (.setStaticProperty (Int32.ofNat id)) q →
      StmtCode L exits k (.assign offset (.static m name args (.property id)) value) p q k
  | assignProperty {id : Nat} : ExprCode L owner p q₀ → ExprCode L value q₀ q₁ →
      CheckCode L ((L.registry.properties[id]?.map (·.ty)).getD .dynamic) value.ty q₁ q₂ →
      L.At q₂ (.setProperty (Int32.ofNat id)) q →
      StmtCode L exits k (.assign offset (.member m owner name args (.property id)) value) p q k
  | assignDynamic : ExprCode L owner p q₀ → ExprCode L value q₀ q₁ → L.Text index name →
      L.At q₁ (.setDynamicProperty index) q →
      StmtCode L exits k (.assign offset (.member m owner name args .dynamic) value) p q k

inductive StmtsCode (L : Layout) : Option (Nat × Nat) → Nat → List Stmt → Nat → Nat → Nat → Prop
  | nil : StmtsCode L exits k [] p p k
  | cons : StmtCode L exits k s p q k₁ → StmtsCode L exits k₁ rest q r k' →
      StmtsCode L exits k (s :: rest) p r k'

-- The branches behind the first one of an `if` that ends at `done`.
inductive BranchesCode (L : Layout) :
    Option (Nat × Nat) → Nat → Nat → Branches → Nat → Nat → Nat → Prop
  | done : BranchesCode L exits k done .done p p k
  | otherwise :
      StmtsCode L exits k body p q k' → BranchesCode L exits k done (.otherwise body) p q k'
  | elseIf : ExprCode L test p q₁ → L.JumpIf false q₁ q₂ q₄ → StmtsCode L exits k body q₂ q₃ k₁ →
      L.Jump q₃ q₄ done → BranchesCode L exits k₁ done rest q₄ q k' →
      BranchesCode L exits k done (.elseIf test body rest) p q k'

-- A loop that counts one hidden variable up to another one.
inductive CountedCode (L : Layout) :
    UInt8 → UInt8 → (Nat → Nat → Prop) → Nat → List Stmt → Nat → Nat → Nat → Prop
  | mk : L.At p (.pushLong 0) q₁ → L.At q₁ (.setLocNoRef index) top →
      L.At top (.loadLocNoRef index) t₁ → L.At t₁ (.loadLocNoRef limit) t₂ →
      L.At t₂ (.orderNum .lt) t₃ → L.JumpIf false t₃ t₄ q → item t₄ t₅ →
      StmtsCode L (some (q, next)) k body t₅ next k' → L.At next (.loadLocNoRef index) n₁ →
      L.At n₁ (.pushLong 1) n₂ → L.At n₂ (.arithNum .add) n₃ → L.At n₃ (.setLocNoRef index) n₄ →
      L.Jump n₄ q top → CountedCode L index limit item k body p q k'

end

end HostScript
