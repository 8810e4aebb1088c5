import HostScript.Compile.Emit
import HostScript.Proofs.Code.Codec
import HostScript.Proofs.Script.Every
import HostScript.Proofs.Semantics.Calc

namespace HostScript

-- Whether a value is what a type says. Whole numbers are not told apart from others, nor objects by
-- their registered types; texts and objects may be missing.
def Value.conforms : Value → Ty → Bool
  | _, .dynamic => true
  | .null, .void | .null, .null | .null, .string | .null, .object _ => true
  | .bool _, .bool => true
  | .number _, .long | .number _, .double => true
  | .text _, .string => true
  | .object _, .object _ => true
  | _, _ => false

namespace Value

theorem conforms_dynamic (x : Value) : x.conforms .dynamic = true := by
  cases x <;> rfl

-- What passes a check while a script runs is what the type says.
theorem conforms_of_admits {r : Registry} {x : Value} {ty : Ty} (h : ty.admits (r.typeOf x)) :
    x.conforms ty := by
  have hnumber : ∀ y : Float, r.typeOf (.number y) = .long ∨ r.typeOf (.number y) = .double := by
    intro y
    simp only [Registry.typeOf]
    split
    · exact .inl rfl
    · exact .inr rfl
  have hobject : ∀ o : ObjectRef, r.typeOf (.object o) = .dynamic ∨
      ∃ id, r.typeOf (.object o) = .object id := by
    intro o
    simp only [Registry.typeOf]
    cases r.typeOfObject? o with
    | none => exact .inl rfl
    | some id => exact .inr ⟨id, rfl⟩
  cases x with
  | null => cases ty <;> simp_all [Ty.admits, Registry.typeOf, conforms, Ty.isNullable]
  | number y => rcases hnumber y with hy | hy <;> rw [hy] at h <;> cases ty <;>
      simp_all [Ty.admits, conforms]
  | bool b => cases ty <;> simp_all [Ty.admits, Registry.typeOf, conforms]
  | text s => cases ty <;> simp_all [Ty.admits, Registry.typeOf, conforms]
  | object o => rcases hobject o with ho | ⟨id, ho⟩ <;> rw [ho] at h <;> cases ty <;>
      simp_all [Ty.admits, conforms]

theorem isRef_of_conforms {x : Value} {ty : Ty} (h : x.conforms ty) (hty : ty.mayBeRef = false) :
    x.isRef = false := by
  cases x <;> cases ty <;> simp_all [conforms, Ty.mayBeRef, isRef]

end Value

-- Why the evaluation of a statement stops before its end. `mistyped` means that a value is not what
-- was recorded for it, `stray` that a text or an object is put where none is expected, and
-- `malformed` that a member is not the one that was looked up. Where a loop takes more rounds than
-- it is given, nothing is known.
inductive Stop where
  | fault (f : Fault)
  | mistyped (inLoop : Bool)
  | stray
  | malformed
  | leave
  | again
  | ret (v : Value)
  | exit
  | outOfFuel

-- What the meaning of a script depends on besides its text. The others say how it is carried out:
-- whether all values must be of their recorded types, whether an operator on a literal is worked out
-- beforehand, whether the checks of arguments reach no further than the 256th from the end, whether
-- the machine counts rounds itself, and how many rounds a loop is given.
structure Dialect where
  registry : Registry
  symbols : SymbolTable
  strict : Bool
  folds : Bool
  near : Bool
  counts : Bool
  rounds : Nat

-- The values of the variables, and everything outside the script.
structure Store where
  vars : String → Value
  outside : Outside

abbrev Eval := EStateM Stop Outside

abbrev Exec := EStateM Stop Store

namespace Eval

def ofCalc {α : Type} (x : Calc α) : Eval α := fun o =>
  match x o with
  | .ok a o => .ok a o
  | .error f o => .error (.fault f) o

-- Members are found by their number.
def member {α : Type} (members : Array α) (id : Nat) (fits : α → Bool) : Eval α :=
  match members[id]? with
  | some d => if id < 4294967296 && fits d then return d else throw .malformed
  | none => throw .malformed

end Eval

open Eval

namespace Dialect

variable (D : Dialect)

-- A value known only at run time is checked before it is used as `expected`.
def check (expected actual : Ty) (v : Value) : Calc Unit :=
  if Emit.needsGuard expected actual then
    Calc.require D.registry (TypeGuard.checked expected) v
  else pure ()

def reach (above : Nat) : Nat :=
  if D.near then min above 255 else above

-- The check of an argument. Values are given last one first; `above` counts the arguments behind
-- the current one.
def checkArg (values : List Value) (param : Ty) (arg : Expr) (above : Nat) : Eval Unit :=
  match values[D.reach above]? with
  | some v => ofCalc (D.check param arg.ty v)
  | none => throw .malformed

def checkArgs (values : List Value) : List Ty → List Expr → Nat → Eval Unit
  | param :: params, arg :: args, above => do
    D.checkArg values param arg above
    checkArgs values params args (above - 1)
  | _, _, _ => return

-- A value that has to be of the recorded type.
def typed (inLoop : Bool) (ty : Ty) (v : Value) : Eval Value :=
  if !D.strict || v.conforms ty then return v else throw (.mistyped inLoop)

def binary : BinaryOp → Value → Value → Calc Value
  | .arith op, a, b => Calc.arith op a b
  | .order op, a, b => Calc.order op a b
  | .eq, a, b => Calc.equal false a b
  | .ne, a, b => Calc.equal true a b
  | .and, _, _ | .or, _, _ => return .null

def binaryNum : BinaryOp → Value → Value → Calc Value
  | .arith op, a, b => Calc.onNumbers (fun x y => .number (op.apply x y)) a b
  | .order op, a, b => Calc.onNumbers (fun x y => .bool (op.apply x y)) a b
  | .eq, a, b => Calc.onNumbers (fun x y => .bool ((x == y) != false)) a b
  | .ne, a, b => Calc.onNumbers (fun x y => .bool ((x == y) != true)) a b
  | .and, _, _ | .or, _, _ => return .null

-- Operands that are recorded as numbers are not looked at any more, unless all values are.
def operate (op : BinaryOp) (numeric : Bool) (a b : Value) : Calc Value :=
  if !D.strict && numeric then binaryNum op a b else binary op a b

def unary : UnaryOp → Value → Calc Value
  | .neg => Calc.neg
  | .not => Calc.not

def unaryNum : UnaryOp → Value → Calc Value
  | .neg => Calc.negNum
  | .not => Calc.not

def operateOn (op : UnaryOp) (numeric : Bool) (a : Value) : Calc Value :=
  if !D.strict && numeric then unaryNum op a else unary op a

def folded? (o : UnaryOp) (operand : Expr) : Option Literal :=
  if D.folds then Emit.folded? o operand else none

variable (inLoop : Bool) (vars : String → Value)

mutual

-- The value of an expression, worked out from left to right. Every value is compared with the type
-- recorded for its expression.
def eval : Expr → Eval Value
  | .literal m value => D.typed inLoop m.ty (.ofLiteral value)
  | .name m x => D.typed inLoop m.ty (vars x)
  | .static m _ args binding =>
    match binding with
    | .const value => D.typed inLoop m.ty (.ofLiteral value)
    | .method id => do
      let values ← evalAll args
      let d ← member D.registry.methods id (·.params.length = args.length)
      D.checkArgs values.reverse d.params args (args.length - 1)
      D.typed inLoop m.ty (← ofCalc (Calc.callStatic D.registry d values))
    | .property id => do
      let d ← member D.registry.properties id fun _ => true
      let get ← ofCalc (Calc.getterOf d)
      D.typed inLoop m.ty (← ofCalc (Calc.readStatic D.registry d get))
    | .unresolved => throw .malformed
  | .member m target name args binding =>
    match binding with
    | .method id => do
      let object ← eval target
      let values ← evalAll args
      let d ← member D.registry.methods id (·.params.length = args.length)
      D.checkArgs values.reverse d.params args (args.length - 1)
      D.typed inLoop m.ty (← ofCalc (Calc.callMethod D.registry d object values))
    | .property id => do
      let object ← eval target
      let d ← member D.registry.properties id fun _ => true
      let get ← ofCalc (Calc.getterOf d)
      D.typed inLoop m.ty (← ofCalc (Calc.readProperty D.registry d get object))
    | .dynamic => do
      let object ← eval target
      let values ← evalAll args
      let found := if values.isEmpty then Calc.readNamed D.registry name object
        else Calc.callNamed D.registry name object values
      D.typed inLoop m.ty (← ofCalc (Calc.named D.registry name found))
    | .unresolved => throw .malformed
  | .new m _ args binding =>
    match binding with
    | some id => do
      let values ← evalAll args
      let d ← member D.registry.constructors id (·.params.length = args.length)
      D.checkArgs values.reverse d.params args (args.length - 1)
      D.typed inLoop m.ty (← ofCalc (Calc.construct d values))
    | none => throw .malformed
  | .binary m .and lhs rhs => do
    if ← ofCalc (Calc.asBool (← eval lhs)) then
      let b ← eval rhs
      ofCalc (D.check .bool rhs.ty b)
      D.typed inLoop m.ty b
    else D.typed inLoop m.ty (.bool false)
  | .binary m .or lhs rhs => do
    if ← ofCalc (Calc.asBool (← eval lhs)) then D.typed inLoop m.ty (.bool true)
    else
      let b ← eval rhs
      ofCalc (D.check .bool rhs.ty b)
      D.typed inLoop m.ty b
  | .binary m op lhs rhs => do
    let a ← eval lhs
    let b ← eval rhs
    D.typed inLoop m.ty (← ofCalc (D.operate op (lhs.ty.isNumeric && rhs.ty.isNumeric) a b))
  | .unary m op operand =>
    match D.folded? op operand with
    | some value => D.typed inLoop m.ty (.ofLiteral value)
    | none => do
      let a ← eval operand
      D.typed inLoop m.ty (← ofCalc (D.operateOn op operand.ty.isNumeric a))
  | .cast _ _ _ => throw .malformed

def evalAll : List Expr → Eval (List Value)
  | [] => return []
  | e :: rest => do
    let v ← eval e
    let vs ← evalAll rest
    return v :: vs

end

-- An operator that is not logical works out both operands first.
theorem eval_binary {m : Mark} {op : BinaryOp} {lhs rhs : Expr} (hand : op ≠ .and) (hor : op ≠ .or) :
    D.eval inLoop vars (.binary m op lhs rhs) = (do
      let a ← D.eval inLoop vars lhs
      let b ← D.eval inLoop vars rhs
      D.typed inLoop m.ty (← Eval.ofCalc
        (D.operate op (lhs.ty.isNumeric && rhs.ty.isNumeric) a b)) : Eval Value) := by
  cases op with
  | and => exact absurd rfl hand
  | or => exact absurd rfl hor
  | _ => simp only [eval]

end Dialect

namespace Exec

-- Works something out in the current variables.
def value {α : Type} (f : (String → Value) → Eval α) : Exec α := fun s =>
  match f s.vars s.outside with
  | .ok a o => .ok a ⟨s.vars, o⟩
  | .error e o => .error e ⟨s.vars, o⟩

def perform {α : Type} (x : Calc α) : Exec α :=
  value fun _ => ofCalc x

-- Whether a loop goes on after its body.
def goesOn (body : Exec Unit) : Exec Bool := fun s =>
  match body s with
  | .ok _ s | .error .again s => .ok true s
  | .error .leave s => .ok false s
  | .error e s => .error e s

-- Rounds as long as the last one said so.
def repeatWhile (round : Exec Bool) : Nat → Exec Unit
  | 0 => throw .outOfFuel
  | n + 1 => do
    if ← round then repeatWhile round n

-- Rounds numbered from `i` on, as long as the number is below the limit.
def countUp (limit : Float) (round : Float → Exec Bool) : Nat → Float → Exec Unit
  | 0, _ => throw .outOfFuel
  | n + 1, i => do
    if i < limit then
      if ← round i then countUp limit round n (i + Number.ofLong 1)

def times (body : Exec Unit) : Nat → Exec Unit
  | 0 => return
  | n + 1 => do
    body
    times body n

end Exec

open Exec

namespace Dialect

variable (D : Dialect)

-- No text or object is put into a variable that is taken to hold none.
def assign (name : String) (v : Value) : Exec Unit := fun s =>
  if D.symbols.mayHoldRef name || !v.isRef then
    .ok () { s with vars := fun x => if x = name then v else s.vars x }
  else .error .stray s

def change (inLoop : Bool) : Change → Exec Value
  | .compound _ value => Exec.value fun vars => D.eval inLoop vars value
  | .increment | .decrement => return .number (Number.ofLong 1)

def execVar (inLoop : Bool) : VarStmt → Exec Unit
  | .declare _ name value => do
    D.assign name (← Exec.value fun vars => D.eval inLoop vars value)
  | .update _ name how current result => do
    let a ← Exec.value fun vars => D.typed inLoop current (vars name)
    let b ← D.change inLoop how
    let v ← perform (D.operate (.arith how.op) (current.isNumeric && how.ty.isNumeric) a b)
    D.assign name (← Exec.value fun _ => D.typed inLoop result v)

def condition (inLoop : Bool) (test : Expr) : Exec Bool := do
  perform (Calc.asBool (← Exec.value fun vars => D.eval inLoop vars test))

def execAssign (inLoop : Bool) (target value : Expr) : Exec Unit :=
  match target with
  | .static _ _ _ (.property id) => do
    let v ← Exec.value fun vars => D.eval inLoop vars value
    let d ← Exec.value fun _ => member D.registry.properties id fun _ => true
    perform (D.check d.ty value.ty v)
    let set ← perform (Calc.setterOf d)
    perform (Calc.writeStatic set v)
  | .member _ owner name _ binding => do
    let object ← Exec.value fun vars => D.eval inLoop vars owner
    let v ← Exec.value fun vars => D.eval inLoop vars value
    match binding with
    | .property id =>
      let d ← Exec.value fun _ => member D.registry.properties id fun _ => true
      perform (D.check d.ty value.ty v)
      let set ← perform (Calc.setterOf d)
      perform (Calc.writeProperty d set object v)
    | .dynamic => perform (Calc.writeNamed D.registry name object v)
    | _ => throw .malformed
  | _ => throw .malformed

-- The number of items of a source.
def itemCount (how : Iteration) (source : Value) : Exec Value :=
  match how with
  | .members count _ => do
    let d ← Exec.value fun _ => member D.registry.properties count fun _ => true
    let get ← perform (Calc.getterOf d)
    perform (Calc.readProperty D.registry d get source)
  | .dynamic => do
    let v ← perform (Calc.named D.registry "count" (Calc.readNamed D.registry "count" source))
    perform (Calc.require D.registry .double v)
    return v
  | .unresolved => throw .malformed

def itemAt (how : Iteration) (source : Value) (i : Float) : Exec Value :=
  match how with
  | .members _ getItem => do
    let d ← Exec.value fun _ => member D.registry.methods getItem (·.params.length = 1)
    perform (Calc.callMethod D.registry d source [.number i])
  | .dynamic =>
    perform (Calc.named D.registry "getitem" (Calc.callNamed D.registry "getitem" source [.number i]))
  | .unresolved => throw .malformed

-- How often a loop runs that the machine counts.
def machineRounds (count : Expr) : Exec Nat :=
  match Emit.literalCount? count with
  | some n => return n.toInt.toNat
  | none => do
    let v ← Exec.value fun vars => D.eval true vars count
    perform (D.check .double count.ty v)
    return Number.wholesBelow (← perform (Calc.asCount v))

-- The number of rounds of a loop that counts a variable up.
def roundCount (count : Expr) : Exec Value := do
  let v ← Exec.value fun vars => D.eval true vars count
  perform (D.check .double count.ty v)
  return v

-- What a variable is counted up to has to be a number.
def limit : Value → Exec Float
  | .number x => return x
  | v => if v.isRef then throw .stray else throw (.fault .notNumbers)

mutual

-- What a statement does. `inLoop` tells whether it belongs to a loop.
def exec (inLoop : Bool) : Stmt → Exec Unit
  | .using _ _ | .input _ _ _ _ => return
  | .var v => D.execVar inLoop v
  | .cond _ test body rest => do
    if ← D.condition inLoop test then execAll inLoop body else execBranches inLoop rest
  | .whileLoop _ test body =>
    repeatWhile (do
      if ← D.condition true test then goesOn (execAll true body) else return false) D.rounds
  | .forLoop _ init test step body => do
    D.execVar true init
    repeatWhile (do
      if ← D.condition true test then
        if ← goesOn (execAll true body) then
          D.execVar true step
          return true
        else return false
      else return false) D.rounds
  | .eachLoop _ item source body how => do
    let object ← Exec.value fun vars => D.eval true vars source
    let top ← limit (← D.itemCount how object)
    countUp top (fun i => do
      D.assign item (← D.itemAt how object i)
      goesOn (execAll true body)) D.rounds (Number.ofLong 0)
  | .countLoop _ count body => do
    if D.counts && !Emit.anyEscapes body then times (execAll true body) (← D.machineRounds count)
    else
      let top ← limit (← D.roundCount count)
      countUp top (fun _ => goesOn (execAll true body)) D.rounds (Number.ofLong 0)
  | .leave _ => throw .leave
  | .again _ => throw .again
  | .ret _ none => throw (.ret .null)
  | .ret _ (some value) => do
    throw (.ret (← Exec.value fun vars => D.eval inLoop vars value))
  | .exit _ => throw .exit
  | .func _ _ _ _ => throw .malformed
  | .call _ target => do
    let _ ← Exec.value fun vars => D.eval inLoop vars target
  | .assign _ target value => D.execAssign inLoop target value

def execAll (inLoop : Bool) : List Stmt → Exec Unit
  | [] => return
  | s :: rest => do
    exec inLoop s
    execAll inLoop rest

def execBranches (inLoop : Bool) : Branches → Exec Unit
  | .done => return
  | .otherwise body => execAll inLoop body
  | .elseIf test body rest => do
    if ← D.condition inLoop test then execAll inLoop body else execBranches inLoop rest

end

theorem execAll_append (inLoop : Bool) (xs ys : List Stmt) :
    D.execAll inLoop (xs ++ ys) = (do
      D.execAll inLoop xs
      D.execAll inLoop ys) := by
  induction xs with
  | nil => exact (pure_bind () fun _ => D.execAll inLoop ys).symm
  | cons x rest ih =>
      simp only [List.cons_append, execAll, ih, bind_assoc]

end Dialect

end HostScript
