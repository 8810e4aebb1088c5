import HostScript.Proofs.Compile.Positions

namespace HostScript

-- How many bytes an instruction takes.
def Instr.width : Instr → Nat
  | .pushLong _ | .pushDouble _ | .loop _ _ => 9
  | .jump _ | .jumpIf _ _ | .invoke _ | .invokeStatic _ | .invokeDynamic _ _ | .getProperty _
  | .setProperty _ | .getStaticProperty _ | .setStaticProperty _ | .new _ | .checkType _
  | .peekCheckType _ _ | .loopNum _ => 5
  | .pushString _ | .getDynamicProperty _ | .setDynamicProperty _ => 3
  | .loadLoc _ | .loadLocNoRef _ | .setLoc _ | .setLocNoRef _ => 2
  | _ => 1

def Literal.width : Literal → Nat
  | .null | .bool _ => 1
  | .long _ | .double _ => 9
  | .string _ => 3

-- The checks of a value, and of arguments against their parameters.
def checkWidth (expected actual : Ty) : Nat :=
  if Emit.needsGuard expected actual then 5 else 0

def guardsWidth : List Ty → List Expr → Nat
  | param :: params, arg :: args => checkWidth param arg.ty + guardsWidth params args
  | _, _ => 0

namespace Expr

mutual

-- How many bytes the code of an expression takes.
def width (r : Registry) : Expr → Nat
  | .name _ _ => 2
  | .literal _ value => value.width
  | .static _ _ args binding =>
    match binding with
    | .const value => value.width
    | .method id =>
      widthAll r args + guardsWidth ((r.methods[id]?.map (·.params)).getD []) args + 5
    | .property _ => 5
    | .unresolved => 0
  | .member _ target _ args binding =>
    match binding with
    | .method id =>
      target.width r + widthAll r args +
        guardsWidth ((r.methods[id]?.map (·.params)).getD []) args + 5
    | .property _ => target.width r + 5
    | .dynamic => target.width r + widthAll r args + if args.isEmpty then 3 else 5
    | .unresolved => 0
  | .new _ _ args binding =>
    match binding with
    | some id =>
      widthAll r args + guardsWidth ((r.constructors[id]?.map (·.params)).getD []) args + 5
    | none => 0
  | .binary _ op lhs rhs =>
    lhs.width r + rhs.width r +
      if op = .and ∨ op = .or then checkWidth .bool rhs.ty + 11 else 1
  | .unary _ op operand =>
    match Emit.folded? op operand with
    | some value => value.width
    | none => operand.width r + 1
  | .cast _ _ _ => 0

def widthAll (r : Registry) : List Expr → Nat
  | [] => 0
  | e :: rest => e.width r + widthAll r rest

end

end Expr

def Change.width (r : Registry) : Change → Nat
  | .compound _ value => value.width r
  | .increment | .decrement => 9

def VarStmt.width (r : Registry) : VarStmt → Nat
  | .declare _ _ value => value.width r + 2
  | .update _ _ how _ _ => how.width r + 5

-- Reading the number of items, and one of them.
def Iteration.countWidth : Iteration → Nat
  | .members _ _ => 5
  | .dynamic => 8
  | .unresolved => 0

def Iteration.itemWidth : Iteration → Nat
  | .members _ _ | .dynamic => 11
  | .unresolved => 0

-- What stands before the body of a loop with a hidden counter, and behind it.
def counterHead : Nat :=
  21

def counterTail : Nat :=
  19

def headWidth (r : Registry) (count : Expr) : Nat :=
  match Emit.literalCount? count with
  | some _ => 9
  | none => count.width r + checkWidth .double count.ty + 5

namespace Stmt

-- Where the body of a counted loop starts, seen from the loop.
def countStart (r : Registry) (level : Nat) (count : Expr) (body : List Stmt) : Nat :=
  if level ≥ 1 && !Emit.anyEscapes body then headWidth r count
  else count.width r + checkWidth .double count.ty + 2 + counterHead

def eachStart (r : Registry) (source : Expr) (how : Iteration) : Nat :=
  source.width r + 4 + how.countWidth + 2 + counterHead + how.itemWidth

def assignWidth (r : Registry) (target value : Expr) : Nat :=
  match target with
  | .static _ _ _ (.property id) =>
    value.width r + checkWidth ((r.properties[id]?.map (·.ty)).getD .dynamic) value.ty + 5
  | .member _ owner _ _ (.property id) =>
    owner.width r + value.width r +
      checkWidth ((r.properties[id]?.map (·.ty)).getD .dynamic) value.ty + 5
  | .member _ owner _ _ .dynamic => owner.width r + value.width r + 3
  | _ => 0

mutual

-- How many bytes the code of a statement takes.
def width (r : Registry) (level : Nat) : Stmt → Nat
  | .using _ _ | .input _ _ _ _ | .func _ _ _ _ => 0
  | .var v => v.width r
  | .cond _ test body rest =>
    test.width r + 5 + widthAll r level body + 5 + widthBranches r level rest
  | .whileLoop _ test body => test.width r + 5 + widthAll r level body + 5
  | .forLoop _ init test step body =>
    init.width r + test.width r + 5 + widthAll r level body + step.width r + 5
  | .eachLoop _ _ source body how =>
    eachStart r source how + widthAll r level body + counterTail + 3
  | .countLoop _ count body =>
    countStart r level count body + widthAll r level body +
      if level ≥ 1 && !Emit.anyEscapes body then 0 else counterTail
  | .leave _ | .again _ => 5
  | .ret _ value => (value.map (·.width r)).getD 1 + 1
  | .exit _ => 1
  | .call _ target => target.width r + 1
  | .assign _ target value => assignWidth r target value

def widthAll (r : Registry) (level : Nat) : List Stmt → Nat
  | [] => 0
  | s :: rest => s.width r level + widthAll r level rest

def widthBranches (r : Registry) (level : Nat) : Branches → Nat
  | .done => 0
  | .otherwise body => widthAll r level body
  | .elseIf test body rest =>
    test.width r + 5 + widthAll r level body + 5 + widthBranches r level rest

end

mutual

-- The places in the code, which starts at `p`, where one of its statements starts or ends.
def bounds (r : Registry) (level p : Nat) : Stmt → List Nat
  | .cond _ test body rest =>
    let start := p + test.width r + 5
    p :: boundsAll r level start body ++
      boundsBranches r level (start + widthAll r level body + 5) rest
  | .whileLoop _ test body => p :: boundsAll r level (p + test.width r + 5) body
  | .forLoop _ init test step body =>
    let top := p + init.width r
    let start := top + test.width r + 5
    p :: top :: boundsAll r level start body ++ [start + widthAll r level body + step.width r]
  | .eachLoop _ _ source body how => p :: boundsAll r level (p + eachStart r source how) body
  | .countLoop _ count body => p :: boundsAll r level (p + countStart r level count body) body
  | _ => [p]

def boundsAll (r : Registry) (level p : Nat) : List Stmt → List Nat
  | [] => [p]
  | s :: rest => bounds r level p s ++ boundsAll r level (p + s.width r level) rest

def boundsBranches (r : Registry) (level p : Nat) : Branches → List Nat
  | .done => []
  | .otherwise body => boundsAll r level p body
  | .elseIf test body rest =>
    let start := p + test.width r + 5
    boundsAll r level start body ++ boundsBranches r level (start + widthAll r level body + 5) rest

end

mutual

theorem bounds_within {r : Registry} {level p x : Nat} (s : Stmt) (h : x ∈ s.bounds r level p) :
    p ≤ x ∧ x ≤ p + s.width r level := by
  cases s with
  | cond offset test body rest =>
      simp only [bounds, List.mem_cons, List.mem_append, width] at h ⊢
      rcases h with (rfl | h) | h
      · omega
      · have := boundsAll_within body h
        omega
      · have := boundsBranches_within rest h
        omega
  | whileLoop offset test body =>
      simp only [bounds, List.mem_cons, width] at h ⊢
      rcases h with rfl | h
      · omega
      · have := boundsAll_within body h
        omega
  | forLoop offset init test step body =>
      simp only [bounds, List.mem_cons, List.mem_append, List.not_mem_nil, or_false, width] at h ⊢
      rcases h with (rfl | rfl | h) | rfl
      · omega
      · omega
      · have := boundsAll_within body h
        omega
      · omega
  | eachLoop offset item source body how =>
      simp only [bounds, List.mem_cons, width] at h ⊢
      rcases h with rfl | h
      · omega
      · have := boundsAll_within body h
        omega
  | countLoop offset count body =>
      simp only [bounds, List.mem_cons, width] at h ⊢
      rcases h with rfl | h
      · omega
      · have := boundsAll_within body h
        omega
  | _ =>
      simp only [bounds, List.mem_singleton] at h
      omega

theorem boundsAll_within {r : Registry} {level p x : Nat} (ss : List Stmt)
    (h : x ∈ boundsAll r level p ss) : p ≤ x ∧ x ≤ p + widthAll r level ss := by
  cases ss with
  | nil =>
      simp only [boundsAll, List.mem_singleton] at h
      omega
  | cons s rest =>
      simp only [boundsAll, List.mem_append, widthAll] at h ⊢
      rcases h with h | h
      · have := bounds_within s h
        omega
      · have := boundsAll_within rest h
        omega

theorem boundsBranches_within {r : Registry} {level p x : Nat} (b : Branches)
    (h : x ∈ boundsBranches r level p b) : p ≤ x ∧ x ≤ p + widthBranches r level b := by
  cases b with
  | done => simp [boundsBranches] at h
  | otherwise body => exact boundsAll_within body h
  | elseIf test body rest =>
      simp only [boundsBranches, List.mem_append, widthBranches] at h ⊢
      rcases h with h | h
      · have := boundsAll_within body h
        omega
      · have := boundsBranches_within rest h
        omega

end

end Stmt

variable {L : Layout} {p q : Nat}

theorem width_of_read? {code : Bytes} {op : Opcode} {pos : Nat} {i : Instr}
    (h : Instr.read? code op pos = some i) : i.width = op.operandSize + 1 := by
  cases op with
  | pushLong | pushDouble | pushString | loadLoc | loadLocNoRef | setLoc | setLocNoRef | jump
  | jumpIfFalse | jumpIfTrue | invoke | invokeStatic | getProperty | setProperty
  | getStaticProperty | setStaticProperty | getDynamicProperty | setDynamicProperty | new
  | loopNum =>
      obtain ⟨_, -, rfl⟩ := Option.map_eq_some_iff.mp h
      rfl
  | invokeDynamic | loop | checkType | peekCheckType =>
      obtain ⟨_, -, h⟩ := Option.bind_eq_some_iff.mp h
      obtain ⟨_, -, h⟩ := Option.bind_eq_some_iff.mp h
      cases h
      rfl
  | _ =>
      cases h
      rfl

theorem Layout.At.width {i : Instr} (h : L.At p i q) : q = p + i.width := by
  unfold Layout.At CompiledScript.fetch at h
  split at h
  · cases h
  · split at h
    · cases h
    · split at h
      · rename_i hread
        cases h
        rw [width_of_read? hread]
        omega
      · cases h

theorem Layout.Load.width {name : String} (h : L.Load name p q) : q = p + 2 := by
  obtain ⟨n, -, hat⟩ := h
  have hwidth : (loadInstr (L.symbols.mayHoldRef name) n).width = 2 := by
    unfold loadInstr
    split <;> rfl
  rw [hat.width, hwidth]

theorem Layout.Store.width {name : String} (h : L.Store name p q) : q = p + 2 := by
  obtain ⟨n, -, hat⟩ := h
  have hwidth : (storeInstr (L.symbols.mayHoldRef name) n).width = 2 := by
    unfold storeInstr
    split <;> rfl
  rw [hat.width, hwidth]

theorem Layout.Jump.width {t : Nat} (h : L.Jump p q t) : q = p + 5 := by
  obtain ⟨_, hat, -⟩ := h
  exact hat.width

theorem Layout.JumpIf.width {on : Bool} {t : Nat} (h : L.JumpIf on p q t) : q = p + 5 := by
  obtain ⟨_, hat, -⟩ := h
  exact hat.width

theorem width_binaryInstr (op : BinaryOp) (numeric : Bool) :
    (Layout.binaryInstr op numeric).width = 1 := by
  cases op <;> cases numeric <;> rfl

theorem width_unaryInstr (op : UnaryOp) (numeric : Bool) :
    (Layout.unaryInstr op numeric).width = 1 := by
  cases op <;> cases numeric <;> rfl

theorem LiteralCode.width {value : Literal} (h : LiteralCode L value p q) :
    q = p + value.width := by
  cases h with
  | null hat => exact hat.width
  | bool hat => exact hat.width
  | long hat => exact hat.width
  | double hat => exact hat.width
  | string _ hat => exact hat.width

theorem CheckCode.width {expected actual : Ty} (h : CheckCode L expected actual p q) :
    q = p + checkWidth expected actual := by
  cases h with
  | needed hneeds hat =>
      rw [checkWidth, if_pos hneeds]
      exact hat.width
  | skipped hneeds => simp [checkWidth, hneeds]

theorem GuardsCode.width {params : List Ty} {args : List Expr} {above : Nat}
    (h : GuardsCode L params args above p q) : q = p + guardsWidth params args := by
  induction h with
  | params => simp [guardsWidth]
  | @args params =>
      cases params <;> simp [guardsWidth]
  | needed hneeds hat _ ih =>
      have hfirst : _ = _ + 5 := hat.width
      rw [ih, hfirst, guardsWidth, checkWidth, if_pos hneeds]
      omega
  | skipped hneeds _ ih =>
      rw [ih, guardsWidth, checkWidth, hneeds]
      simp

mutual

theorem ExprCode.width {e : Expr} {p q : Nat} (h : ExprCode L e p q) :
    q = p + e.width L.registry := by
  cases e with
  | literal m value =>
      cases h with
      | literal hlit => exact hlit.width
  | name m x =>
      cases h with
      | name hload => exact hload.width
  | static m name args binding =>
      cases h with
      | const hlit => exact hlit.width
      | staticMethod hargs hguards hat =>
          have h₁ := ExprsCode.width hargs
          have h₂ := hguards.width
          have h₃ : _ = _ + 5 := hat.width
          simp only [Expr.width]
          omega
      | staticProperty hat => exact hat.width
  | member m target name args binding =>
      cases h with
      | method htarget hargs hguards hat =>
          have h₀ := ExprCode.width htarget
          have h₁ := ExprsCode.width hargs
          have h₂ := hguards.width
          have h₃ : _ = _ + 5 := hat.width
          simp only [Expr.width]
          omega
      | property htarget hat =>
          have h₀ := ExprCode.width htarget
          have h₁ : _ = _ + 5 := hat.width
          simp only [Expr.width]
          omega
      | read htarget _ hat =>
          have h₀ := ExprCode.width htarget
          have h₁ : _ = _ + 3 := hat.width
          simp only [Expr.width, Expr.widthAll, List.isEmpty_nil, if_true]
          omega
      | call hne _ htarget hargs _ hat =>
          have h₀ := ExprCode.width htarget
          have h₁ := ExprsCode.width hargs
          have h₂ : _ = _ + 5 := hat.width
          have hne : args.isEmpty = false := by simpa using hne
          simp only [Expr.width, hne, Bool.false_eq_true, if_false]
          omega
  | new m typeName args binding =>
      cases h with
      | new hargs hguards hat =>
          have h₁ := ExprsCode.width hargs
          have h₂ := hguards.width
          have h₃ : _ = _ + 5 := hat.width
          simp only [Expr.width]
          omega
  | binary m op lhs rhs =>
      cases h with
      | and h₁ h₂ h₃ h₄ h₅ h₆ =>
          have h₁ := ExprCode.width h₁
          have h₂ := h₂.width
          have h₃ := ExprCode.width h₃
          have h₄ := h₄.width
          have h₅ := h₅.width
          have h₆ : _ = _ + 1 := h₆.width
          simp only [Expr.width, true_or, if_true]
          omega
      | or h₁ h₂ h₃ h₄ h₅ h₆ =>
          have h₁ := ExprCode.width h₁
          have h₂ := h₂.width
          have h₃ := ExprCode.width h₃
          have h₄ := h₄.width
          have h₅ := h₅.width
          have h₆ : _ = _ + 1 := h₆.width
          simp only [Expr.width, or_true, if_true]
          omega
      | binary hand hor h₁ h₂ hat =>
          have h₁ := ExprCode.width h₁
          have h₂ := ExprCode.width h₂
          have h₃ := hat.width
          rw [width_binaryInstr] at h₃
          simp only [Expr.width, hand, hor, or_self, if_false]
          omega
  | unary m op operand =>
      cases h with
      | folded hvalue hlit =>
          simp only [Expr.width, hvalue]
          exact hlit.width
      | unary hnone h₁ hat =>
          have h₁ := ExprCode.width h₁
          have h₂ := hat.width
          rw [width_unaryInstr] at h₂
          simp only [Expr.width, hnone]
          omega
  | cast m typeName operand => cases h

theorem ExprsCode.width {es : List Expr} {p q : Nat} (h : ExprsCode L es p q) :
    q = p + Expr.widthAll L.registry es := by
  cases es with
  | nil =>
      cases h
      rfl
  | cons e rest =>
      cases h with
      | cons h₁ h₂ =>
          have h₁ := ExprCode.width h₁
          have h₂ := ExprsCode.width h₂
          simp only [Expr.widthAll]
          omega

end

theorem ChangeCode.width {how : Change} (h : ChangeCode L how p q) :
    q = p + how.width L.registry := by
  cases h with
  | compound hvalue => exact hvalue.width
  | increment hat => exact hat.width
  | decrement hat => exact hat.width

theorem VarCode.width {v : VarStmt} (h : VarCode L v p q) : q = p + v.width L.registry := by
  cases h with
  | declare hvalue hstore =>
      have h₁ := hvalue.width
      have h₂ := hstore.width
      simp only [VarStmt.width]
      omega
  | update hload hchange hat hstore =>
      have h₁ := hload.width
      have h₂ := hchange.width
      have h₃ := hat.width
      have h₄ := hstore.width
      rw [width_binaryInstr] at h₃
      simp only [VarStmt.width]
      omega

theorem CountCode.width {how : Iteration} (h : CountCode L how p q) : q = p + how.countWidth := by
  cases h with
  | members hat => exact hat.width
  | dynamic _ hread hcheck =>
      have h₁ : _ = _ + 3 := hread.width
      have h₂ : _ = _ + 5 := hcheck.width
      simp only [Iteration.countWidth]
      omega

theorem ItemCode.width {item : String} {iter index : UInt8} {how : Iteration}
    (h : ItemCode L item iter index how p q) : q = p + how.itemWidth := by
  cases h with
  | members h₁ h₂ h₃ h₄ =>
      have h₁ : _ = _ + 2 := h₁.width
      have h₂ : _ = _ + 2 := h₂.width
      have h₃ : _ = _ + 5 := h₃.width
      have h₄ := h₄.width
      simp only [Iteration.itemWidth]
      omega
  | dynamic h₁ h₂ _ h₃ h₄ =>
      have h₁ : _ = _ + 2 := h₁.width
      have h₂ : _ = _ + 2 := h₂.width
      have h₃ : _ = _ + 5 := h₃.width
      have h₄ := h₄.width
      simp only [Iteration.itemWidth]
      omega

theorem HeadCode.width {count : Expr} {length : Int32} (h : HeadCode L count length p q) :
    q = p + headWidth L.registry count := by
  cases h with
  | literal hcount hat =>
      simp only [headWidth, hcount]
      exact hat.width
  | computed hcount hvalue hcheck hat =>
      have h₁ := hvalue.width
      have h₂ := hcheck.width
      have h₃ : _ = _ + 5 := hat.width
      simp only [headWidth, hcount]
      omega

theorem CountedCode.width {index limit : UInt8} {item : Nat → Nat → Prop} {body : List Stmt}
    {k k' n w : Nat} (h : CountedCode L index limit item k body p q k')
    (hitem : ∀ a b, item a b → b = a + n)
    (hbody : ∀ exits a b, StmtsCode L exits k body a b k' → b = a + w) :
    q = p + counterHead + n + w + counterTail := by
  cases h with
  | mk g₁ g₂ g₃ g₄ g₅ g₆ g₇ g₈ g₉ g₁₀ g₁₁ g₁₂ g₁₃ =>
      have g₁ : _ = _ + 9 := g₁.width
      have g₂ : _ = _ + 2 := g₂.width
      have g₃ : _ = _ + 2 := g₃.width
      have g₄ : _ = _ + 2 := g₄.width
      have g₅ : _ = _ + 1 := g₅.width
      have g₆ := g₆.width
      have g₇ := hitem _ _ g₇
      have g₈ := hbody _ _ _ g₈
      have g₉ : _ = _ + 2 := g₉.width
      have g₁₀ : _ = _ + 9 := g₁₀.width
      have g₁₁ : _ = _ + 1 := g₁₁.width
      have g₁₂ : _ = _ + 2 := g₁₂.width
      have g₁₃ := g₁₃.width
      simp only [counterHead, counterTail]
      omega

mutual

theorem StmtCode.width {exits : Option (Nat × Nat)} {k k' : Nat} {s : Stmt} {p q : Nat}
    (h : StmtCode L exits k s p q k') : q = p + s.width L.registry L.level := by
  cases s with
  | «using» offset ns =>
      cases h
      rfl
  | input offset name typeName declared =>
      cases h
      rfl
  | var v =>
      cases h with
      | var hcode => exact hcode.width
  | cond offset test body rest =>
      cases h with
      | cond htest hjump hbody hout hrest =>
          have h₁ := htest.width
          have h₂ := hjump.width
          have h₃ := StmtsCode.width hbody
          have h₄ := hout.width
          have h₅ := BranchesCode.width hrest
          simp only [Stmt.width]
          omega
  | whileLoop offset test body =>
      cases h with
      | whileLoop htest hjump hbody hback =>
          have h₁ := htest.width
          have h₂ := hjump.width
          have h₃ := StmtsCode.width hbody
          have h₄ := hback.width
          simp only [Stmt.width]
          omega
  | forLoop offset init test step body =>
      cases h with
      | forLoop hinit htest hjump hbody hstep hback =>
          have h₁ := hinit.width
          have h₂ := htest.width
          have h₃ := hjump.width
          have h₄ := StmtsCode.width hbody
          have h₅ := hstep.width
          have h₆ := hback.width
          simp only [Stmt.width]
          omega
  | eachLoop offset item source body how =>
      cases h with
      | eachLoop _ _ _ hsource hset hload hitems hset' hcode hnull hdrop =>
          have h₁ := hsource.width
          have h₂ : _ = _ + 2 := hset.width
          have h₃ : _ = _ + 2 := hload.width
          have h₄ := hitems.width
          have h₅ : _ = _ + 2 := hset'.width
          have h₆ := hcode.width (fun _ _ h => h.width) fun _ _ _ h => StmtsCode.width h
          have h₇ : _ = _ + 1 := hnull.width
          have h₈ : _ = _ + 2 := hdrop.width
          simp only [Stmt.width, Stmt.eachStart]
          omega
  | countLoop offset count body =>
      cases h with
      | countLoop hcounts _ _ hcount hcheck hset hcode =>
          have h₁ := hcount.width
          have h₂ := hcheck.width
          have h₃ : _ = _ + 2 := hset.width
          have h₄ := hcode.width (n := 0) (fun _ _ h => h.symm) fun _ _ _ h => StmtsCode.width h
          have hway : (decide (L.level ≥ 1) && !Emit.anyEscapes body) = false := hcounts
          simp only [Stmt.width, Stmt.countStart, hway, Bool.false_eq_true, if_false]
          omega
      | machineLoop hcounts hhead _ _ _ hbody =>
          have h₁ := hhead.width
          have h₂ := StmtsCode.width hbody
          have hway : (decide (L.level ≥ 1) && !Emit.anyEscapes body) = true := hcounts
          simp only [Stmt.width, Stmt.countStart, hway, if_true]
          omega
  | leave offset =>
      cases h with
      | leave hjump => exact hjump.width
  | again offset =>
      cases h with
      | again hjump => exact hjump.width
  | ret offset value =>
      cases h with
      | ret hvalue hat =>
          have h₁ := hvalue.width
          have h₂ : _ = _ + 1 := hat.width
          simp only [Stmt.width, Option.map_some, Option.getD_some]
          omega
      | retNull hnull hat =>
          have h₁ : _ = _ + 1 := hnull.width
          have h₂ : _ = _ + 1 := hat.width
          simp only [Stmt.width, Option.map_none, Option.getD_none]
          omega
  | exit offset =>
      cases h with
      | exit hat => exact hat.width
  | func offset name params body => cases h
  | call offset target =>
      cases h with
      | call htarget hat =>
          have h₁ := htarget.width
          have h₂ : _ = _ + 1 := hat.width
          simp only [Stmt.width]
          omega
  | assign offset target value =>
      cases h with
      | assignStatic hvalue hcheck hat =>
          have h₁ := hvalue.width
          have h₂ := hcheck.width
          have h₃ : _ = _ + 5 := hat.width
          simp only [Stmt.width, Stmt.assignWidth]
          omega
      | assignProperty howner hvalue hcheck hat =>
          have h₀ := howner.width
          have h₁ := hvalue.width
          have h₂ := hcheck.width
          have h₃ : _ = _ + 5 := hat.width
          simp only [Stmt.width, Stmt.assignWidth]
          omega
      | assignDynamic howner hvalue _ hat =>
          have h₀ := howner.width
          have h₁ := hvalue.width
          have h₂ : _ = _ + 3 := hat.width
          simp only [Stmt.width, Stmt.assignWidth]
          omega

theorem StmtsCode.width {exits : Option (Nat × Nat)} {k k' : Nat} {ss : List Stmt} {p q : Nat}
    (h : StmtsCode L exits k ss p q k') : q = p + Stmt.widthAll L.registry L.level ss := by
  cases ss with
  | nil =>
      cases h
      rfl
  | cons s rest =>
      cases h with
      | cons hs hrest =>
          have h₁ := StmtCode.width hs
          have h₂ := StmtsCode.width hrest
          simp only [Stmt.widthAll]
          omega

theorem BranchesCode.width {exits : Option (Nat × Nat)} {k k' done : Nat} {b : Branches}
    {p q : Nat} (h : BranchesCode L exits k done b p q k') :
    q = p + Stmt.widthBranches L.registry L.level b := by
  cases b with
  | done =>
      cases h
      rfl
  | otherwise body =>
      cases h with
      | otherwise hbody => exact StmtsCode.width hbody
  | elseIf test body rest =>
      cases h with
      | elseIf htest hjump hbody hout hrest =>
          have h₁ := htest.width
          have h₂ := hjump.width
          have h₃ := StmtsCode.width hbody
          have h₄ := hout.width
          have h₅ := BranchesCode.width hrest
          simp only [Stmt.widthBranches]
          omega

end

end HostScript
