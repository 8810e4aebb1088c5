import HostScript.Proofs.Compile.Rows

namespace HostScript

-- The check that an instruction makes of a value on the stack.
def Instr.check? : Instr → Option (Ty × Nat)
  | .checkType ty => some (ty, 0)
  | .peekCheckType ty depth => some (ty, depth.toNat)
  | _ => none

namespace CompiledScript

-- A place to which a run may jump without passing over a check: the start of the code, or behind an
-- instruction that checks nothing.
inductive Entry (s : CompiledScript) : Nat → Prop
  | start : Entry s 0
  | behind : s.Whole 0 p → s.fetch p = .ok (i, q) → i.check? = none → Entry s q

-- Code in which all jumps, and all loops that the machine counts, lead to such places.
def Steady (s : CompiledScript) : Nat → Nat → Prop :=
  s.Rows fun _ i q => (∀ t, i.target? = some t → ∃ n : Nat, t = n ∧ s.Entry n) ∧
    ∀ l, i.bodyLength? = some l → s.Entry (q + l.toNat)

variable {s : CompiledScript} {p q x y : Nat} {i j : Instr}

theorem Entry.whole (h : s.Entry q) : s.Whole 0 q := by
  cases h with
  | start => exact .nil
  | behind hp hat _ => exact hp.append (.one hat trivial)

-- No two instructions end at the same place.
theorem Rows.unique (hx : s.Whole 0 x) (hy : s.Whole 0 y) (hi : s.fetch x = .ok (i, q))
    (hj : s.fetch y = .ok (j, q)) : x = y := by
  have hle : ∀ {x y i j}, s.Whole 0 x → s.Whole 0 y → s.fetch x = .ok (i, q) →
      s.fetch y = .ok (j, q) → ¬x < y := by
    intro x y i j hx hy hi hj hlt
    obtain ⟨i', q', hi', -, -, hend⟩ := hy.find hx hlt
    cases Except.ok.inj (hi.symm.trans hi')
    exact absurd (lt_of_fetch hj) (Nat.not_lt.mpr hend)
  exact Nat.le_antisymm (Nat.not_lt.mp (hle hy hx hj hi)) (Nat.not_lt.mp (hle hx hy hi hj))

-- Behind a check there is no such place.
theorem Entry.check?_eq (h : s.Entry q) (hx : s.Whole 0 x) (hi : s.fetch x = .ok (i, q)) :
    i.check? = none := by
  cases h with
  | start => exact absurd (lt_of_fetch hi) (Nat.not_lt_zero _)
  | behind hp hat hnone =>
      cases Rows.unique hp hx hat hi
      cases Except.ok.inj (hat.symm.trans hi)
      exact hnone

end CompiledScript

open CompiledScript

namespace Layout

variable {L : Layout} {p q r t : Nat} {i : Instr} {X : Nat → Prop}

theorem At.entry (hat : L.At p i q) (hp : L.script.Whole 0 p) (hi : i.check? = none) :
    L.script.Entry q :=
  .behind hp hat hi

theorem At.steady (hat : L.At p i q) (htarget : i.target? = none) (hlength : i.bodyLength? = none) :
    L.script.Steady p q :=
  .one hat ⟨by simp [htarget], by simp [hlength]⟩

theorem Jump.entry (hj : L.Jump p q t) (hp : L.script.Whole 0 p) : L.script.Entry q := by
  obtain ⟨target, hat, -⟩ := hj
  exact hat.entry hp rfl

theorem Jump.steady (hj : L.Jump p q t) (ht : L.script.Entry t) : L.script.Steady p q := by
  obtain ⟨target, hat, hgoes, -⟩ := hj
  refine .one hat ⟨fun x hx => ?_, by simp [Instr.bodyLength?]⟩
  cases hx
  exact ⟨t, hgoes, ht⟩

theorem JumpIf.entry {on : Bool} (hj : L.JumpIf on p q t) (hp : L.script.Whole 0 p) :
    L.script.Entry q := by
  obtain ⟨target, hat, -⟩ := hj
  exact hat.entry hp rfl

theorem JumpIf.steady {on : Bool} (hj : L.JumpIf on p q t) (ht : L.script.Entry t) :
    L.script.Steady p q := by
  obtain ⟨target, hat, hgoes, -⟩ := hj
  refine .one hat ⟨fun x hx => ?_, by simp [Instr.bodyLength?]⟩
  cases hx
  exact ⟨t, hgoes, ht⟩

theorem Load.steady {name : String} (h : L.Load name p q) : L.script.Steady p q := by
  obtain ⟨n, -, hat⟩ := h
  unfold loadInstr at hat
  split at hat <;> exact hat.steady rfl rfl

theorem Load.entry {name : String} (h : L.Load name p q) (hp : L.script.Whole 0 p) :
    L.script.Entry q := by
  obtain ⟨n, -, hat⟩ := h
  unfold loadInstr at hat
  split at hat <;> exact hat.entry hp rfl

theorem Store.steady {name : String} (h : L.Store name p q) : L.script.Steady p q := by
  obtain ⟨n, -, hat⟩ := h
  unfold storeInstr at hat
  split at hat <;> exact hat.steady rfl rfl

theorem Store.entry {name : String} (h : L.Store name p q) (hp : L.script.Whole 0 p) :
    L.script.Entry q := by
  obtain ⟨n, -, hat⟩ := h
  unfold storeInstr at hat
  split at hat <;> exact hat.entry hp rfl

-- No jump between the two places leads behind a check, and no check stands in front of the second.
structure Guided (L : Layout) (p q : Nat) : Prop where
  steady : L.script.Steady p q
  entry : L.script.Entry q

namespace Guided

theorem whole (h : L.Guided p q) : L.script.Whole 0 q :=
  h.entry.whole

theorem append (h₁ : L.script.Steady p q) (h₂ : L.Guided q r) : L.Guided p r :=
  ⟨Rows.append h₁ h₂.steady, h₂.entry⟩

theorem then_at (h : L.script.Steady p q) (hp : L.script.Whole 0 p) (hat : L.At q i r)
    (htarget : i.target? = none) (hlength : i.bodyLength? = none) (hi : i.check? = none) :
    L.Guided p r :=
  ⟨Rows.append h (hat.steady htarget hlength), hat.entry (hp.append h.whole) hi⟩

theorem at_once (hat : L.At p i q) (hp : L.script.Whole 0 p) (htarget : i.target? = none)
    (hlength : i.bodyLength? = none) (hi : i.check? = none) : L.Guided p q :=
  then_at .nil hp hat htarget hlength hi

end Guided

theorem At.guided_binary {op : BinaryOp} {numeric : Bool} (hat : L.At p (binaryInstr op numeric) q)
    (hp : L.script.Whole 0 p) : L.Guided p q := by
  cases op <;> cases numeric <;> exact .at_once hat hp rfl rfl rfl

theorem At.guided_unary {op : UnaryOp} {numeric : Bool} (hat : L.At p (unaryInstr op numeric) q)
    (hp : L.script.Whole 0 p) : L.Guided p q := by
  cases op <;> cases numeric <;> exact .at_once hat hp rfl rfl rfl

end Layout

variable {L : Layout} {p q : Nat}

theorem LiteralCode.guided {value : Literal} (h : LiteralCode L value p q)
    (hp : L.script.Whole 0 p) : L.Guided p q := by
  cases h with
  | null hat => exact .at_once hat hp rfl rfl rfl
  | bool hat => exact .at_once hat hp rfl rfl rfl
  | long hat => exact .at_once hat hp rfl rfl rfl
  | double hat => exact .at_once hat hp rfl rfl rfl
  | string _ hat => exact .at_once hat hp rfl rfl rfl

theorem CheckCode.steady {expected actual : Ty} (h : CheckCode L expected actual p q) :
    L.script.Steady p q := by
  cases h with
  | needed _ hat => exact hat.steady rfl rfl
  | skipped _ => exact .nil

theorem GuardsCode.steady {params : List Ty} {args : List Expr} {above : Nat}
    (h : GuardsCode L params args above p q) : L.script.Steady p q := by
  induction h with
  | params => exact .nil
  | args => exact .nil
  | needed _ hat _ ih => exact (hat.steady rfl rfl).append ih
  | skipped _ _ ih => exact ih

-- Operators that decide early jump behind a jump, and to their own end.
theorem decision_guided {on : Bool} {ty : Ty} {q₁ q₂ q₃ q₄ q₅ : Nat}
    (hp : L.script.Whole 0 q₁) (hjump : L.JumpIf on q₁ q₂ q₅) (hrhs : L.script.Steady q₂ q₃)
    (hcheck : CheckCode L .bool ty q₃ q₄) (hdone : L.Jump q₄ q₅ q)
    (hat : L.At q₅ (.pushBool on) q) : L.Guided q₁ q := by
  have hskip := hjump.entry hp
  have hlong : L.script.Whole 0 q₄ := (hskip.whole.append hrhs.whole).append hcheck.steady.whole
  have hshort : L.script.Entry q₅ := hdone.entry hlong
  have hend : L.script.Entry q := hat.entry hshort.whole rfl
  have hfirst := ((hjump.steady hshort).append hrhs).append hcheck.steady
  exact ⟨(hfirst.append (hdone.steady hend)).append (hat.steady rfl rfl), hend⟩

mutual

theorem ExprCode.guided {e : Expr} {p q : Nat} (hcode : ExprCode L e p q)
    (hp : L.script.Whole 0 p) : L.Guided p q := by
  cases e with
  | literal m value =>
      cases hcode with
      | literal hlit => exact hlit.guided hp
  | name m x =>
      cases hcode with
      | name hload => exact ⟨hload.steady, hload.entry hp⟩
  | static m name args binding =>
      cases hcode with
      | const hlit => exact hlit.guided hp
      | staticProperty hat => exact .at_once hat hp rfl rfl rfl
      | staticMethod hargs hguards hat =>
          exact .then_at ((ExprsCode.steady hargs hp).append hguards.steady) hp hat rfl rfl rfl
  | member m target name args binding =>
      cases hcode with
      | method htarget hargs hguards hat =>
          have hfirst := ExprCode.guided htarget hp
          have hall := hfirst.steady.append (ExprsCode.steady hargs hfirst.whole)
          exact .then_at (hall.append hguards.steady) hp hat rfl rfl rfl
      | property htarget hat =>
          exact .then_at (ExprCode.guided htarget hp).steady hp hat rfl rfl rfl
      | read htarget _ hat =>
          exact .then_at (ExprCode.guided htarget hp).steady hp hat rfl rfl rfl
      | call _ _ htarget hargs _ hat =>
          have hfirst := ExprCode.guided htarget hp
          have hall := hfirst.steady.append (ExprsCode.steady hargs hfirst.whole)
          exact .then_at hall hp hat rfl rfl rfl
  | new m typeName args binding =>
      cases hcode with
      | new hargs hguards hat =>
          exact .then_at ((ExprsCode.steady hargs hp).append hguards.steady) hp hat rfl rfl rfl
  | binary m op lhs rhs =>
      cases hcode with
      | and h₁ h₂ h₃ h₄ h₅ h₆ =>
          have hlhs := ExprCode.guided h₁ hp
          have hrhs := ExprCode.guided h₃ (h₂.entry hlhs.whole).whole
          exact .append hlhs.steady (decision_guided hlhs.whole h₂ hrhs.steady h₄ h₅ h₆)
      | or h₁ h₂ h₃ h₄ h₅ h₆ =>
          have hlhs := ExprCode.guided h₁ hp
          have hrhs := ExprCode.guided h₃ (h₂.entry hlhs.whole).whole
          exact .append hlhs.steady (decision_guided hlhs.whole h₂ hrhs.steady h₄ h₅ h₆)
      | binary _ _ h₁ h₂ hat =>
          have hlhs := ExprCode.guided h₁ hp
          have hrhs := ExprCode.guided h₂ hlhs.whole
          exact .append (hlhs.steady.append hrhs.steady) (hat.guided_binary hrhs.whole)
  | unary m op operand =>
      cases hcode with
      | folded _ hlit => exact hlit.guided hp
      | unary _ h₁ hat =>
          have hoperand := ExprCode.guided h₁ hp
          exact .append hoperand.steady (hat.guided_unary hoperand.whole)
  | cast m typeName operand => cases hcode

theorem ExprsCode.steady {es : List Expr} {p q : Nat} (hcode : ExprsCode L es p q)
    (hp : L.script.Whole 0 p) : L.script.Steady p q := by
  cases es with
  | nil =>
      cases hcode
      exact .nil
  | cons e rest =>
      cases hcode with
      | cons h₁ h₂ =>
          have hfirst := ExprCode.guided h₁ hp
          exact hfirst.steady.append (ExprsCode.steady h₂ hfirst.whole)

end

theorem ChangeCode.guided {how : Change} (h : ChangeCode L how p q) (hp : L.script.Whole 0 p) :
    L.Guided p q := by
  cases h with
  | compound hvalue => exact hvalue.guided hp
  | increment hat => exact .at_once hat hp rfl rfl rfl
  | decrement hat => exact .at_once hat hp rfl rfl rfl

theorem VarCode.guided {v : VarStmt} (h : VarCode L v p q) (hp : L.script.Whole 0 p) :
    L.Guided p q := by
  cases h with
  | declare hvalue hstore =>
      have hfirst := hvalue.guided hp
      exact .append hfirst.steady ⟨hstore.steady, hstore.entry hfirst.whole⟩
  | update hload hchange hat hstore =>
      have hold := hload.entry hp
      have hnew := hchange.guided hold.whole
      have hresult := hat.guided_binary hnew.whole
      exact .append ((hload.steady.append hnew.steady).append hresult.steady)
        ⟨hstore.steady, hstore.entry hresult.whole⟩

theorem CountCode.steady {how : Iteration} (h : CountCode L how p q) : L.script.Steady p q := by
  cases h with
  | members hat => exact hat.steady rfl rfl
  | dynamic _ hread hcheck => exact (hread.steady rfl rfl).append (hcheck.steady rfl rfl)

theorem ItemCode.guided {item : String} {iter index : UInt8} {how : Iteration}
    (h : ItemCode L item iter index how p q) (hp : L.script.Whole 0 p) : L.Guided p q := by
  cases h with
  | members h₁ h₂ hcall hstore =>
      have hpassed := (h₁.steady rfl rfl).append (h₂.steady rfl rfl)
      have hcalled := Layout.Guided.then_at hpassed hp hcall rfl rfl rfl
      exact .append hcalled.steady ⟨hstore.steady, hstore.entry hcalled.whole⟩
  | dynamic h₁ h₂ _ hcall hstore =>
      have hpassed := (h₁.steady rfl rfl).append (h₂.steady rfl rfl)
      have hcalled := Layout.Guided.then_at hpassed hp hcall rfl rfl rfl
      exact .append hcalled.steady ⟨hstore.steady, hstore.entry hcalled.whole⟩

-- What stands in front of the rounds of a loop over items, and of one that counts a variable.
theorem eachHead_guided {source : Expr} {how : Iteration} {iter count : UInt8}
    {q₁ q₂ q₃ q₄ : Nat} (hp : L.script.Whole 0 p) (hsource : ExprCode L source p q₁)
    (hset : L.At q₁ (.setLoc iter) q₂) (hload : L.At q₂ (.loadLoc iter) q₃)
    (hcount : CountCode L how q₃ q₄) (hset' : L.At q₄ (.setLocNoRef count) q) : L.Guided p q := by
  have hkept := (hsource.guided hp).steady.append (hset.steady rfl rfl)
  have hcounted := (hkept.append (hload.steady rfl rfl)).append hcount.steady
  exact .then_at hcounted hp hset' rfl rfl rfl

theorem countHead_guided {count : Expr} {ty : Ty} {limit : UInt8} {q₁ q₂ : Nat}
    (hp : L.script.Whole 0 p) (hcount : ExprCode L count p q₁)
    (hcheck : CheckCode L .double ty q₁ q₂) (hset : L.At q₂ (.setLocNoRef limit) q) :
    L.Guided p q :=
  .then_at ((hcount.guided hp).steady.append hcheck.steady) hp hset rfl rfl rfl

theorem HeadCode.entry {count : Expr} {length : Int32} (h : HeadCode L count length p q)
    (hp : L.script.Whole 0 p) : L.script.Entry q := by
  cases h with
  | literal _ hat => exact hat.entry hp rfl
  | computed _ hcount hcheck hat =>
      have hfirst := (hcount.guided hp).steady.append hcheck.steady
      exact hat.entry (hp.append hfirst.whole) rfl

theorem HeadCode.steady {count : Expr} {length : Int32} (h : HeadCode L count length p q)
    (hp : L.script.Whole 0 p) (hend : L.script.Entry (q + length.toInt.toNat)) :
    L.script.Steady p q := by
  cases h with
  | literal _ hat =>
      refine .one hat ⟨by simp [Instr.target?], fun l hl => ?_⟩
      cases hl
      exact hend
  | computed _ hcount hcheck hat =>
      refine ((hcount.guided hp).steady.append hcheck.steady).append ?_
      refine .one hat ⟨by simp [Instr.target?], fun l hl => ?_⟩
      cases hl
      exact hend

-- The rounds of a loop with a hidden counter, up to their body and behind it.
theorem CountedCode.parts {index limit : UInt8} {I : Nat → Nat → Prop} {body : List Stmt}
    {k k' : Nat} (h : CountedCode L index limit I k body p q k') (hp : L.script.Whole 0 p)
    (hitem : ∀ a b, I a b → L.script.Entry a → L.Guided a b)
    (hbody : ∀ exits a b, StmtsCode L exits k body a b k' → L.script.Entry a →
      L.script.Entry b) :
    L.script.Entry q ∧ ∃ start next, StmtsCode L (some (q, next)) k body start next k' ∧
      L.Guided p start ∧ L.script.Entry next ∧ L.script.Steady next q := by
  cases h with
  | @mk _ q₁ _ top t₁ _ t₂ t₃ t₄ _ _ next _ _ t₅ _ n₁ n₂ n₃ n₄ g₁ g₂ g₃ g₄ g₅ g₆ g₇ g₈ g₉ g₁₀ g₁₁
      g₁₂ g₁₃ =>
      have hinit := Layout.Guided.then_at (g₁.steady rfl rfl) hp g₂ rfl rfl rfl
      have hcompare := Layout.Guided.then_at ((g₃.steady rfl rfl).append (g₄.steady rfl rfl))
        hinit.whole g₅ rfl rfl rfl
      have hread := hitem _ _ g₇ (g₆.entry hcompare.whole)
      have hnext := hbody _ _ _ g₈ hread.entry
      have hcounted := Layout.Guided.then_at (((g₉.steady rfl rfl).append
        (g₁₀.steady rfl rfl)).append (g₁₁.steady rfl rfl)) hnext.whole g₁₂ rfl rfl rfl
      have hend := g₁₃.entry hcounted.whole
      have hround := (hcompare.steady.append (g₆.steady hend)).append hread.steady
      exact ⟨hend, t₅, next, g₈, .append hinit.steady ⟨hround, hread.entry⟩, hnext,
        hcounted.steady.append (g₁₃.steady hinit.entry)⟩

mutual

-- No statement ends with a check.
theorem StmtCode.entry {exits : Option (Nat × Nat)} {k k' : Nat} {s : Stmt} {p q : Nat}
    (hcode : StmtCode L exits k s p q k') (hp : L.script.Entry p) : L.script.Entry q := by
  cases s with
  | «using» offset ns =>
      cases hcode
      exact hp
  | input offset name typeName declared =>
      cases hcode
      exact hp
  | var v =>
      cases hcode with
      | var hvar => exact (hvar.guided hp.whole).entry
  | cond offset e body rest =>
      cases hcode with
      | cond htest hjump hbody hout hrest =>
          have hinto := hjump.entry (htest.guided hp.whole).whole
          exact BranchesCode.entry hrest (hout.entry (StmtsCode.entry hbody hinto).whole)
  | whileLoop offset e body =>
      cases hcode with
      | whileLoop htest hjump hbody hback =>
          have hinto := hjump.entry (htest.guided hp.whole).whole
          exact hback.entry (StmtsCode.entry hbody hinto).whole
  | forLoop offset init e step body =>
      cases hcode with
      | forLoop hinit htest hjump hbody hstep hback =>
          have hinto := hjump.entry (htest.guided (hinit.guided hp.whole).whole).whole
          exact hback.entry (hstep.guided (StmtsCode.entry hbody hinto).whole).whole
  | eachLoop offset name source body how =>
      cases hcode with
      | eachLoop _ _ _ hsource hset hload hitems hset' hcounted hnull hdrop =>
          have hhead := eachHead_guided hp.whole hsource hset hload hitems hset'
          have hrounds := (hcounted.parts hhead.whole (fun _ _ hitem ha => hitem.guided ha.whole)
            fun _ _ _ hbody ha => StmtsCode.entry hbody ha).1
          exact hdrop.entry (hnull.entry hrounds.whole rfl).whole rfl
  | countLoop offset e body =>
      cases hcode with
      | countLoop _ _ _ hcount hcheck hset hcounted =>
          have hhead := countHead_guided hp.whole hcount hcheck hset
          exact (hcounted.parts hhead.whole (fun _ _ heq ha => heq ▸ ⟨.nil, ha⟩)
            fun _ _ _ hbody ha => StmtsCode.entry hbody ha).1
      | machineLoop _ hhead _ _ _ hbody => exact StmtsCode.entry hbody (hhead.entry hp.whole)
  | leave offset =>
      cases hcode with
      | leave hjump => exact hjump.entry hp.whole
  | again offset =>
      cases hcode with
      | again hjump => exact hjump.entry hp.whole
  | ret offset value =>
      cases hcode with
      | ret hvalue hat => exact hat.entry (hvalue.guided hp.whole).whole rfl
      | retNull hnull hat => exact hat.entry (hnull.entry hp.whole rfl).whole rfl
  | exit offset =>
      cases hcode with
      | exit hat => exact hat.entry hp.whole rfl
  | func offset name params body => cases hcode
  | call offset target =>
      cases hcode with
      | call htarget hat => exact hat.entry (htarget.guided hp.whole).whole rfl
  | assign offset target value =>
      cases hcode with
      | assignStatic hvalue hcheck hat =>
          have hvalued := hvalue.guided hp.whole
          exact hat.entry (hvalued.whole.append hcheck.steady.whole) rfl
      | assignProperty howner hvalue hcheck hat =>
          have hvalued := hvalue.guided (howner.guided hp.whole).whole
          exact hat.entry (hvalued.whole.append hcheck.steady.whole) rfl
      | assignDynamic howner hvalue _ hat =>
          exact hat.entry (hvalue.guided (howner.guided hp.whole).whole).whole rfl

theorem StmtsCode.entry {exits : Option (Nat × Nat)} {k k' : Nat} {ss : List Stmt} {p q : Nat}
    (hcode : StmtsCode L exits k ss p q k') (hp : L.script.Entry p) : L.script.Entry q := by
  cases ss with
  | nil =>
      cases hcode
      exact hp
  | cons s rest =>
      cases hcode with
      | cons hs hrest => exact StmtsCode.entry hrest (StmtCode.entry hs hp)

theorem BranchesCode.entry {exits : Option (Nat × Nat)} {k k' done : Nat} {b : Branches}
    {p q : Nat} (hcode : BranchesCode L exits k done b p q k') (hp : L.script.Entry p) :
    L.script.Entry q := by
  cases b with
  | done =>
      cases hcode
      exact hp
  | otherwise body =>
      cases hcode with
      | otherwise hbody => exact StmtsCode.entry hbody hp
  | elseIf e body rest =>
      cases hcode with
      | elseIf htest hjump hbody hout hrest =>
          have hinto := hjump.entry (htest.guided hp.whole).whole
          exact BranchesCode.entry hrest (hout.entry (StmtsCode.entry hbody hinto).whole)

end

-- Where a statement may leave the loop around it, there is no check in front.
def Layout.Clear (L : Layout) (exits : Option (Nat × Nat)) : Prop :=
  ∀ x, exits = some x → L.script.Entry x.1 ∧ L.script.Entry x.2

theorem Layout.clear_some {leaving again : Nat} (hleaving : L.script.Entry leaving)
    (hagain : L.script.Entry again) : L.Clear (some (leaving, again)) := by
  rintro x ⟨⟩
  exact ⟨hleaving, hagain⟩

-- A test that leads into a body or past it, and a jump at the end of the body.
theorem branch_steady {e : Expr} {q₁ q₂ q₃ q₄ t u : Nat} (hp : L.script.Whole 0 p)
    (htest : ExprCode L e p q₁) (hjump : L.JumpIf false q₁ q₂ t)
    (hbody : L.script.Entry q₂ → L.script.Steady q₂ q₃) (hout : L.Jump q₃ q₄ u)
    (ht : L.script.Entry t) (hu : L.script.Entry u) : L.script.Steady p q₄ := by
  have hfirst := htest.guided hp
  have hinto := hbody (hjump.entry hfirst.whole)
  exact ((hfirst.steady.append (hjump.steady ht)).append hinto).append (hout.steady hu)

mutual

-- No statement jumps behind a check.
theorem StmtCode.steady {exits : Option (Nat × Nat)} {k k' : Nat} {s : Stmt} {p q : Nat}
    (hcode : StmtCode L exits k s p q k') (hp : L.script.Entry p) (hexits : L.Clear exits) :
    L.script.Steady p q := by
  have hend := hcode.entry hp
  cases s with
  | «using» offset ns =>
      cases hcode
      exact .nil
  | input offset name typeName declared =>
      cases hcode
      exact .nil
  | var v =>
      cases hcode with
      | var hvar => exact (hvar.guided hp.whole).steady
  | cond offset e body rest =>
      cases hcode with
      | cond htest hjump hbody hout hrest =>
          have hinto := hjump.entry (htest.guided hp.whole).whole
          have hpast := hout.entry (hbody.entry hinto).whole
          exact (branch_steady hp.whole htest hjump
            (fun ha => StmtsCode.steady hbody ha hexits) hout hpast hend).append
            (BranchesCode.steady hrest hpast hexits hend)
  | whileLoop offset e body =>
      cases hcode with
      | whileLoop htest hjump hbody hback =>
          exact branch_steady hp.whole htest hjump
            (fun ha => StmtsCode.steady hbody ha (Layout.clear_some hend hp)) hback hend hp
  | forLoop offset init e step body =>
      cases hcode with
      | forLoop hinit htest hjump hbody hstep hback =>
          have hstart := hinit.guided hp.whole
          have htested := htest.guided hstart.whole
          have hinto := hjump.entry htested.whole
          have hagain := hbody.entry hinto
          have hinner := StmtsCode.steady hbody hinto (Layout.clear_some hend hagain)
          have hround := (htested.steady.append (hjump.steady hend)).append hinner
          exact ((hstart.steady.append hround).append (hstep.guided hagain.whole).steady).append
            (hback.steady hstart.entry)
  | eachLoop offset name source body how =>
      cases hcode with
      | eachLoop _ _ _ hsource hset hload hitems hset' hcounted hnull hdrop =>
          have hhead := eachHead_guided hp.whole hsource hset hload hitems hset'
          obtain ⟨hdone, start, next, hbody, hinto, hnext, hrest⟩ := hcounted.parts hhead.whole
            (fun _ _ hitem ha => hitem.guided ha.whole) fun _ _ _ hbody ha => hbody.entry ha
          have hinner := StmtsCode.steady hbody hinto.entry (Layout.clear_some hdone hnext)
          exact (((hhead.steady.append hinto.steady).append hinner).append hrest).append
            ((hnull.steady rfl rfl).append (hdrop.steady rfl rfl))
  | countLoop offset e body =>
      cases hcode with
      | countLoop _ _ _ hcount hcheck hset hcounted =>
          have hhead := countHead_guided hp.whole hcount hcheck hset
          obtain ⟨hdone, start, next, hbody, hinto, hnext, hrest⟩ := hcounted.parts hhead.whole
            (fun _ _ heq ha => heq ▸ ⟨.nil, ha⟩) fun _ _ _ hbody ha => hbody.entry ha
          have hinner := StmtsCode.steady hbody hinto.entry (Layout.clear_some hdone hnext)
          exact ((hhead.steady.append hinto.steady).append hinner).append hrest
      | machineLoop _ hhead _ hstop _ hbody =>
          have hinner := StmtsCode.steady hbody (hhead.entry hp.whole) hexits
          exact (hhead.steady hp.whole (hstop ▸ hend)).append hinner
  | leave offset =>
      cases hcode with
      | leave hjump => exact hjump.steady (hexits _ rfl).1
  | again offset =>
      cases hcode with
      | again hjump => exact hjump.steady (hexits _ rfl).2
  | ret offset value =>
      cases hcode with
      | ret hvalue hat => exact (hvalue.guided hp.whole).steady.append (hat.steady rfl rfl)
      | retNull hnull hat => exact (hnull.steady rfl rfl).append (hat.steady rfl rfl)
  | exit offset =>
      cases hcode with
      | exit hat => exact hat.steady rfl rfl
  | func offset name params body => cases hcode
  | call offset target =>
      cases hcode with
      | call htarget hat => exact (htarget.guided hp.whole).steady.append (hat.steady rfl rfl)
  | assign offset target value =>
      cases hcode with
      | assignStatic hvalue hcheck hat =>
          exact ((hvalue.guided hp.whole).steady.append hcheck.steady).append (hat.steady rfl rfl)
      | assignProperty howner hvalue hcheck hat =>
          have howned := howner.guided hp.whole
          exact ((howned.steady.append (hvalue.guided howned.whole).steady).append
            hcheck.steady).append (hat.steady rfl rfl)
      | assignDynamic howner hvalue _ hat =>
          have howned := howner.guided hp.whole
          exact (howned.steady.append (hvalue.guided howned.whole).steady).append
            (hat.steady rfl rfl)

theorem StmtsCode.steady {exits : Option (Nat × Nat)} {k k' : Nat} {ss : List Stmt} {p q : Nat}
    (hcode : StmtsCode L exits k ss p q k') (hp : L.script.Entry p) (hexits : L.Clear exits) :
    L.script.Steady p q := by
  cases ss with
  | nil =>
      cases hcode
      exact .nil
  | cons s rest =>
      cases hcode with
      | cons hs hrest =>
          exact (StmtCode.steady hs hp hexits).append
            (StmtsCode.steady hrest (hs.entry hp) hexits)

theorem BranchesCode.steady {exits : Option (Nat × Nat)} {k k' done : Nat} {b : Branches}
    {p q : Nat} (hcode : BranchesCode L exits k done b p q k') (hp : L.script.Entry p)
    (hexits : L.Clear exits) (hdone : L.script.Entry done) : L.script.Steady p q := by
  cases b with
  | done =>
      cases hcode
      exact .nil
  | otherwise body =>
      cases hcode with
      | otherwise hbody => exact StmtsCode.steady hbody hp hexits
  | elseIf e body rest =>
      cases hcode with
      | elseIf htest hjump hbody hout hrest =>
          have hinto := hjump.entry (htest.guided hp.whole).whole
          have hpast := hout.entry (hbody.entry hinto).whole
          exact (branch_steady hp.whole htest hjump
            (fun ha => StmtsCode.steady hbody ha hexits) hout hpast hdone).append
            (BranchesCode.steady hrest hpast hexits hdone)

end

-- In the code of a whole script nothing leads behind a check but the check itself.
theorem Layout.Carries.steady {inputs : List InputVar} {script : Script}
    (hcarries : L.Carries inputs script) : L.script.Steady 0 L.script.code.size := by
  obtain ⟨q, k, hcode, hexit⟩ := hcarries.code
  exact (hcode.steady .start (by rintro x ⟨⟩)).append (hexit.steady rfl rfl)

end HostScript
