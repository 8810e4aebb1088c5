import HostScript.Proofs.Compile.Layout
import HostScript.Proofs.Number.Packing

namespace HostScript

-- The instruction that pushes a literal. A text needs a place in the pool of texts as well.
def Literal.push? : Literal → Option Instr
  | .null => some .pushNull
  | .bool b => some (.pushBool b)
  | .long n => some (.pushLong n)
  | .double x => some (.pushDouble x)
  | .string _ => none

theorem Literal.code_iff {L : Layout} {l : Literal} {i : Instr} {p q : Nat} (h : l.push? = some i) :
    LiteralCode L l p q ↔ L.At p i q := by
  constructor
  · intro hcode
    cases hcode with
    | string => cases h
    | null hat => cases h; exact hat
    | bool hat => cases h; exact hat
    | long hat => cases h; exact hat
    | double hat => cases h; exact hat
  · intro hat
    cases l with
    | string s => cases h
    | null => cases h; exact .null hat
    | bool b => cases h; exact .bool hat
    | long n => cases h; exact .long hat
    | double x => cases h; exact .double hat

-- An operator on a literal leaves no code besides the one of its result.
theorem ExprCode.folded_iff {L : Layout} {m : Mark} {op : UnaryOp} {operand : Expr} {value : Literal}
    {p q : Nat} (h : Emit.folded? op operand = some value) :
    ExprCode L (.unary m op operand) p q ↔ LiteralCode L value p q := by
  constructor
  · intro hcode
    cases hcode with
    | folded hfolded hliteral =>
        cases Option.some.inj (h.symm.trans hfolded)
        exact hliteral
    | unary hnone => cases h.symm.trans hnone
  · exact .folded h

namespace Work

variable [HostHooks]

-- What is pushed can be told from the machine.
theorem push_inj {c d : Cell} (h : push c = push d) : c = d := by
  have hrun := congrFun h (Machine.new ⟨1, 0, 0⟩ World.empty)
  simp [push, bind, EStateM.bind, get, getThe, MonadStateOf.get, EStateM.get, Machine.new, set,
    EStateM.set] at hrun
  exact hrun

-- A value without a reference is pushed and at once replaced by another one.
theorem push_then {c d : Cell} {f : Work Unit} (hc : c.handle? = none) (hd : d.handle? = none)
    (hf : ∀ m stack, m.stack = c :: stack → f m = push d { m with stack }) :
    (do push c; f) = push d := by
  funext m
  by_cases hroom : m.stack.length < m.stackCapacity
  · have hpush : push c m = .ok () { m with stack := c :: m.stack } := by
      simp [push, bind, EStateM.bind, get, getThe, MonadStateOf.get, EStateM.get, hroom, set,
        EStateM.set]
    simp only [bind, EStateM.bind, hpush]
    exact hf _ m.stack rfl
  · have hpush : ∀ c : Cell, c.handle? = none →
        push c m = .error (.stackOverflow m.stackCapacity) m := fun c hc => by
      simp [push, bind, EStateM.bind, get, getThe, MonadStateOf.get, EStateM.get, hroom, release, hc,
        throw, throwThe, MonadExceptOf.throw, EStateM.throw, pure, EStateM.pure]
    simp only [bind, EStateM.bind, hpush c hc, hpush d hd]

theorem push_negNum (x : Float) : (do push (.number x); negNum) = push (.number (-x)) := by
  refine push_then rfl rfl fun m stack hstack => ?_
  simp only [negNum, bind, EStateM.bind, pop, hstack]

theorem push_not (b : Bool) : (do push (.bool b); Work.not) = push (.bool !b) := by
  refine push_then rfl rfl fun m stack hstack => ?_
  simp only [Work.not, bind, EStateM.bind, pop, hstack]

end Work

-- The code of an operator on a literal is one instruction. It does the same as the literal's own
-- instruction with the operator's behind it, unless the literal is a whole number that is its own
-- opposite: zero, which has a sign as a double, and the least one.
theorem UnaryOp.folded_agrees_iff [HostHooks] {op : UnaryOp} {l : Literal} {t : Ty}
    (h : op.result? l.ty = some t) : ∃ i j, l.push? = some i ∧
      (∀ L m m' p q, ExprCode L (.unary m op (.literal m' l)) p q ↔ L.At p j q) ∧
      ∀ env, (do Work.effect env i; Work.effect env (Layout.unaryInstr op l.ty.isNumeric)) =
        Work.effect env j ↔ l ≠ .long 0 ∧ l ≠ .long Int64.minValue := by
  have hcode : ∀ {value : Literal} {j : Instr}, Emit.folded? op (.literal default l) = some value →
      value.push? = some j → ∀ L m m' p q,
        ExprCode L (.unary m op (.literal m' l)) p q ↔ L.At p j q := by
    intro value j hfolded hpush L m m' p q
    have hfolded' : Emit.folded? op (.literal m' l) = some value := hfolded
    rw [ExprCode.folded_iff hfolded', Literal.code_iff hpush]
  cases op with
  | neg =>
      cases l with
      | long n =>
          refine ⟨_, _, rfl, hcode rfl rfl, fun env => ?_⟩
          have hnegated := Work.push_negNum (Number.ofLong n)
          simp only [Work.effect, Layout.unaryInstr, Literal.ty, Ty.isNumeric, hnegated, ne_eq,
            Literal.long.injEq]
          rw [← Number.neg_ofLong_iff]
          exact ⟨fun hsame => Cell.number.inj (Work.push_inj hsame), fun hsame => by rw [hsame]⟩
      | double x =>
          refine ⟨_, _, rfl, hcode rfl rfl, fun env => iff_of_true ?_ ⟨by simp, by simp⟩⟩
          exact Work.push_negNum x
      | null => cases h
      | bool b => cases h
      | string s => cases h
  | not =>
      cases l with
      | bool b =>
          refine ⟨_, _, rfl, hcode rfl rfl, fun env => iff_of_true ?_ ⟨by simp, by simp⟩⟩
          exact Work.push_not b
      | null => cases h
      | long n => cases h
      | double x => cases h
      | string s => cases h

theorem UnaryOp.five_agrees : ∃ i j, (Literal.long 5).push? = some i ∧
    (∀ L m m' p q, ExprCode L (.unary m .neg (.literal m' (.long 5))) p q ↔ L.At p j q) ∧
    ∀ env, (do Work.effect env i; Work.effect env .negNum) = Work.effect env j := by
  obtain ⟨i, j, hpush, hcode, hagrees⟩ :=
    @UnaryOp.folded_agrees_iff _ .neg (.long 5) .long rfl
  refine ⟨i, j, hpush, hcode, fun env => (hagrees env).mpr ⟨?_, ?_⟩⟩
  · simp
  · rw [ne_eq, Literal.long.injEq]
    decide

end HostScript
