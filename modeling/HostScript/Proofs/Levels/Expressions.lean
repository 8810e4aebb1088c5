import HostScript.Proofs.Compile.Positions
import HostScript.Proofs.Levels.Instructions

namespace HostScript

namespace Levels

-- The script's own variables hold the same in both runs.
def Named (T : Levels) (l₀ l₁ : Array Cell) : Prop :=
  ∀ name s₀ s₁, PlainName name → T.slow.Slot name s₀ → T.fast.Slot name s₁ →
    l₁[s₁.toNat]? = l₀[s₀.toNat]?

-- Code from `p` to `q` that both runs go through in the same way, whatever is on the stack. No
-- variables are written.
structure Flows [HostHooks] (T : Levels) (p₀ p₁ q₀ q₁ : Nat) : Prop where
  le : p₁ ≤ q₁
  go : ∀ {n : Nat} {m : Machine} {l₀ l₁ : Array Cell} {loops : List LoopFrame}, T.Named l₀ l₁ →
    q₁ ≤ T.fast.rangeEnd loops →
    (∀ m' : Machine, T.Mirrors n (m'.standing l₀ [] q₀) (m'.standing l₁ loops q₁)) →
    T.Mirrors n (m.standing l₀ [] p₀) (m.standing l₁ loops p₁)

variable [HostHooks] {T : Levels} {p₀ p₁ q₀ q₁ r₀ r₁ : Nat}

namespace Flows

theorem refl : T.Flows p₀ p₁ p₀ p₁ :=
  ⟨Nat.le_refl p₁, fun _ _ hnext => hnext _⟩

theorem trans (h : T.Flows p₀ p₁ q₀ q₁) (h' : T.Flows q₀ q₁ r₀ r₁) : T.Flows p₀ p₁ r₀ r₁ :=
  ⟨Nat.le_trans h.le h'.le, fun hnamed hr hnext =>
    h.go hnamed (Nat.le_trans h'.le hr) fun _ => h'.go hnamed hr hnext⟩

theorem twin {i₀ i₁ : Instr} (h : T.Twin i₀ i₁) (h₀ : T.slow.At p₀ i₀ q₀) (h₁ : T.fast.At p₁ i₁ q₁)
    (hflow : i₀.flow = .next) : T.Flows p₀ p₁ q₀ q₁ :=
  ⟨Nat.le_of_lt h₁.lt, fun _ hq hnext =>
    (h.mirrors h₀ h₁ hq hflow fun m' _ => hnext m').mono (Nat.le_succ _)⟩

-- An instruction that names no variable, no place and no text.
theorem same {i : Instr} (h₀ : T.slow.At p₀ i q₀) (h₁ : T.fast.At p₁ i q₁)
    (hlocated : i.isLocated = false) (hnames : i.namesNoText = true) (hflow : i.flow = .next) :
    T.Flows p₀ p₁ q₀ q₁ :=
  twin (.same hlocated hnames) h₀ h₁ hflow

theorem load {name : String} (hname : PlainName name) (h₀ : T.slow.Load name p₀ q₀)
    (h₁ : T.fast.Load name p₁ q₁) : T.Flows p₀ p₁ q₀ q₁ := by
  obtain ⟨s₀, hs₀, hat₀⟩ := h₀
  obtain ⟨s₁, hs₁, hat₁⟩ := h₁
  rw [T.symbols] at hat₁
  exact ⟨Nat.le_of_lt hat₁.lt, fun hnamed hq hnext =>
    load_mirrors hat₀ hat₁ hq (hnamed name s₀ s₁ hname hs₀ hs₁) hnext⟩

theorem literal {value : Literal} (h₀ : LiteralCode T.slow value p₀ q₀)
    (h₁ : LiteralCode T.fast value p₁ q₁) : T.Flows p₀ p₁ q₀ q₁ := by
  cases h₀ with
  | null hat₀ =>
      cases h₁ with
      | null hat₁ => exact same hat₀ hat₁ rfl rfl rfl
  | bool hat₀ =>
      cases h₁ with
      | bool hat₁ => exact same hat₀ hat₁ rfl rfl rfl
  | long hat₀ =>
      cases h₁ with
      | long hat₁ => exact same hat₀ hat₁ rfl rfl rfl
  | double hat₀ =>
      cases h₁ with
      | double hat₁ => exact same hat₀ hat₁ rfl rfl rfl
  | string htext₀ hat₀ =>
      cases h₁ with
      | string htext₁ hat₁ => exact twin (.pushString htext₀ htext₁) hat₀ hat₁ rfl

theorem check {expected actual : Ty} (h₀ : CheckCode T.slow expected actual p₀ q₀)
    (h₁ : CheckCode T.fast expected actual p₁ q₁) : T.Flows p₀ p₁ q₀ q₁ := by
  cases h₀ with
  | needed hguard₀ hat₀ =>
      cases h₁ with
      | needed hguard₁ hat₁ => exact same hat₀ hat₁ rfl rfl rfl
      | skipped hguard₁ => exact absurd hguard₀ (by simp [hguard₁])
  | skipped hguard₀ =>
      cases h₁ with
      | needed hguard₁ hat₁ => exact absurd hguard₁ (by simp [hguard₀])
      | skipped hguard₁ => exact refl

theorem guards {params : List Ty} {args : List Expr} {above : Nat}
    (h₀ : GuardsCode T.slow params args above p₀ q₀)
    (h₁ : GuardsCode T.fast params args above p₁ q₁) : T.Flows p₀ p₁ q₀ q₁ := by
  induction h₀ generalizing p₁ with
  | params =>
      cases h₁ with
      | params => exact refl
      | args => exact refl
  | args =>
      cases h₁ with
      | params => exact refl
      | args => exact refl
  | needed hguard₀ hat₀ _ ih =>
      cases h₁ with
      | needed hguard₁ hat₁ hrest₁ => exact (same hat₀ hat₁ rfl rfl rfl).trans (ih hrest₁)
      | skipped hguard₁ => exact absurd hguard₀ (by simp [hguard₁])
  | skipped hguard₀ _ ih =>
      cases h₁ with
      | needed hguard₁ => exact absurd hguard₁ (by simp [hguard₀])
      | skipped hguard₁ hrest₁ => exact ih hrest₁

theorem binary {op : BinaryOp} {numeric : Bool} (h₀ : T.slow.At p₀ (Layout.binaryInstr op numeric) q₀)
    (h₁ : T.fast.At p₁ (Layout.binaryInstr op numeric) q₁) : T.Flows p₀ p₁ q₀ q₁ := by
  refine same h₀ h₁ ?_ ?_ ?_ <;> cases op <;> cases numeric <;> rfl

theorem unary {op : UnaryOp} {numeric : Bool} (h₀ : T.slow.At p₀ (Layout.unaryInstr op numeric) q₀)
    (h₁ : T.fast.At p₁ (Layout.unaryInstr op numeric) q₁) : T.Flows p₀ p₁ q₀ q₁ := by
  refine same h₀ h₁ ?_ ?_ ?_ <;> cases op <;> cases numeric <;> rfl

-- Code with two branches, the first of which jumps over the second.
theorem decide {on : Bool} {a₀ a₁ b₀ b₁ c₀ c₁ : Nat} (hif₀ : T.slow.JumpIf on p₀ a₀ c₀)
    (hif₁ : T.fast.JumpIf on p₁ a₁ c₁) (hfirst : T.Flows a₀ a₁ b₀ b₁) (hout₀ : T.slow.Jump b₀ c₀ q₀)
    (hout₁ : T.fast.Jump b₁ c₁ q₁) (hsecond : T.Flows c₀ c₁ q₀ q₁) : T.Flows p₀ p₁ q₀ q₁ := by
  have hif := hif₁.lt
  have hout := hout₁.lt
  have hle₁ := hfirst.le
  have hle₂ := hsecond.le
  refine ⟨by omega, fun hnamed hq hnext => ?_⟩
  refine jumpIf_mirrors hif₀ hif₁ (by omega) (fun _ => hsecond.go hnamed hq hnext) fun _ => ?_
  refine hfirst.go hnamed (by omega) fun m' => ?_
  exact (jump_mirrors hout₀ hout₁ (by omega) (hnext m')).mono (Nat.le_succ _)

mutual

theorem expr (e : Expr) (hplain : e.Plain) {p₀ p₁ q₀ q₁ : Nat} (h₀ : ExprCode T.slow e p₀ q₀)
    (h₁ : ExprCode T.fast e p₁ q₁) : T.Flows p₀ p₁ q₀ q₁ := by
  cases e with
  | literal m value =>
      cases h₀ with
      | literal hcode₀ =>
          cases h₁ with
          | literal hcode₁ => exact literal hcode₀ hcode₁
  | name m name =>
      cases h₀ with
      | name hload₀ =>
          cases h₁ with
          | name hload₁ => exact load hplain hload₀ hload₁
  | static m name args binding =>
      cases h₀ with
      | const hcode₀ =>
          cases h₁ with
          | const hcode₁ => exact literal hcode₀ hcode₁
      | staticMethod hargs₀ hguards₀ hat₀ =>
          cases h₁ with
          | staticMethod hargs₁ hguards₁ hat₁ =>
              rw [T.registry] at hguards₁
              exact (exprs args hplain hargs₀ hargs₁).trans
                ((guards hguards₀ hguards₁).trans (same hat₀ hat₁ rfl rfl rfl))
      | staticProperty hat₀ =>
          cases h₁ with
          | staticProperty hat₁ => exact same hat₀ hat₁ rfl rfl rfl
  | member m target name args binding =>
      cases h₀ with
      | method htarget₀ hargs₀ hguards₀ hat₀ =>
          cases h₁ with
          | method htarget₁ hargs₁ hguards₁ hat₁ =>
              rw [T.registry] at hguards₁
              exact (expr target hplain.1 htarget₀ htarget₁).trans
                ((exprs args hplain.2 hargs₀ hargs₁).trans
                  ((guards hguards₀ hguards₁).trans (same hat₀ hat₁ rfl rfl rfl)))
      | property htarget₀ hat₀ =>
          cases h₁ with
          | property htarget₁ hat₁ =>
              exact (expr target hplain.1 htarget₀ htarget₁).trans (same hat₀ hat₁ rfl rfl rfl)
      | read htarget₀ htext₀ hat₀ =>
          cases h₁ with
          | read htarget₁ htext₁ hat₁ =>
              exact (expr target hplain.1 htarget₀ htarget₁).trans
                (twin (.getDynamicProperty htext₀ htext₁) hat₀ hat₁ rfl)
          | call hargs => exact absurd rfl hargs
      | call hargs hcount htarget₀ hargs₀ htext₀ hat₀ =>
          cases h₁ with
          | read => exact absurd rfl hargs
          | call _ _ htarget₁ hargs₁ htext₁ hat₁ =>
              exact (expr target hplain.1 htarget₀ htarget₁).trans
                ((exprs args hplain.2 hargs₀ hargs₁).trans
                  (twin (.invokeDynamic htext₀ htext₁) hat₀ hat₁ rfl))
  | new m typeName args binding =>
      cases h₀ with
      | new hargs₀ hguards₀ hat₀ =>
          cases h₁ with
          | new hargs₁ hguards₁ hat₁ =>
              rw [T.registry] at hguards₁
              exact (exprs args hplain hargs₀ hargs₁).trans
                ((guards hguards₀ hguards₁).trans (same hat₀ hat₁ rfl rfl rfl))
  | binary m op lhs rhs =>
      cases h₀ with
      | and hlhs₀ hif₀ hrhs₀ hcheck₀ hout₀ hpush₀ =>
          cases h₁ with
          | and hlhs₁ hif₁ hrhs₁ hcheck₁ hout₁ hpush₁ =>
              exact (expr lhs hplain.1 hlhs₀ hlhs₁).trans (decide hif₀ hif₁
                ((expr rhs hplain.2 hrhs₀ hrhs₁).trans (check hcheck₀ hcheck₁)) hout₀ hout₁
                (same hpush₀ hpush₁ rfl rfl rfl))
          | binary hand => exact absurd rfl hand
      | or hlhs₀ hif₀ hrhs₀ hcheck₀ hout₀ hpush₀ =>
          cases h₁ with
          | or hlhs₁ hif₁ hrhs₁ hcheck₁ hout₁ hpush₁ =>
              exact (expr lhs hplain.1 hlhs₀ hlhs₁).trans (decide hif₀ hif₁
                ((expr rhs hplain.2 hrhs₀ hrhs₁).trans (check hcheck₀ hcheck₁)) hout₀ hout₁
                (same hpush₀ hpush₁ rfl rfl rfl))
          | binary _ hor => exact absurd rfl hor
      | binary hand hor hlhs₀ hrhs₀ hat₀ =>
          cases h₁ with
          | and => exact absurd rfl hand
          | or => exact absurd rfl hor
          | binary _ _ hlhs₁ hrhs₁ hat₁ =>
              exact (expr lhs hplain.1 hlhs₀ hlhs₁).trans
                ((expr rhs hplain.2 hrhs₀ hrhs₁).trans (binary hat₀ hat₁))
  | unary m op operand =>
      cases h₀ with
      | folded hfolded₀ hcode₀ =>
          cases h₁ with
          | folded hfolded₁ hcode₁ =>
              cases hfolded₀.symm.trans hfolded₁
              exact literal hcode₀ hcode₁
          | unary hfolded₁ => exact nomatch hfolded₀.symm.trans hfolded₁
      | unary hfolded₀ hoperand₀ hat₀ =>
          cases h₁ with
          | folded hfolded₁ => exact nomatch hfolded₀.symm.trans hfolded₁
          | unary _ hoperand₁ hat₁ =>
              exact (expr operand hplain hoperand₀ hoperand₁).trans (unary hat₀ hat₁)
  | cast m typeName operand => cases h₀

theorem exprs (es : List Expr) (hplain : Expr.AllPlain es) {p₀ p₁ q₀ q₁ : Nat}
    (h₀ : ExprsCode T.slow es p₀ q₀) (h₁ : ExprsCode T.fast es p₁ q₁) : T.Flows p₀ p₁ q₀ q₁ := by
  cases es with
  | nil =>
      cases h₀ with
      | nil =>
          cases h₁ with
          | nil => exact refl
  | cons e rest =>
      cases h₀ with
      | cons hfirst₀ hrest₀ =>
          cases h₁ with
          | cons hfirst₁ hrest₁ =>
              exact (expr e hplain.1 hfirst₀ hfirst₁).trans (exprs rest hplain.2 hrest₀ hrest₁)

end

theorem change {how : Change} (hplain : how.Plain) (h₀ : ChangeCode T.slow how p₀ q₀)
    (h₁ : ChangeCode T.fast how p₁ q₁) : T.Flows p₀ p₁ q₀ q₁ := by
  cases h₀ with
  | compound hvalue₀ =>
      cases h₁ with
      | compound hvalue₁ => exact expr _ hplain hvalue₀ hvalue₁
  | increment hat₀ =>
      cases h₁ with
      | increment hat₁ => exact same hat₀ hat₁ rfl rfl rfl
  | decrement hat₀ =>
      cases h₁ with
      | decrement hat₁ => exact same hat₀ hat₁ rfl rfl rfl

theorem count {how : Iteration} (h₀ : CountCode T.slow how p₀ q₀)
    (h₁ : CountCode T.fast how p₁ q₁) : T.Flows p₀ p₁ q₀ q₁ := by
  cases h₀ with
  | members hat₀ =>
      cases h₁ with
      | members hat₁ => exact same hat₀ hat₁ rfl rfl rfl
  | dynamic htext₀ hat₀ hcheck₀ =>
      cases h₁ with
      | dynamic htext₁ hat₁ hcheck₁ =>
          exact (twin (.getDynamicProperty htext₀ htext₁) hat₀ hat₁ rfl).trans
            (same hcheck₀ hcheck₁ rfl rfl rfl)

end Flows

end Levels

end HostScript
