import HostScript.Proofs.Semantics.Safety

namespace HostScript

-- A target of an assignment is not evaluated, only what it belongs to.
def Expr.TargetEvery (P : Expr → Prop) : Expr → Prop
  | .member _ owner _ _ _ => owner.Every P
  | _ => True

namespace Dialect

section

variable (D : Dialect) (P : (String → Value) → Expr → Prop) (inLoop : Bool)

mutual

-- What holds of all expressions that a statement works out, in the variables of that moment. The
-- statement has to have no loops.
def Throughout : Stmt → Store → Prop
  | .using _ _, _ | .input _ _ _ _, _ | .leave _, _ | .again _, _ | .exit _, _ => True
  | .var v, σ => v.Every (P σ.vars)
  | .cond _ test body rest, σ =>
    test.Every (P σ.vars) ∧
      (∀ σ', D.condition inLoop test σ = .ok true σ' → AllThroughout body σ') ∧
      ∀ σ', D.condition inLoop test σ = .ok false σ' → BranchesThroughout rest σ'
  | .ret _ value, σ => ∀ e, value = some e → e.Every (P σ.vars)
  | .call _ target, σ => target.Every (P σ.vars)
  | .assign _ target value, σ => target.TargetEvery (P σ.vars) ∧ value.Every (P σ.vars)
  | .whileLoop _ _ _, _ | .forLoop _ _ _ _ _, _ | .eachLoop _ _ _ _ _, _ | .countLoop _ _ _, _
  | .func _ _ _ _, _ => False

def AllThroughout : List Stmt → Store → Prop
  | [], _ => True
  | s :: rest, σ =>
    Throughout s σ ∧ ∀ σ', D.exec inLoop s σ = .ok () σ' → AllThroughout rest σ'

def BranchesThroughout : Branches → Store → Prop
  | .done, _ => True
  | .otherwise body, σ => AllThroughout body σ
  | .elseIf test body rest, σ =>
    test.Every (P σ.vars) ∧
      (∀ σ', D.condition inLoop test σ = .ok true σ' → AllThroughout body σ') ∧
      ∀ σ', D.condition inLoop test σ = .ok false σ' → BranchesThroughout rest σ'

end

end

section Imp

variable {D : Dialect} {P Q : (String → Value) → Expr → Prop} {inLoop : Bool}

mutual

theorem Throughout.imp {s : Stmt} {σ : Store} (h : D.Throughout P inLoop s σ)
    (hPQ : ∀ vars e, P vars e → Q vars e) : D.Throughout Q inLoop s σ := by
  cases s with
  | var v => exact VarStmt.Every.imp h (hPQ _)
  | cond offset test body rest =>
      exact ⟨h.1.imp (hPQ _), fun σ' hgo => AllThroughout.imp (h.2.1 σ' hgo) hPQ,
        fun σ' hgo => BranchesThroughout.imp (h.2.2 σ' hgo) hPQ⟩
  | ret offset value => exact fun e he => (h e he).imp (hPQ _)
  | call offset target => exact Expr.Every.imp h (hPQ _)
  | assign offset target value =>
      refine ⟨?_, h.2.imp (hPQ _)⟩
      cases target with
      | member m owner name args binding => exact Expr.Every.imp h.1 (hPQ _)
      | _ => trivial
  | func offset name params body => exact h.elim
  | whileLoop offset test body => exact h.elim
  | forLoop offset init test step body => exact h.elim
  | eachLoop offset item source body how => exact h.elim
  | countLoop offset count body => exact h.elim
  | _ => trivial

theorem AllThroughout.imp {ss : List Stmt} {σ : Store} (h : D.AllThroughout P inLoop ss σ)
    (hPQ : ∀ vars e, P vars e → Q vars e) : D.AllThroughout Q inLoop ss σ := by
  cases ss with
  | nil => trivial
  | cons s rest =>
      exact ⟨Throughout.imp h.1 hPQ, fun σ' hdone => AllThroughout.imp (h.2 σ' hdone) hPQ⟩

theorem BranchesThroughout.imp {b : Branches} {σ : Store} (h : D.BranchesThroughout P inLoop b σ)
    (hPQ : ∀ vars e, P vars e → Q vars e) : D.BranchesThroughout Q inLoop b σ := by
  cases b with
  | done => trivial
  | otherwise body => exact AllThroughout.imp h hPQ
  | elseIf test body rest =>
      exact ⟨h.1.imp (hPQ _), fun σ' hgo => AllThroughout.imp (h.2.1 σ' hgo) hPQ,
        fun σ' hgo => BranchesThroughout.imp (h.2.2 σ' hgo) hPQ⟩

end

end Imp

-- An expression that gives a value of its recorded type, or stops as `E` says.
def Gives (D : Dialect) (R : Value → Ty → Prop) (E : Stop → Prop) (vars : String → Value) (e : Expr) :
    Prop :=
  ∀ inLoop, Eval.Ends E (R · e.ty) (D.eval inLoop vars e)

mutual

theorem every_gives {D : Dialect} {R : Value → Ty → Prop} {E : Stop → Prop} (hD : D.Reading R E)
    {Γ : TypeContext} {vars : String → Value} (e : Expr) (hvars : e.Every (Right R vars))
    (htypes : e.Every (Expr.Consistent D.registry Γ)) (hlinked : e.Linked D.registry)
    (hresolved : e.Every Expr.Resolved) : e.Every (D.Gives R E vars) := by
  have hself : D.Gives R E vars e := fun _ => eval_ends hD e hvars htypes hlinked hresolved
  cases e with
  | name m x => exact hself
  | literal m value => exact hself
  | static m x args binding =>
      exact ⟨hself, everyOne_gives hD args hvars.2 htypes.2 hlinked.2 hresolved.2⟩
  | member m target x args binding =>
      exact ⟨hself, every_gives hD target hvars.2.1 htypes.2.1 hlinked.2.1 hresolved.2.1,
        everyOne_gives hD args hvars.2.2 htypes.2.2 hlinked.2.2 hresolved.2.2⟩
  | new m typeName args binding =>
      exact ⟨hself, everyOne_gives hD args hvars.2 htypes.2 hlinked.2 hresolved.2⟩
  | binary m op lhs rhs =>
      exact ⟨hself, every_gives hD lhs hvars.2.1 htypes.2.1 hlinked.1 hresolved.2.1,
        every_gives hD rhs hvars.2.2 htypes.2.2 hlinked.2 hresolved.2.2⟩
  | unary m op operand =>
      exact ⟨hself, every_gives hD operand hvars.2 htypes.2 hlinked hresolved.2⟩
  | cast m typeName operand => exact hresolved.1.elim

theorem everyOne_gives {D : Dialect} {R : Value → Ty → Prop} {E : Stop → Prop} (hD : D.Reading R E)
    {Γ : TypeContext} {vars : String → Value} (es : List Expr)
    (hvars : Expr.EveryOne (Right R vars) es) (htypes : Expr.EveryOne (Expr.Consistent D.registry Γ) es)
    (hlinked : Expr.AllLinked D.registry es) (hresolved : Expr.EveryOne Expr.Resolved es) :
    Expr.EveryOne (D.Gives R E vars) es := by
  cases es with
  | nil => trivial
  | cons e rest =>
      exact ⟨every_gives hD e hvars.1 htypes.1 hlinked.1 hresolved.1,
        everyOne_gives hD rest hvars.2 htypes.2 hlinked.2 hresolved.2⟩

end

section

variable {D : Dialect} {R : Value → Ty → Prop} {E : Stop → Prop} {le : Ty → Ty → Bool}
  (hD : D.Reading R E) (hle : Compares R le) {inLoop : Bool} {Γ Γ' : TypeContext} {K : Facts}
  {σ : Store}

include hD hle

theorem execVar_throughout {v : VarStmt} (h : v.Typed D.registry D.symbols Γ Γ')
    (hlinked : v.Linked D.registry) (hresolved : v.Every Expr.Resolved) (hborne : v.BorneOut le K)
    (hK : Hold R K σ.vars) : v.Every (D.Gives R E σ.vars) := by
  cases h with
  | @declare offset name value htypes _ _ =>
      exact every_gives hD value (hK.right hle hborne) htypes hlinked hresolved
  | @update offset name how current result _ htypes _ _ =>
      cases how with
      | compound op value =>
          exact every_gives hD value (hK.right hle hborne.2) htypes hlinked hresolved
      | increment => trivial
      | decrement => trivial

theorem target_throughout {target : Expr} (htarget : target.TargetConsistent D.registry Γ)
    (hlinked : target.TargetLinked D.registry) (hassigned : target.Assigned)
    (hborne : target.TargetBorneOut le K) (hK : Hold R K σ.vars) :
    target.TargetEvery (D.Gives R E σ.vars) := by
  cases target with
  | member m owner name args binding =>
      have hresolved : owner.Every Expr.Resolved := by
        cases binding with
        | property id => exact hassigned
        | dynamic => exact hassigned
        | _ => exact hassigned.elim
      exact every_gives hD owner (hK.right hle hborne) htarget hlinked.2 hresolved
  | _ => trivial

-- What holds behind a condition, whichever way it goes.
theorem condition_hold {test : Expr} (htypes : test.Every (Expr.Consistent D.registry Γ))
    (hlinked : test.Linked D.registry) (hresolved : test.Every Expr.Resolved)
    (hborne : test.Every (Expr.BorneOut le K)) (hK : Hold R K σ.vars) {go : Bool} {σ' : Store}
    (hgo : D.condition inLoop test σ = .ok go σ') : Hold R K σ'.vars := by
  have h : Upholds (fun e _ => E e) (fun _ σ' => σ'.vars = σ.vars) (D.condition inLoop test σ) :=
    condition_upholds hD hle htypes hlinked hresolved hborne hK
  rw [hgo] at h
  exact h ▸ hK

end

mutual

-- In a statement without loops whose recorded types are borne out, every expression gives a value of
-- its recorded type whenever it is worked out.
theorem exec_throughout {D : Dialect} {R : Value → Ty → Prop} {E : Stop → Prop} {le : Ty → Ty → Bool}
    (hD : D.Reading R E) (hE : Control R E) (hle : Compares R le) {inLoop : Bool} {Γ Γ' : TypeContext}
    {K : Facts} (s : Stmt) (h : s.Typed D.registry D.symbols Γ Γ') (hlinked : s.Linked D.registry)
    (hsettled : s.Settled) (hborne : s.BorneOut le D.registry K) (hfree : s.LoopFree) {σ : Store}
    (hK : Hold R K σ.vars) : D.Throughout (D.Gives R E) inLoop s σ := by
  cases s with
  | var v =>
      cases h with
      | var hv => exact execVar_throughout hD hle hv hlinked hsettled hborne hK
  | cond offset test body rest =>
      cases h with
      | cond htest _ hbody hrest =>
          have hbehind : ∀ {go σ'}, D.condition inLoop test σ = .ok go σ' → Hold R K σ'.vars :=
            condition_hold hD hle htest hlinked.1 hsettled.1 hborne.1 hK
          refine ⟨every_gives hD test (hK.right hle hborne.1) htest hlinked.1 hsettled.1,
            fun σ' hgo => ?_, fun σ' hgo => ?_⟩
          · exact execAll_throughout hD hE hle body hbody hlinked.2.1 hsettled.2.1 hborne.2.1 hfree.1
              (hbehind hgo)
          · exact execBranches_throughout hD hE hle rest hrest hlinked.2.2 hsettled.2.2 hborne.2.2
              hfree.2 (hbehind hgo)
  | ret offset value =>
      cases h with
      | ret htypes =>
          exact fun e he => every_gives hD e (hK.right hle (hborne e he)) (htypes e he) (hlinked e he)
            (hsettled e he)
  | call offset target =>
      cases h with
      | call htypes => exact every_gives hD target (hK.right hle hborne) htypes hlinked hsettled
  | assign offset target value =>
      cases h with
      | assign htarget htypes =>
          exact ⟨target_throughout hD hle htarget hlinked.1 hsettled.1 hborne.1 hK,
            every_gives hD value (hK.right hle hborne.2) htypes hlinked.2 hsettled.2⟩
  | func offset name params body => cases h
  | whileLoop offset test body => exact hfree.elim
  | forLoop offset init test step body => exact hfree.elim
  | eachLoop offset item source body how => exact hfree.elim
  | countLoop offset count body => exact hfree.elim
  | _ => trivial

theorem execAll_throughout {D : Dialect} {R : Value → Ty → Prop} {E : Stop → Prop}
    {le : Ty → Ty → Bool} (hD : D.Reading R E) (hE : Control R E) (hle : Compares R le) {inLoop : Bool}
    {Γ Γ' : TypeContext} {K : Facts} (ss : List Stmt)
    (h : Stmt.AllTyped D.registry D.symbols Γ ss Γ') (hlinked : Stmt.AllLinked D.registry ss)
    (hsettled : Stmt.AllSettled ss) (hborne : Stmt.AllBorneOut le D.registry K ss)
    (hfree : Stmt.AllLoopFree ss) {σ : Store} (hK : Hold R K σ.vars) :
    D.AllThroughout (D.Gives R E) inLoop ss σ := by
  cases ss with
  | nil => trivial
  | cons s rest =>
      cases h with
      | cons hs hrest =>
          refine ⟨exec_throughout hD hE hle s hs hlinked.1 hsettled.1 hborne.1 hfree.1 hK,
            fun σ' hdone => ?_⟩
          have hupholds : Upholds (Stop.Within E fun _ => True)
              (fun _ σ' => Hold R (s.after le D.registry K) σ'.vars ∧ True) (D.exec inLoop s σ) :=
            exec_upholds hD hE hle s hs hlinked.1 hsettled.1 hborne.1 (.inl hfree.1)
              (fun _ _ _ _ _ _ => trivial) hK trivial
          rw [hdone] at hupholds
          exact execAll_throughout hD hE hle rest hrest hlinked.2 hsettled.2 hborne.2 hfree.2 hupholds.1

theorem execBranches_throughout {D : Dialect} {R : Value → Ty → Prop} {E : Stop → Prop}
    {le : Ty → Ty → Bool} (hD : D.Reading R E) (hE : Control R E) (hle : Compares R le) {inLoop : Bool}
    {Γ Γ' : TypeContext} {K : Facts} (b : Branches)
    (h : Stmt.BranchesTyped D.registry D.symbols Γ b Γ') (hlinked : Stmt.BranchesLinked D.registry b)
    (hsettled : Stmt.BranchesSettled b) (hborne : Stmt.BranchesBorneOut le D.registry K b)
    (hfree : Stmt.BranchesLoopFree b) {σ : Store} (hK : Hold R K σ.vars) :
    D.BranchesThroughout (D.Gives R E) inLoop b σ := by
  cases b with
  | done => trivial
  | otherwise body =>
      cases h with
      | otherwise hbody =>
          exact execAll_throughout hD hE hle body hbody hlinked hsettled hborne hfree hK
  | elseIf test body rest =>
      cases h with
      | elseIf htest _ hbody hrest =>
          have hbehind : ∀ {go σ'}, D.condition inLoop test σ = .ok go σ' → Hold R K σ'.vars :=
            condition_hold hD hle htest hlinked.1 hsettled.1 hborne.1 hK
          refine ⟨every_gives hD test (hK.right hle hborne.1) htest hlinked.1 hsettled.1,
            fun σ' hgo => ?_, fun σ' hgo => ?_⟩
          · exact execAll_throughout hD hE hle body hbody hlinked.2.1 hsettled.2.1 hborne.2.1 hfree.1
              (hbehind hgo)
          · exact execBranches_throughout hD hE hle rest hrest hlinked.2.2 hsettled.2.2 hborne.2.2
              hfree.2 (hbehind hgo)

end

-- A whole script. Imports and inputs do nothing while it is carried out.
theorem script_throughout {D : Dialect} {R : Value → Ty → Prop} {E : Stop → Prop}
    {le : Ty → Ty → Bool} (hD : D.Reading R E) (hE : Control R E) (hle : Compares R le)
    {Γ Γ' : TypeContext} {K : Facts} {script : Script} (h : script.Typed D.registry D.symbols Γ Γ')
    (hlinked : Stmt.AllLinked D.registry script) (hsettled : Stmt.AllSettled script)
    (hborne : Stmt.AllBorneOut le D.registry K script) (hfree : Stmt.AllLoopFree script) {σ : Store}
    (hK : Hold R K σ.vars) : D.AllThroughout (D.Gives R E) false script σ := by
  induction h with
  | «using» hrest ih =>
      refine ⟨trivial, fun σ' hdone => ?_⟩
      cases hdone
      exact ih hlinked.2 hsettled.2 hborne.2 hfree.2
  | input hholds hrest ih =>
      refine ⟨trivial, fun σ' hdone => ?_⟩
      cases hdone
      exact ih hlinked.2 hsettled.2 hborne.2 hfree.2
  | body hbody => exact execAll_throughout hD hE hle _ hbody hlinked hsettled hborne hfree hK

end Dialect

end HostScript
