import HostScript.Proofs.Levels.Rounds

namespace HostScript

namespace Levels

theorem slow_counts (T : Levels) (body : List Stmt) : T.slow.counts body = false := by
  simp [Layout.counts, T.level]

namespace Runs

variable [HostHooks]

mutual

-- Both runs go through a statement in the same way, one case for every way to write one.
theorem stmt (T : Levels) (s : Stmt) (hplain : s.Plain) {e₀ e₁ : Option (Nat × Nat)}
    {k₀ k₁ k₀' k₁' p₀ p₁ q₀ q₁ : Nat} (h₀ : StmtCode T.slow e₀ k₀ s p₀ q₀ k₀')
    (h₁ : StmtCode T.fast e₁ k₁ s p₁ q₁ k₁') :
    T.Runs (Emit.escapes s) e₀ e₁ k₀ k₁ p₀ p₁ q₀ q₁ := by
  cases s with
  | «using» offset ns =>
      cases h₀
      cases h₁
      exact .nothing
  | input offset name typeName declared =>
      cases h₀
      cases h₁
      exact .nothing
  | var v =>
      cases h₀ with
      | var hcode₀ =>
          cases h₁ with
          | var hcode₁ => exact var hplain hcode₀ hcode₁
  | cond offset test body rest =>
      cases h₀ with
      | cond htest₀ hif₀ hbody₀ hout₀ hrest₀ =>
          cases h₁ with
          | cond htest₁ hif₁ hbody₁ hout₁ hrest₁ =>
              unfold Emit.escapes
              exact cond hplain.1 htest₀ htest₁ hif₀ hif₁ (stmts T body hplain.2.1 hbody₀ hbody₁) hout₀
                hout₁ ((branches T rest hplain.2.2 hrest₀ hrest₁).lower hbody₀.hidden_le
                  hbody₁.hidden_le)
  | whileLoop offset test body =>
      cases h₀ with
      | whileLoop htest₀ hif₀ hbody₀ hback₀ =>
          cases h₁ with
          | whileLoop htest₁ hif₁ hbody₁ hback₁ =>
              exact whileLoop hplain.1 htest₀ htest₁ hif₀ hif₁
                (stmts T body hplain.2 hbody₀ hbody₁) hback₀ hback₁
  | forLoop offset init test step body =>
      cases h₀ with
      | forLoop hinit₀ htest₀ hif₀ hbody₀ hstep₀ hback₀ =>
          cases h₁ with
          | forLoop hinit₁ htest₁ hif₁ hbody₁ hstep₁ hback₁ =>
              exact forLoop ⟨hplain.1, hplain.2.1, hplain.2.2.1⟩ hinit₀ hinit₁ htest₀ htest₁ hif₀ hif₁
                (stmts T body hplain.2.2.2 hbody₀ hbody₁) hstep₀ hstep₁ hback₀ hback₁
  | eachLoop offset item source body how =>
      exact eachLoop hplain.1 hplain.2.1 h₀ h₁ (stmts T body hplain.2.2 · ·)
  | countLoop offset count body =>
      cases hfast : T.fast.counts body with
      | false =>
          exact countLoop hplain.1 (T.slow_counts body) hfast h₀ h₁ (stmts T body hplain.2 · ·)
      | true =>
          have hstays : Emit.anyEscapes body = false := by
            simp only [Layout.counts, Bool.and_eq_true, Bool.not_eq_true'] at hfast
            exact hfast.2
          refine machineLoop hplain.1 (T.slow_counts body) hfast h₀ h₁ fun hbody₀ hbody₁ => ?_
          rw [← hstays]
          exact stmts T body hplain.2 hbody₀ hbody₁
  | leave offset =>
      cases h₀ with
      | leave hjump₀ =>
          cases h₁ with
          | leave hjump₁ => exact jump hjump₀ hjump₁ (.inl ⟨rfl, rfl⟩)
  | again offset =>
      cases h₀ with
      | again hjump₀ =>
          cases h₁ with
          | again hjump₁ => exact jump hjump₀ hjump₁ (.inr ⟨rfl, rfl⟩)
  | ret offset value =>
      cases h₀ with
      | ret hvalue₀ hat₀ =>
          cases h₁ with
          | ret hvalue₁ hat₁ =>
              exact (Flows.expr _ (hplain _ rfl) hvalue₀ hvalue₁).runs.seq (stop hat₀ hat₁ rfl rfl rfl)
      | retNull hpush₀ hat₀ =>
          cases h₁ with
          | retNull hpush₁ hat₁ =>
              exact (Flows.same hpush₀ hpush₁ rfl rfl rfl).runs.seq (stop hat₀ hat₁ rfl rfl rfl)
  | exit offset =>
      cases h₀ with
      | exit hat₀ =>
          cases h₁ with
          | exit hat₁ => exact stop hat₀ hat₁ rfl rfl rfl
  | func offset name params body => cases h₀
  | call offset target =>
      cases h₀ with
      | call htarget₀ hat₀ =>
          cases h₁ with
          | call htarget₁ hat₁ =>
              exact ((Flows.expr target hplain htarget₀ htarget₁).trans
                (.same hat₀ hat₁ rfl rfl rfl)).runs
  | assign offset target value =>
      cases h₀ with
      | assignStatic hvalue₀ hcheck₀ hat₀ =>
          cases h₁ with
          | assignStatic hvalue₁ hcheck₁ hat₁ =>
              rw [T.registry] at hcheck₁
              exact ((Flows.expr value hplain.2 hvalue₀ hvalue₁).trans
                ((Flows.check hcheck₀ hcheck₁).trans (.same hat₀ hat₁ rfl rfl rfl))).runs
      | assignProperty howner₀ hvalue₀ hcheck₀ hat₀ =>
          cases h₁ with
          | assignProperty howner₁ hvalue₁ hcheck₁ hat₁ =>
              rw [T.registry] at hcheck₁
              exact ((Flows.expr _ hplain.1.1 howner₀ howner₁).trans
                ((Flows.expr value hplain.2 hvalue₀ hvalue₁).trans
                  ((Flows.check hcheck₀ hcheck₁).trans (.same hat₀ hat₁ rfl rfl rfl)))).runs
      | assignDynamic howner₀ hvalue₀ htext₀ hat₀ =>
          cases h₁ with
          | assignDynamic howner₁ hvalue₁ htext₁ hat₁ =>
              exact ((Flows.expr _ hplain.1.1 howner₀ howner₁).trans
                ((Flows.expr value hplain.2 hvalue₀ hvalue₁).trans
                  (.twin (.setDynamicProperty htext₀ htext₁) hat₀ hat₁ rfl))).runs

theorem stmts (T : Levels) (ss : List Stmt) (hplain : Stmt.AllPlain ss) {e₀ e₁ : Option (Nat × Nat)}
    {k₀ k₁ k₀' k₁' p₀ p₁ q₀ q₁ : Nat} (h₀ : StmtsCode T.slow e₀ k₀ ss p₀ q₀ k₀')
    (h₁ : StmtsCode T.fast e₁ k₁ ss p₁ q₁ k₁') :
    T.Runs (Emit.anyEscapes ss) e₀ e₁ k₀ k₁ p₀ p₁ q₀ q₁ := by
  cases ss with
  | nil =>
      cases h₀
      cases h₁
      exact .nothing
  | cons s rest =>
      cases h₀ with
      | cons hs₀ hrest₀ =>
          cases h₁ with
          | cons hs₁ hrest₁ =>
              unfold Emit.anyEscapes
              exact (stmt T s hplain.1 hs₀ hs₁).seq ((stmts T rest hplain.2 hrest₀ hrest₁).lower
                hs₀.hidden_le hs₁.hidden_le)

theorem branches (T : Levels) (b : Branches) (hplain : Stmt.BranchesPlain b)
    {e₀ e₁ : Option (Nat × Nat)} {k₀ k₁ k₀' k₁' p₀ p₁ q₀ q₁ : Nat}
    (h₀ : BranchesCode T.slow e₀ k₀ q₀ b p₀ q₀ k₀') (h₁ : BranchesCode T.fast e₁ k₁ q₁ b p₁ q₁ k₁') :
    T.Runs (Emit.branchesEscape b) e₀ e₁ k₀ k₁ p₀ p₁ q₀ q₁ := by
  cases b with
  | done =>
      cases h₀
      cases h₁
      exact .nothing
  | otherwise body =>
      cases h₀ with
      | otherwise hbody₀ =>
          cases h₁ with
          | otherwise hbody₁ => exact stmts T body hplain hbody₀ hbody₁
  | elseIf test body rest =>
      cases h₀ with
      | elseIf htest₀ hif₀ hbody₀ hout₀ hrest₀ =>
          cases h₁ with
          | elseIf htest₁ hif₁ hbody₁ hout₁ hrest₁ =>
              unfold Emit.branchesEscape
              exact cond hplain.1 htest₀ htest₁ hif₀ hif₁ (stmts T body hplain.2.1 hbody₀ hbody₁) hout₀
                hout₁ ((branches T rest hplain.2.2 hrest₀ hrest₁).lower hbody₀.hidden_le
                  hbody₁.hidden_le)

end

end Runs

end Levels

end HostScript
