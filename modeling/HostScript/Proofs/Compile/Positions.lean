import HostScript.Proofs.Compile.Layout

namespace HostScript

variable {L : Layout} {p q : Nat}

-- Code is passed through from its start to its end, and every instruction takes some room.
theorem Layout.At.lt {i : Instr} (h : L.At p i q) : p < q := by
  unfold Layout.At CompiledScript.fetch at h
  split at h
  · cases h
  · split at h
    · cases h
    · split at h
      · cases h
        omega
      · cases h

theorem Layout.Jump.lt {t : Nat} (h : L.Jump p q t) : p < q := by
  obtain ⟨_, hat, -⟩ := h
  exact hat.lt

theorem Layout.JumpIf.lt {on : Bool} {t : Nat} (h : L.JumpIf on p q t) : p < q := by
  obtain ⟨_, hat, -⟩ := h
  exact hat.lt

theorem Layout.Load.lt {name : String} (h : L.Load name p q) : p < q := by
  obtain ⟨_, -, hat⟩ := h
  exact hat.lt

theorem Layout.Store.lt {name : String} (h : L.Store name p q) : p < q := by
  obtain ⟨_, -, hat⟩ := h
  exact hat.lt

theorem LiteralCode.lt {value : Literal} (h : LiteralCode L value p q) : p < q := by
  cases h with
  | null hat => exact hat.lt
  | bool hat => exact hat.lt
  | long hat => exact hat.lt
  | double hat => exact hat.lt
  | string _ hat => exact hat.lt

theorem CheckCode.le {expected actual : Ty} (h : CheckCode L expected actual p q) : p ≤ q := by
  cases h with
  | needed _ hat => exact Nat.le_of_lt hat.lt
  | skipped _ => exact Nat.le_refl _

theorem GuardsCode.le {params : List Ty} {args : List Expr} {above : Nat}
    (h : GuardsCode L params args above p q) : p ≤ q := by
  induction h with
  | params => exact Nat.le_refl _
  | args => exact Nat.le_refl _
  | needed _ hat _ ih => exact Nat.le_trans (Nat.le_of_lt hat.lt) ih
  | skipped _ _ ih => exact ih

mutual

theorem ExprCode.lt {e : Expr} {p q : Nat} (h : ExprCode L e p q) : p < q := by
  cases e with
  | literal m value =>
      cases h with
      | literal hlit => exact hlit.lt
  | name m x =>
      cases h with
      | name hload => exact hload.lt
  | static m name args binding =>
      cases h with
      | const hlit => exact hlit.lt
      | staticMethod hargs hguards hat =>
          have h₁ := ExprsCode.le hargs
          have h₂ := hguards.le
          have h₃ := hat.lt
          omega
      | staticProperty hat => exact hat.lt
  | member m target name args binding =>
      cases h with
      | method htarget hargs hguards hat =>
          have h₀ := ExprCode.lt htarget
          have h₁ := ExprsCode.le hargs
          have h₂ := hguards.le
          have h₃ := hat.lt
          omega
      | property htarget hat => exact Nat.lt_trans (ExprCode.lt htarget) hat.lt
      | read htarget _ hat => exact Nat.lt_trans (ExprCode.lt htarget) hat.lt
      | call _ _ htarget hargs _ hat =>
          have h₀ := ExprCode.lt htarget
          have h₁ := ExprsCode.le hargs
          have h₂ := hat.lt
          omega
  | new m typeName args binding =>
      cases h with
      | new hargs hguards hat =>
          have h₁ := ExprsCode.le hargs
          have h₂ := hguards.le
          have h₃ := hat.lt
          omega
  | binary m op lhs rhs =>
      cases h with
      | and h₁ h₂ h₃ h₄ h₅ h₆ =>
          have := ExprCode.lt h₁
          have := h₂.lt
          have := ExprCode.lt h₃
          have := h₄.le
          have := h₅.lt
          have := h₆.lt
          omega
      | or h₁ h₂ h₃ h₄ h₅ h₆ =>
          have := ExprCode.lt h₁
          have := h₂.lt
          have := ExprCode.lt h₃
          have := h₄.le
          have := h₅.lt
          have := h₆.lt
          omega
      | binary _ _ h₁ h₂ hat =>
          exact Nat.lt_trans (ExprCode.lt h₁) (Nat.lt_trans (ExprCode.lt h₂) hat.lt)
  | unary m op operand =>
      cases h with
      | folded _ hlit => exact hlit.lt
      | unary _ h₁ hat => exact Nat.lt_trans (ExprCode.lt h₁) hat.lt
  | cast m typeName operand => cases h

theorem ExprsCode.le {es : List Expr} {p q : Nat} (h : ExprsCode L es p q) : p ≤ q := by
  cases es with
  | nil =>
      cases h
      exact Nat.le_refl _
  | cons e rest =>
      cases h with
      | cons h₁ h₂ => exact Nat.le_trans (Nat.le_of_lt (ExprCode.lt h₁)) (ExprsCode.le h₂)

end

theorem ChangeCode.lt {how : Change} (h : ChangeCode L how p q) : p < q := by
  cases h with
  | compound hvalue => exact hvalue.lt
  | increment hat => exact hat.lt
  | decrement hat => exact hat.lt

theorem VarCode.lt {v : VarStmt} (h : VarCode L v p q) : p < q := by
  cases h with
  | declare hvalue hstore => exact Nat.lt_trans hvalue.lt hstore.lt
  | update hload hchange hat hstore =>
      exact Nat.lt_trans hload.lt (Nat.lt_trans hchange.lt (Nat.lt_trans hat.lt hstore.lt))

theorem CountCode.lt {how : Iteration} (h : CountCode L how p q) : p < q := by
  cases h with
  | members hat => exact hat.lt
  | dynamic _ hread hcheck => exact Nat.lt_trans hread.lt hcheck.lt

theorem ItemCode.lt {item : String} {iter index : UInt8} {how : Iteration}
    (h : ItemCode L item iter index how p q) : p < q := by
  cases h with
  | members h₁ h₂ h₃ h₄ =>
      exact Nat.lt_trans h₁.lt (Nat.lt_trans h₂.lt (Nat.lt_trans h₃.lt h₄.lt))
  | dynamic h₁ h₂ _ h₃ h₄ =>
      exact Nat.lt_trans h₁.lt (Nat.lt_trans h₂.lt (Nat.lt_trans h₃.lt h₄.lt))

theorem HeadCode.lt {count : Expr} {length : Int32} (h : HeadCode L count length p q) : p < q := by
  cases h with
  | literal _ hat => exact hat.lt
  | computed _ hcount hcheck hat =>
      exact Nat.lt_of_lt_of_le hcount.lt (Nat.le_trans hcheck.le (Nat.le_of_lt hat.lt))

theorem CountedCode.lt {index limit : UInt8} {item : Nat → Nat → Prop} {body : List Stmt}
    {k k' : Nat} (h : CountedCode L index limit item k body p q k')
    (hitem : ∀ a b, item a b → a ≤ b)
    (hbody : ∀ exits a b, StmtsCode L exits k body a b k' → a ≤ b) : p < q := by
  cases h with
  | mk g₁ g₂ g₃ g₄ g₅ g₆ g₇ g₈ g₉ g₁₀ g₁₁ g₁₂ g₁₃ =>
      have := g₁.lt
      have := g₂.lt
      have := g₃.lt
      have := g₄.lt
      have := g₅.lt
      have := g₆.lt
      have := hitem _ _ g₇
      have := hbody _ _ _ g₈
      have := g₉.lt
      have := g₁₀.lt
      have := g₁₁.lt
      have := g₁₂.lt
      have := g₁₃.lt
      omega

-- Only declarations leave no code behind.
def Stmt.declares : Stmt → Bool
  | .using _ _ | .input _ _ _ _ => true
  | _ => false

mutual

theorem StmtCode.lt {exits : Option (Nat × Nat)} {k k' : Nat} {s : Stmt} {p q : Nat}
    (h : StmtCode L exits k s p q k') (hs : s.declares = false) : p < q := by
  cases s with
  | «using» offset ns => cases hs
  | input offset name typeName declared => cases hs
  | var v =>
      cases h with
      | var hcode => exact hcode.lt
  | cond offset test body rest =>
      cases h with
      | cond h₁ h₂ h₃ h₄ h₅ =>
          have := h₁.lt
          have := h₂.lt
          have := StmtsCode.le h₃
          have := h₄.lt
          have := BranchesCode.le h₅
          omega
  | whileLoop offset test body =>
      cases h with
      | whileLoop h₁ h₂ h₃ h₄ =>
          have := h₁.lt
          have := h₂.lt
          have := StmtsCode.le h₃
          have := h₄.lt
          omega
  | forLoop offset init test step body =>
      cases h with
      | forLoop h₀ h₁ h₂ h₃ h₄ h₅ =>
          have := h₀.lt
          have := h₁.lt
          have := h₂.lt
          have := StmtsCode.le h₃
          have := h₄.lt
          have := h₅.lt
          omega
  | eachLoop offset item source body how =>
      cases h with
      | eachLoop _ _ _ h₁ h₂ h₃ h₄ h₅ h₆ h₇ h₈ =>
          have := h₁.lt
          have := h₂.lt
          have := h₃.lt
          have := h₄.lt
          have := h₅.lt
          have := h₆.lt (fun _ _ h => Nat.le_of_lt h.lt) fun _ _ _ h => StmtsCode.le h
          have := h₇.lt
          have := h₈.lt
          omega
  | countLoop offset count body =>
      cases h with
      | countLoop _ _ _ h₁ h₂ h₃ h₄ =>
          have := h₁.lt
          have := h₂.le
          have := h₃.lt
          have := h₄.lt (fun _ _ h => Nat.le_of_eq h) fun _ _ _ h => StmtsCode.le h
          omega
      | machineLoop _ h₁ _ _ _ h₂ =>
          have := h₁.lt
          have := StmtsCode.le h₂
          omega
  | leave offset =>
      cases h with
      | leave hjump => exact hjump.lt
  | again offset =>
      cases h with
      | again hjump => exact hjump.lt
  | ret offset value =>
      cases h with
      | ret h₁ h₂ => exact Nat.lt_trans h₁.lt h₂.lt
      | retNull h₁ h₂ => exact Nat.lt_trans h₁.lt h₂.lt
  | exit offset =>
      cases h with
      | exit hat => exact hat.lt
  | func offset name params body => cases h
  | call offset target =>
      cases h with
      | call h₁ h₂ => exact Nat.lt_trans h₁.lt h₂.lt
  | assign offset target value =>
      cases h with
      | assignStatic h₁ h₂ h₃ =>
          exact Nat.lt_of_lt_of_le h₁.lt (Nat.le_trans h₂.le (Nat.le_of_lt h₃.lt))
      | assignProperty h₀ h₁ h₂ h₃ =>
          have := h₀.lt
          have := h₁.lt
          have := h₂.le
          have := h₃.lt
          omega
      | assignDynamic h₀ h₁ _ h₂ => exact Nat.lt_trans h₀.lt (Nat.lt_trans h₁.lt h₂.lt)

theorem StmtsCode.le {exits : Option (Nat × Nat)} {k k' : Nat} {ss : List Stmt} {p q : Nat}
    (h : StmtsCode L exits k ss p q k') : p ≤ q := by
  cases ss with
  | nil =>
      cases h
      exact Nat.le_refl _
  | cons s rest =>
      cases h with
      | cons h₁ h₂ =>
          have hrest := StmtsCode.le h₂
          cases hs : s.declares with
          | false =>
              have := StmtCode.lt h₁ hs
              omega
          | true =>
              cases h₁ <;> first | exact hrest | cases hs

theorem BranchesCode.le {exits : Option (Nat × Nat)} {k k' done : Nat} {b : Branches} {p q : Nat}
    (h : BranchesCode L exits k done b p q k') : p ≤ q := by
  cases b with
  | done =>
      cases h
      exact Nat.le_refl _
  | otherwise body =>
      cases h with
      | otherwise hbody => exact StmtsCode.le hbody
  | elseIf test body rest =>
      cases h with
      | elseIf h₁ h₂ h₃ h₄ h₅ =>
          have := h₁.lt
          have := h₂.lt
          have := StmtsCode.le h₃
          have := h₄.lt
          have := BranchesCode.le h₅
          omega

end

mutual

-- Hidden variables are only ever added.
theorem StmtCode.hidden_le {exits : Option (Nat × Nat)} {k k' : Nat} {s : Stmt} {p q : Nat}
    (h : StmtCode L exits k s p q k') : k ≤ k' := by
  cases s with
  | cond offset test body rest =>
      cases h with
      | cond _ _ h₃ _ h₅ => exact Nat.le_trans (StmtsCode.hidden_le h₃) (BranchesCode.hidden_le h₅)
  | whileLoop offset test body =>
      cases h with
      | whileLoop _ _ h₃ _ => exact StmtsCode.hidden_le h₃
  | forLoop offset init test step body =>
      cases h with
      | forLoop _ _ _ h₃ _ _ => exact StmtsCode.hidden_le h₃
  | eachLoop offset item source body how =>
      cases h with
      | eachLoop _ _ _ _ _ _ _ _ h₆ _ _ =>
          cases h₆ with
          | mk _ _ _ _ _ _ _ hbody _ _ _ _ _ =>
              have := StmtsCode.hidden_le hbody
              omega
  | countLoop offset count body =>
      cases h with
      | countLoop _ _ _ _ _ _ h₄ =>
          cases h₄ with
          | mk _ _ _ _ _ _ _ hbody _ _ _ _ _ =>
              have := StmtsCode.hidden_le hbody
              omega
      | machineLoop _ _ _ _ _ hbody => exact StmtsCode.hidden_le hbody
  | _ => cases h <;> exact Nat.le_refl _

theorem StmtsCode.hidden_le {exits : Option (Nat × Nat)} {k k' : Nat} {ss : List Stmt} {p q : Nat}
    (h : StmtsCode L exits k ss p q k') : k ≤ k' := by
  cases ss with
  | nil =>
      cases h
      exact Nat.le_refl _
  | cons s rest =>
      cases h with
      | cons h₁ h₂ => exact Nat.le_trans (StmtCode.hidden_le h₁) (StmtsCode.hidden_le h₂)

theorem BranchesCode.hidden_le {exits : Option (Nat × Nat)} {k k' done : Nat} {b : Branches}
    {p q : Nat} (h : BranchesCode L exits k done b p q k') : k ≤ k' := by
  cases b with
  | done =>
      cases h
      exact Nat.le_refl _
  | otherwise body =>
      cases h with
      | otherwise hbody => exact StmtsCode.hidden_le hbody
  | elseIf test body rest =>
      cases h with
      | elseIf _ _ h₃ _ h₅ => exact Nat.le_trans (StmtsCode.hidden_le h₃) (BranchesCode.hidden_le h₅)

end

end HostScript
