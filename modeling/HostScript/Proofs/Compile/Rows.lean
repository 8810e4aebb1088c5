import HostScript.Proofs.Compile.Discipline
import HostScript.Proofs.Compile.Script
import HostScript.Proofs.Machine.WellFormed

namespace HostScript

open CompiledScript

namespace Registry

variable {r : Registry} {id count : Nat}

theorem TakesMethod.valid (h : r.TakesMethod id count) :
    (Int32.ofNat id).toUInt32.toNat < r.methods.size := by
  obtain ⟨hroom, d, hd, -⟩ := h
  rw [toNat_memberId hroom]
  exact (Array.getElem?_eq_some_iff.mp hd).choose

theorem TakesNew.valid (h : r.TakesNew id count) :
    (Int32.ofNat id).toUInt32.toNat < r.constructors.size := by
  obtain ⟨hroom, d, hd, -⟩ := h
  rw [toNat_memberId hroom]
  exact (Array.getElem?_eq_some_iff.mp hd).choose

theorem HasProperty.valid (h : r.HasProperty id) :
    (Int32.ofNat id).toUInt32.toNat < r.properties.size := by
  obtain ⟨hroom, d, hd⟩ := h
  rw [toNat_memberId hroom]
  exact (Array.getElem?_eq_some_iff.mp hd).choose

end Registry

namespace Layout

-- An instruction of a laid out script: what it names is there, it jumps only where `T` allows, and
-- the body of a loop that it starts keeps to itself.
structure Row (L : Layout) (T : Nat → Prop) (p : Nat) (i : Instr) (q : Nat) : Prop where
  valid : i.Valid L.env L.slots.length q
  jumps : ∀ t, i.target? = some t → ∃ n : Nat, t = n ∧ T n
  body : ∀ l, i.bodyLength? = some l → L.script.Confined q (q + l.toNat)

def Rows (L : Layout) (T : Nat → Prop) : Nat → Nat → Prop :=
  L.script.Rows (L.Row T)

-- Code that jumps only to places between its own instructions, and to those outside that `X` names.
def Closed (L : Layout) (X : Nat → Prop) (p q : Nat) : Prop :=
  ∀ T : Nat → Prop, (∀ t, X t → T t) → (∀ t, L.script.Whole p t → t ≤ q → T t) → L.Rows T p q

variable {L : Layout} {X Y : Nat → Prop} {p q r : Nat} {i : Instr}

namespace Closed

theorem whole (h : L.Closed X p q) : L.script.Whole p q :=
  (h (fun _ => True) (fun _ _ => trivial) fun _ _ _ => trivial).whole

theorem le (h : L.Closed X p q) : p ≤ q :=
  h.whole.le

theorem nil : L.Closed X p p :=
  fun _ _ _ => .nil

theorem append (h₁ : L.Closed X p q) (h₂ : L.Closed X q r) : L.Closed X p r := by
  intro T hX hopen
  refine (h₁ T hX fun t ht hle => hopen t ht (Nat.le_trans hle h₂.le)).append ?_
  exact h₂ T hX fun t ht hle => hopen t (h₁.whole.append ht) hle

theorem imp (h : L.Closed X p q) (hX : ∀ t, X t → Y t) : L.Closed Y p q :=
  fun T hY hopen => h T (fun t ht => hY t (hX t ht)) hopen

-- Code that leads nowhere else may stand anywhere.
theorem alone (h : L.Closed (fun _ => False) p q) : L.Closed X p q :=
  h.imp fun _ ht => ht.elim

-- Places that turn out to be in the code need not be named.
theorem settle (h : L.Closed X p q) (hX : ∀ t, X t → Y t ∨ L.script.Whole p t ∧ t ≤ q) :
    L.Closed Y p q :=
  fun T hY hopen => h T (fun t ht => (hX t ht).elim (hY t) fun hin => hopen t hin.1 hin.2) hopen

end Closed

theorem At.closed (hat : L.At p i q) (hvalid : i.Valid L.env L.slots.length q)
    (htarget : i.target? = none) (hlength : i.bodyLength? = none) : L.Closed X p q :=
  fun _ _ _ => .one hat ⟨hvalid, by simp [htarget], by simp [hlength]⟩

theorem Jump.closed {t : Nat} (hj : L.Jump p q t) (ht : X t) : L.Closed X p q := by
  obtain ⟨target, hat, hgoes, hle⟩ := hj
  intro T hX _
  refine .one hat ⟨⟨by omega, hgoes ▸ Int.ofNat_le.mpr hle⟩, fun x hx => ?_, by
    simp [Instr.bodyLength?]⟩
  cases hx
  exact ⟨t, hgoes, hX t ht⟩

theorem JumpIf.closed {on : Bool} {t : Nat} (hj : L.JumpIf on p q t) (ht : X t) :
    L.Closed X p q := by
  obtain ⟨target, hat, hgoes, hle⟩ := hj
  intro T hX _
  refine .one hat ⟨⟨by omega, hgoes ▸ Int.ofNat_le.mpr hle⟩, fun x hx => ?_, by
    simp [Instr.bodyLength?]⟩
  cases hx
  exact ⟨t, hgoes, hX t ht⟩

theorem Slot.lt {name : String} {n : UInt8} (h : L.Slot name n) : n.toNat < L.slots.length :=
  (List.getElem?_eq_some_iff.mp h).choose

theorem Text.lt {index : UInt16} {s : String} (h : L.Text index s) :
    index.toNat < L.script.strings.size :=
  (Array.getElem?_eq_some_iff.mp h).choose

theorem Load.closed {name : String} (h : L.Load name p q) : L.Closed X p q := by
  obtain ⟨n, hslot, hat⟩ := h
  unfold loadInstr at hat
  split at hat
  · exact hat.closed hslot.lt rfl rfl
  · exact hat.closed hslot.lt rfl rfl

theorem Store.closed {name : String} (h : L.Store name p q) : L.Closed X p q := by
  obtain ⟨n, hslot, hat⟩ := h
  unfold storeInstr at hat
  split at hat
  · exact hat.closed hslot.lt rfl rfl
  · exact hat.closed hslot.lt rfl rfl

theorem At.closed_binary {op : BinaryOp} {numeric : Bool}
    (hat : L.At p (binaryInstr op numeric) q) : L.Closed X p q := by
  cases op <;> cases numeric <;> exact hat.closed trivial rfl rfl

theorem At.closed_unary {op : UnaryOp} {numeric : Bool}
    (hat : L.At p (unaryInstr op numeric) q) : L.Closed X p q := by
  cases op <;> cases numeric <;> exact hat.closed trivial rfl rfl

end Layout

variable {L : Layout} {X : Nat → Prop} {p q : Nat}

theorem LiteralCode.closed {value : Literal} (h : LiteralCode L value p q) : L.Closed X p q := by
  cases h with
  | null hat => exact hat.closed trivial rfl rfl
  | bool hat => exact hat.closed trivial rfl rfl
  | long hat => exact hat.closed trivial rfl rfl
  | double hat => exact hat.closed trivial rfl rfl
  | string htext hat => exact hat.closed htext.lt rfl rfl

theorem CheckCode.closed {expected actual : Ty} (h : CheckCode L expected actual p q) :
    L.Closed X p q := by
  cases h with
  | needed _ hat => exact hat.closed trivial rfl rfl
  | skipped _ => exact .nil

theorem GuardsCode.closed {params : List Ty} {args : List Expr} {above : Nat}
    (h : GuardsCode L params args above p q) : L.Closed X p q := by
  induction h with
  | params => exact .nil
  | args => exact .nil
  | needed _ hat _ ih => exact (hat.closed trivial rfl rfl).append ih
  | skipped _ _ ih => exact ih

-- Both operators that decide early jump over their second operand or behind it.
theorem decision_closed {on : Bool} {ty : Ty} {q₁ q₂ q₃ q₄ q₅ : Nat}
    (hjump : L.JumpIf on q₁ q₂ q₅) (hrhs : L.Closed (fun _ => False) q₂ q₃)
    (hcheck : CheckCode L .bool ty q₃ q₄) (hdone : L.Jump q₄ q₅ q)
    (hat : L.At q₅ (.pushBool on) q) : L.Closed X q₁ q := by
  have hlong : L.Closed (fun t => t = q₅ ∨ t = q) q₁ q₅ :=
    (((hjump.closed (.inl rfl)).append hrhs.alone).append hcheck.closed).append
      (hdone.closed (.inr rfl))
  have hlast : L.Closed (fun t => t = q₅ ∨ t = q) q₅ q := hat.closed trivial rfl rfl
  refine (hlong.append hlast).settle fun t ht => .inr ?_
  rcases ht with rfl | rfl
  · exact ⟨hlong.whole, hlast.le⟩
  · exact ⟨(hlong.append hlast).whole, Nat.le_refl _⟩

mutual

-- Expressions jump within their own code only.
theorem ExprCode.closed {e : Expr} {p q : Nat} {X : Nat → Prop} (hcode : ExprCode L e p q)
    (hlinked : e.Linked L.registry) : L.Closed X p q := by
  cases e with
  | literal m value =>
      cases hcode with
      | literal hlit => exact hlit.closed
  | name m x =>
      cases hcode with
      | name hload => exact hload.closed
  | static m name args binding =>
      cases hcode with
      | const hlit => exact hlit.closed
      | staticProperty hat => exact hat.closed hlinked.1.valid rfl rfl
      | staticMethod hargs hguards hat =>
          obtain ⟨hmethod, hargsLinked⟩ := hlinked
          exact ((ExprsCode.closed hargs hargsLinked).append hguards.closed).append
            (hat.closed hmethod.valid rfl rfl)
  | member m target name args binding =>
      cases hcode with
      | method htarget hargs hguards hat =>
          obtain ⟨hmethod, htargetLinked, hargsLinked⟩ := hlinked
          exact (((ExprCode.closed htarget htargetLinked).append
            (ExprsCode.closed hargs hargsLinked)).append hguards.closed).append
            (hat.closed hmethod.valid rfl rfl)
      | property htarget hat =>
          exact (ExprCode.closed htarget hlinked.2.1).append (hat.closed hlinked.1.valid rfl rfl)
      | read htarget htext hat =>
          exact (ExprCode.closed htarget hlinked.2.1).append (hat.closed htext.lt rfl rfl)
      | call _ _ htarget hargs htext hat =>
          obtain ⟨-, htargetLinked, hargsLinked⟩ := hlinked
          exact ((ExprCode.closed htarget htargetLinked).append
            (ExprsCode.closed hargs hargsLinked)).append (hat.closed htext.lt rfl rfl)
  | new m typeName args binding =>
      cases hcode with
      | new hargs hguards hat =>
          obtain ⟨hnew, hargsLinked⟩ := hlinked
          exact ((ExprsCode.closed hargs hargsLinked).append hguards.closed).append
            (hat.closed (hnew _ rfl).valid rfl rfl)
  | binary m op lhs rhs =>
      obtain ⟨hlhs, hrhs⟩ := hlinked
      cases hcode with
      | and h₁ h₂ h₃ h₄ h₅ h₆ =>
          exact (ExprCode.closed h₁ hlhs).append
            (decision_closed h₂ (ExprCode.closed h₃ hrhs) h₄ h₅ h₆)
      | or h₁ h₂ h₃ h₄ h₅ h₆ =>
          exact (ExprCode.closed h₁ hlhs).append
            (decision_closed h₂ (ExprCode.closed h₃ hrhs) h₄ h₅ h₆)
      | binary _ _ h₁ h₂ hat =>
          exact ((ExprCode.closed h₁ hlhs).append (ExprCode.closed h₂ hrhs)).append
            hat.closed_binary
  | unary m op operand =>
      cases hcode with
      | folded _ hlit => exact hlit.closed
      | unary _ h₁ hat => exact (ExprCode.closed h₁ hlinked).append hat.closed_unary
  | cast m typeName operand => cases hcode

theorem ExprsCode.closed {es : List Expr} {p q : Nat} {X : Nat → Prop} (hcode : ExprsCode L es p q)
    (hlinked : Expr.AllLinked L.registry es) : L.Closed X p q := by
  cases es with
  | nil =>
      cases hcode
      exact .nil
  | cons e rest =>
      cases hcode with
      | cons h₁ h₂ => exact (ExprCode.closed h₁ hlinked.1).append (ExprsCode.closed h₂ hlinked.2)

end

theorem ChangeCode.closed {how : Change} (h : ChangeCode L how p q)
    (hlinked : how.Linked L.registry) : L.Closed X p q := by
  cases h with
  | compound hvalue => exact hvalue.closed hlinked
  | increment hat => exact hat.closed trivial rfl rfl
  | decrement hat => exact hat.closed trivial rfl rfl

theorem VarCode.closed {v : VarStmt} (h : VarCode L v p q) (hlinked : v.Linked L.registry) :
    L.Closed X p q := by
  cases h with
  | declare hvalue hstore => exact (hvalue.closed hlinked).append hstore.closed
  | update hload hchange hat hstore =>
      exact ((hload.closed.append (hchange.closed hlinked)).append hat.closed_binary).append
        hstore.closed

theorem CountCode.closed {how : Iteration} (h : CountCode L how p q)
    (hlinked : how.Linked L.registry) : L.Closed X p q := by
  cases h with
  | members hat => exact hat.closed hlinked.1.valid rfl rfl
  | dynamic htext hread hcheck =>
      exact (hread.closed htext.lt rfl rfl).append (hcheck.closed trivial rfl rfl)

theorem ItemCode.closed {item name name' : String} {iter index : UInt8} {how : Iteration}
    (h : ItemCode L item iter index how p q) (hlinked : how.Linked L.registry)
    (hiter : L.Slot name iter) (hindex : L.Slot name' index) : L.Closed X p q := by
  cases h with
  | members h₁ h₂ hcall hstore =>
      exact (((h₁.closed hiter.lt rfl rfl).append (h₂.closed hindex.lt rfl rfl)).append
        (hcall.closed hlinked.2.valid rfl rfl)).append hstore.closed
  | dynamic h₁ h₂ htext hcall hstore =>
      exact (((h₁.closed hiter.lt rfl rfl).append (h₂.closed hindex.lt rfl rfl)).append
        (hcall.closed htext.lt rfl rfl)).append hstore.closed

-- The head of a loop that the machine counts, with a body that keeps to itself.
theorem HeadCode.closed {count : Expr} {length : Int32} (h : HeadCode L count length p q)
    (hlinked : count.Linked L.registry) (hlength : 0 ≤ length.toInt)
    (hsize : q + length.toInt.toNat ≤ L.script.code.size)
    (hbody : L.script.Confined q (q + length.toInt.toNat)) : L.Closed X p q := by
  cases h with
  | literal _ hat =>
      exact fun _ _ _ => .one hat ⟨⟨hlength, hsize⟩, by simp [Instr.target?], fun l hl => by
        cases hl
        exact hbody⟩
  | computed _ hcount hcheck hat =>
      refine ((hcount.closed hlinked).append hcheck.closed).append fun _ _ _ => ?_
      exact .one hat ⟨⟨hlength, hsize⟩, by simp [Instr.target?], fun l hl => by
        cases hl
        exact hbody⟩

-- Where a statement leads that leaves the loop around it.
def Emit.leadsOut (exits : Option (Nat × Nat)) (leaves : Bool) (t : Nat) : Prop :=
  leaves = true ∧ ∃ x, exits = some x ∧ (t = x.1 ∨ t = x.2)

theorem CountedCode.closed {index limit : UInt8} {I : Nat → Nat → Prop} {body : List Stmt}
    {name name' : String} {k k' : Nat} (h : CountedCode L index limit I k body p q k')
    (hindex : L.Slot name index) (hlimit : L.Slot name' limit)
    (hitem : ∀ a b, I a b → L.Closed (fun _ => False) a b)
    (hbody : ∀ exits a b, StmtsCode L exits k body a b k' →
      L.Closed (Emit.leadsOut exits (Emit.anyEscapes body)) a b) : L.Closed X p q := by
  cases h with
  | @mk _ q₁ _ top t₁ _ t₂ t₃ t₄ _ _ next _ _ t₅ _ n₁ n₂ n₃ n₄ g₁ g₂ g₃ g₄ g₅ g₆ g₇ g₈ g₉ g₁₀ g₁₁
      g₁₂ g₁₃ =>
      have hinit : L.Closed (fun t => t = top ∨ t = next ∨ t = q) p top :=
        (g₁.closed trivial rfl rfl).append (g₂.closed hindex.lt rfl rfl)
      have htest : L.Closed (fun t => t = top ∨ t = next ∨ t = q) top t₄ :=
        (((g₃.closed hindex.lt rfl rfl).append (g₄.closed hlimit.lt rfl rfl)).append
          (g₅.closed trivial rfl rfl)).append (g₆.closed (.inr (.inr rfl)))
      have hinner : L.Closed (fun t => t = top ∨ t = next ∨ t = q) t₅ next :=
        (hbody _ _ _ g₈).imp fun t ht => by
          obtain ⟨-, x, hx, ht⟩ := ht
          cases hx
          rcases ht with rfl | rfl
          · exact .inr (.inr rfl)
          · exact .inr (.inl rfl)
      have htail : L.Closed (fun t => t = top ∨ t = next ∨ t = q) next q :=
        ((((g₉.closed hindex.lt rfl rfl).append (g₁₀.closed trivial rfl rfl)).append
          (g₁₁.closed trivial rfl rfl)).append (g₁₂.closed hindex.lt rfl rfl)).append
          (g₁₃.closed (.inl rfl))
      have hround := (htest.append (hitem _ _ g₇).alone).append hinner
      refine ((hinit.append hround).append htail).settle fun t ht => .inr ?_
      rcases ht with rfl | rfl | rfl
      · exact ⟨hinit.whole, Nat.le_trans hround.le htail.le⟩
      · exact ⟨(hinit.append hround).whole, htail.le⟩
      · exact ⟨((hinit.append hround).append htail).whole, Nat.le_refl _⟩

theorem Emit.leadsOut.mono {exits : Option (Nat × Nat)} {b c : Bool} {t : Nat}
    (h : Emit.leadsOut exits b t) (himp : b = true → c = true) : Emit.leadsOut exits c t :=
  ⟨himp h.1, h.2⟩

-- A test that leads into a body or past it, and a jump at the end of the body.
theorem branch_closed {e : Expr} {q₁ q₂ q₃ q₄ t u : Nat} (htest : ExprCode L e p q₁)
    (hlinked : e.Linked L.registry) (hjump : L.JumpIf false q₁ q₂ t) (hbody : L.Closed X q₂ q₃)
    (hout : L.Jump q₃ q₄ u) (ht : X t) (hu : X u) : L.Closed X p q₄ :=
  (((htest.closed hlinked).append (hjump.closed ht)).append hbody).append (hout.closed hu)

mutual

-- Statements jump within their own code, or leave the loop around them.
theorem StmtCode.closed {exits : Option (Nat × Nat)} {k k' : Nat} {s : Stmt} {p q : Nat}
    (hcode : StmtCode L exits k s p q k') (hlinked : s.Linked L.registry) :
    L.Closed (Emit.leadsOut exits (Emit.escapes s)) p q := by
  cases s with
  | «using» offset ns =>
      cases hcode
      exact .nil
  | input offset name typeName declared =>
      cases hcode
      exact .nil
  | var v =>
      cases hcode with
      | var hvar => exact hvar.closed hlinked
  | cond offset e body rest =>
      cases hcode with
      | @cond _ _ q₁ q₂ q₄ _ _ _ q₃ k₁ _ _ _ _ htest hjump hbody hout hrest =>
          obtain ⟨htestLinked, hbodyLinked, hrestLinked⟩ := hlinked
          have hinner := (StmtsCode.closed hbody hbodyLinked).imp (Y := fun t =>
            Emit.leadsOut exits (Emit.escapes (.cond offset e body rest)) t ∨ t = q₄ ∨ t = q)
            fun t ht => .inl (ht.mono fun he => by simp [Emit.escapes, he])
          have hothers := (BranchesCode.closed hrest hrestLinked).imp (Y := fun t =>
            Emit.leadsOut exits (Emit.escapes (.cond offset e body rest)) t ∨ t = q₄ ∨ t = q)
            fun t ht => ht.elim (fun ht => .inl (ht.mono fun he => by simp [Emit.escapes, he]))
              fun ht => .inr (.inr ht)
          have hfirst := branch_closed htest htestLinked hjump hinner hout (.inr (.inl rfl))
            (.inr (.inr rfl))
          refine (hfirst.append hothers).settle fun t ht => ?_
          rcases ht with ht | rfl | rfl
          · exact .inl ht
          · exact .inr ⟨hfirst.whole, hothers.le⟩
          · exact .inr ⟨(hfirst.append hothers).whole, Nat.le_refl _⟩
  | whileLoop offset e body =>
      cases hcode with
      | whileLoop htest hjump hbody hback =>
          have hinner := (StmtsCode.closed hbody hlinked.2).imp (Y := fun t => t = q ∨ t = p)
            fun t ht => by
              obtain ⟨-, x, hx, ht⟩ := ht
              cases hx
              exact ht
          have hall := branch_closed htest hlinked.1 hjump hinner hback (.inl rfl) (.inr rfl)
          refine hall.settle fun t ht => .inr ?_
          rcases ht with rfl | rfl
          · exact ⟨hall.whole, Nat.le_refl _⟩
          · exact ⟨.nil, hall.le⟩
  | forLoop offset init e step body =>
      cases hcode with
      | @forLoop _ _ p₁ _ q₁ q₂ _ q₃ _ _ _ _ q₄ _ _ hinit htest hjump hbody hstep hback =>
          obtain ⟨hinitLinked, htestLinked, hstepLinked, hbodyLinked⟩ := hlinked
          have hinner := (StmtsCode.closed hbody hbodyLinked).imp
            (Y := fun t => t = q ∨ t = q₃ ∨ t = p₁) fun t ht => by
              obtain ⟨-, x, hx, ht⟩ := ht
              cases hx
              exact ht.imp_right .inl
          have hstart : L.Closed (fun t => t = q ∨ t = q₃ ∨ t = p₁) p p₁ := hinit.closed hinitLinked
          have hbody' := ((htest.closed htestLinked).append (hjump.closed (.inl rfl))).append hinner
          have hagain : L.Closed (fun t => t = q ∨ t = q₃ ∨ t = p₁) q₃ q :=
            (hstep.closed hstepLinked).append (hback.closed (.inr (.inr rfl)))
          refine ((hstart.append hbody').append hagain).settle fun t ht => .inr ?_
          rcases ht with rfl | rfl | rfl
          · exact ⟨((hstart.append hbody').append hagain).whole, Nat.le_refl _⟩
          · exact ⟨(hstart.append hbody').whole, hagain.le⟩
          · exact ⟨hstart.whole, Nat.le_trans hbody'.le hagain.le⟩
  | eachLoop offset name source body how =>
      cases hcode with
      | eachLoop hiter hcount hindex hsource hset hload hitems hset' hcounted hnull hdrop =>
          obtain ⟨hhow, hsourceLinked, hbodyLinked⟩ := hlinked
          have hhead : L.Closed (fun _ => False) p _ := ((((hsource.closed hsourceLinked).append
            (hset.closed hiter.lt rfl rfl)).append (hload.closed hiter.lt rfl rfl)).append
            (hitems.closed hhow)).append (hset'.closed hcount.lt rfl rfl)
          have hrounds : L.Closed (fun _ => False) _ _ := hcounted.closed hindex hcount
            (fun _ _ hitem => hitem.closed hhow hiter hindex)
            fun _ _ _ hbody => StmtsCode.closed hbody hbodyLinked
          exact ((hhead.append hrounds).append
            ((hnull.closed trivial rfl rfl).append (hdrop.closed hiter.lt rfl rfl))).alone
  | countLoop offset e body =>
      cases hcode with
      | countLoop _ hlimit hindex hcount hcheck hset hcounted =>
          have hhead : L.Closed (fun _ => False) p _ :=
            ((hcount.closed hlinked.1).append hcheck.closed).append (hset.closed hlimit.lt rfl rfl)
          have hrounds : L.Closed (fun _ => False) _ _ := hcounted.closed hindex hlimit
            (fun _ _ heq => heq ▸ .nil) fun _ _ _ hbody => StmtsCode.closed hbody hlinked.2
          exact (hhead.append hrounds).alone
      | @machineLoop _ _ length _ start _ _ _ _ _ hcounts hhead hlength hend hsize hbody =>
          have hstill : Emit.anyEscapes body = false := by
            simpa using (Bool.and_eq_true_iff.mp hcounts).2
          have hinner : L.Closed (fun _ => False) start q :=
            (StmtsCode.closed hbody hlinked.2).imp fun t ht => by
              rw [hstill] at ht
              exact Bool.false_ne_true ht.1
          -- Seen by itself, the body jumps to its own places.
          have hconfined : L.script.Confined start q :=
            (hinner (fun t => start ≤ t ∧ t ≤ q) (fun _ ht => ht.elim)
              fun t ht hle => ⟨ht.le, hle⟩).imp fun x i y hrow t ht => by
                obtain ⟨n, rfl, hn⟩ := hrow.jumps t ht
                omega
          rw [← hend] at hconfined hsize
          exact (hhead.closed hlinked.1 hlength hsize hconfined).append hinner.alone
  | leave offset =>
      cases hcode with
      | leave hjump => exact hjump.closed ⟨rfl, _, rfl, .inl rfl⟩
  | again offset =>
      cases hcode with
      | again hjump => exact hjump.closed ⟨rfl, _, rfl, .inr rfl⟩
  | ret offset value =>
      cases hcode with
      | ret hvalue hat => exact (hvalue.closed (hlinked _ rfl)).append (hat.closed trivial rfl rfl)
      | retNull hnull hat =>
          exact (hnull.closed trivial rfl rfl).append (hat.closed trivial rfl rfl)
  | exit offset =>
      cases hcode with
      | exit hat => exact hat.closed trivial rfl rfl
  | func offset name params body => cases hcode
  | call offset target =>
      cases hcode with
      | call htarget hat => exact (htarget.closed hlinked).append (hat.closed trivial rfl rfl)
  | assign offset target value =>
      obtain ⟨htarget, hvalueLinked⟩ := hlinked
      cases hcode with
      | assignStatic hvalue hcheck hat =>
          exact ((hvalue.closed hvalueLinked).append hcheck.closed).append
            (hat.closed htarget.valid rfl rfl)
      | assignProperty howner hvalue hcheck hat =>
          exact (((howner.closed htarget.2).append (hvalue.closed hvalueLinked)).append
            hcheck.closed).append (hat.closed htarget.1.valid rfl rfl)
      | assignDynamic howner hvalue htext hat =>
          exact ((howner.closed htarget.2).append (hvalue.closed hvalueLinked)).append
            (hat.closed htext.lt rfl rfl)

theorem StmtsCode.closed {exits : Option (Nat × Nat)} {k k' : Nat} {ss : List Stmt} {p q : Nat}
    (hcode : StmtsCode L exits k ss p q k') (hlinked : Stmt.AllLinked L.registry ss) :
    L.Closed (Emit.leadsOut exits (Emit.anyEscapes ss)) p q := by
  cases ss with
  | nil =>
      cases hcode
      exact .nil
  | cons s rest =>
      cases hcode with
      | cons hs hrest =>
          have hfirst := (StmtCode.closed hs hlinked.1).imp fun t ht =>
            ht.mono (c := Emit.anyEscapes (s :: rest)) fun he => by simp [Emit.anyEscapes, he]
          have hothers := (StmtsCode.closed hrest hlinked.2).imp fun t ht =>
            ht.mono (c := Emit.anyEscapes (s :: rest)) fun he => by simp [Emit.anyEscapes, he]
          exact hfirst.append hothers

theorem BranchesCode.closed {exits : Option (Nat × Nat)} {k k' done : Nat} {b : Branches}
    {p q : Nat} (hcode : BranchesCode L exits k done b p q k')
    (hlinked : Stmt.BranchesLinked L.registry b) :
    L.Closed (fun t => Emit.leadsOut exits (Emit.branchesEscape b) t ∨ t = done) p q := by
  cases b with
  | done =>
      cases hcode
      exact .nil
  | otherwise body =>
      cases hcode with
      | otherwise hbody => exact (StmtsCode.closed hbody hlinked).imp fun _ ht => .inl ht
  | elseIf e body rest =>
      cases hcode with
      | @elseIf _ _ q₁ q₂ q₄ _ _ _ q₃ k₁ _ _ _ _ htest hjump hbody hout hrest =>
          obtain ⟨htestLinked, hbodyLinked, hrestLinked⟩ := hlinked
          have hinner := (StmtsCode.closed hbody hbodyLinked).imp (Y := fun t =>
            (Emit.leadsOut exits (Emit.branchesEscape (.elseIf e body rest)) t ∨ t = done) ∨ t = q₄)
            fun t ht => .inl (.inl (ht.mono fun he => by simp [Emit.branchesEscape, he]))
          have hothers := (BranchesCode.closed hrest hrestLinked).imp (Y := fun t =>
            (Emit.leadsOut exits (Emit.branchesEscape (.elseIf e body rest)) t ∨ t = done) ∨ t = q₄)
            fun t ht => .inl (ht.imp_left fun ht => ht.mono fun he => by
              simp [Emit.branchesEscape, he])
          have hfirst := branch_closed htest htestLinked hjump hinner hout (.inr rfl)
            (.inl (.inr rfl))
          refine (hfirst.append hothers).settle fun t ht => ht.imp_right fun ht => ?_
          subst ht
          exact ⟨hfirst.whole, hothers.le⟩

end

end HostScript
