import HostScript.Proofs.Compile.Depth
import HostScript.Proofs.Compile.Widths
import HostScript.Proofs.Machine.Spots
import HostScript.Proofs.Typing.Linked

namespace HostScript

namespace Registry

variable {r : Registry} {id count : Nat}

theorem TakesMethod.arity (h : r.TakesMethod id count) : r.methodArity (Int32.ofNat id) = count := by
  obtain ⟨hroom, d, hd, hcount⟩ := h
  simp only [methodArity, toNat_memberId hroom, hd, Option.map_some, Option.getD_some, hcount]

theorem TakesNew.arity (h : r.TakesNew id count) :
    r.constructorArity (Int32.ofNat id) = count := by
  obtain ⟨hroom, d, hd, hcount⟩ := h
  simp only [constructorArity, toNat_memberId hroom, hd, Option.map_some, Option.getD_some, hcount]

end Registry

-- Instructions that lead to the next one and nowhere else.
def Instr.Straight (i : Instr) : Prop :=
  i.flow = .next ∧ ∀ r x y, i.LeadsTo r x y → y = ⟨x.loops, x.pc, i.after r x.height⟩

def Layout.env (L : Layout) : RunEnv :=
  ⟨L.registry, L.script⟩

open Spot

variable {L : Layout} {B : Bounds} {ctx : List (Nat × Nat)} {n p q h lo hi : Nat}

-- A run inside the given loops may stand at `p` with the stack `h` high, and is safe for `n` steps.
def Layout.Ready (L : Layout) (B : Bounds) (n : Nat) (ctx : List (Nat × Nat)) (p h : Nat) : Prop :=
  p ≤ L.script.stop ctx ∧ Safe L.env B n ⟨ctx, p, h⟩

namespace Layout.Ready

theorem le {m : Nat} (hr : L.Ready B n ctx p h) (hm : m ≤ n) : L.Ready B m ctx p h := by
  induction n with
  | zero =>
      cases Nat.le_zero.mp hm
      exact hr
  | succ n ih =>
      rcases Nat.le_succ_iff.mp hm with hm | rfl
      · exact ih ⟨hr.1, hr.2.mono⟩ hm
      · exact hr

-- One instruction, which leads to safe places only.
theorem instr {i : Instr} (hat : L.At p i q) (hloops : ctx.length ≤ B.loops)
    (hedge : B.edge p → h = 0) (hheight : h ≤ B.height) (hneeds : i.needs L.registry ≤ h)
    (hquiet : i.Quiet L.registry h) (hstop : q ≤ L.script.stop ctx)
    (hnext : ∀ y, i.LeadsTo L.registry ⟨ctx, q, h⟩ y → Safe L.env B n y) :
    L.Ready B (n + 1) ctx p h := by
  have hlt := Nat.lt_of_lt_of_le hat.lt hstop
  refine ⟨Nat.le_of_lt hlt, ⟨hheight, hloops, hedge, fun _ i' q' hat' => ?_⟩, fun y hy => ?_⟩
  · cases Except.ok.inj (hat.symm.trans hat')
    exact ⟨hneeds, hquiet⟩
  · cases hy with
    | instr _ hat' hy =>
        cases Except.ok.inj (hat.symm.trans hat')
        exact hnext y hy
    | again hge _ => exact absurd hlt (Nat.not_lt.mpr hge)
    | leave hge _ => exact absurd hlt (Nat.not_lt.mpr hge)

theorem plain {i : Instr} {h' : Nat} (hat : L.At p i q) (hi : i.Straight)
    (hloops : ctx.length ≤ B.loops) (hedge : B.edge p → h = 0) (hheight : h ≤ B.height)
    (hneeds : i.needs L.registry ≤ h) (hafter : i.after L.registry h = h')
    (hq : L.Ready B n ctx q h') : L.Ready B (n + 1) ctx p h := by
  refine instr hat hloops hedge hheight hneeds (.inl hi.1) hq.1 fun y hy => ?_
  rw [hi.2 _ _ _ hy]
  subst hafter
  exact hq.2

theorem jump {t : Nat} (hj : L.Jump p q t) (hloops : ctx.length ≤ B.loops)
    (hedge : B.edge p → h = 0) (hheight : h ≤ B.height) (hstop : q ≤ L.script.stop ctx)
    (ht : L.Ready B n ctx t h) : L.Ready B (n + 1) ctx p h := by
  obtain ⟨target, hat, hgoes, -⟩ := hj
  refine instr hat hloops hedge hheight (Nat.zero_le _) (.inl rfl) hstop fun y hy => ?_
  have htarget : target.toInt.toNat = t := by omega
  rw [hy, htarget]
  exact ht.2

theorem jumpIf {on : Bool} {t : Nat} (hj : L.JumpIf on p q t) (hloops : ctx.length ≤ B.loops)
    (hedge : ¬B.edge p) (hheight : h + 1 ≤ B.height) (hq : L.Ready B n ctx q h)
    (ht : L.Ready B n ctx t h) : L.Ready B (n + 1) ctx p (h + 1) := by
  obtain ⟨target, hat, hgoes, -⟩ := hj
  refine instr hat hloops (fun he => absurd he hedge) hheight (Nat.le_add_left 1 h) (.inl rfl) hq.1
    fun y hy => ?_
  have htarget : target.toInt.toNat = t := by omega
  rcases hy with rfl | rfl
  · exact hq.2
  · rw [htarget]
    exact ht.2

end Layout.Ready

-- A stretch of code without places where the stack must be empty, its start apart.
structure Layout.Room (L : Layout) (B : Bounds) (ctx : List (Nat × Nat)) (lo hi : Nat) : Prop where
  loops : ctx.length ≤ B.loops
  clear : ∀ x, lo < x → x < hi → ¬B.edge x

-- At the start of a stretch the stack is empty.
def Inside (lo p h : Nat) : Prop :=
  lo < p ∨ lo = p ∧ h = 0

theorem Inside.start (p : Nat) : Inside p p 0 :=
  .inr ⟨rfl, rfl⟩

theorem Inside.right {p' h' : Nat} (hp : Inside lo p h) (hlt : p < p') : Inside lo p' h' := by
  unfold Inside at hp ⊢
  omega

theorem Inside.le {p' : Nat} (hp : Inside lo p h) (hle : p ≤ p') : Inside lo p' h := by
  unfold Inside at hp ⊢
  omega

theorem Layout.Room.edge (hroom : L.Room B ctx lo hi) (hp : Inside lo p h) (hlt : p < hi) :
    B.edge p → h = 0 := by
  intro hedge
  rcases hp with hp | ⟨-, hh⟩
  · exact absurd hedge (hroom.clear p hp hlt)
  · exact hh

-- Behind some arguments either there were none or the code has moved on.
theorem ExprsCode.inside {args : List Expr} {q' : Nat} (hargs : ExprsCode L args p q)
    (hp : Inside lo p h) (hle : q ≤ q') : Inside lo q' (h + args.length) := by
  cases hargs with
  | nil => exact hp.le hle
  | cons h₁ h₂ => exact hp.right (Nat.lt_of_lt_of_le (Nat.lt_of_lt_of_le h₁.lt h₂.le) hle)

theorem Expr.length_le_needAll (es : List Expr) : es.length ≤ Expr.needAll es := by
  induction es with
  | nil => exact Nat.le_refl 0
  | cons e rest ih =>
      simp only [List.length_cons, Expr.needAll]
      omega

section

variable (r : Registry) {op : BinaryOp} {numeric : Bool}

theorem binaryInstr_straight (op : BinaryOp) (numeric : Bool) :
    (Layout.binaryInstr op numeric).Straight := by
  cases op <;> cases numeric <;> exact ⟨rfl, fun _ _ _ hy => hy⟩

theorem needs_binaryInstr (hand : op ≠ .and) (hor : op ≠ .or) :
    (Layout.binaryInstr op numeric).needs r = 2 := by
  cases op with
  | and => exact absurd rfl hand
  | or => exact absurd rfl hor
  | _ => cases numeric <;> rfl

theorem after_binaryInstr (hand : op ≠ .and) (hor : op ≠ .or) :
    (Layout.binaryInstr op numeric).after r h = h - 1 := by
  cases op with
  | and => exact absurd rfl hand
  | or => exact absurd rfl hor
  | _ => cases numeric <;> rfl

theorem unaryInstr_straight (op : UnaryOp) (numeric : Bool) :
    (Layout.unaryInstr op numeric).Straight := by
  cases op <;> cases numeric <;> exact ⟨rfl, fun _ _ _ hy => hy⟩

theorem needs_unaryInstr (op : UnaryOp) (numeric : Bool) :
    (Layout.unaryInstr op numeric).needs r = 1 := by
  cases op <;> cases numeric <;> rfl

theorem after_unaryInstr (op : UnaryOp) (numeric : Bool) (h : Nat) :
    (Layout.unaryInstr op numeric).after r h = h := by
  cases op <;> cases numeric <;> rfl

end

namespace Layout.Ready

section

variable (hroom : L.Room B ctx lo hi)

include hroom

-- An instruction on such a stretch.
theorem inside {i : Instr} {h' : Nat} (hat : L.At p i q) (hi' : i.Straight) (hp : Inside lo p h)
    (hq : q ≤ hi) (hheight : h ≤ B.height) (hneeds : i.needs L.registry ≤ h)
    (hafter : i.after L.registry h = h') (hnext : L.Ready B n ctx q h') :
    L.Ready B (n + 1) ctx p h :=
  plain hat hi' hroom.loops (hroom.edge hp (Nat.lt_of_lt_of_le hat.lt hq)) hheight hneeds hafter hnext

theorem literal {value : Literal} (hcode : LiteralCode L value p q) (hp : Inside lo p h)
    (hq : q ≤ hi) (hheight : h + 1 ≤ B.height) (hnext : L.Ready B n ctx q (h + 1)) :
    L.Ready B (n + 1) ctx p h := by
  have hheight' : h ≤ B.height := Nat.le_of_succ_le hheight
  cases hcode with
  | null hat =>
      exact inside hroom hat ⟨rfl, fun _ _ _ hy => hy⟩ hp hq hheight' (Nat.zero_le _) rfl hnext
  | bool hat =>
      exact inside hroom hat ⟨rfl, fun _ _ _ hy => hy⟩ hp hq hheight' (Nat.zero_le _) rfl hnext
  | long hat =>
      exact inside hroom hat ⟨rfl, fun _ _ _ hy => hy⟩ hp hq hheight' (Nat.zero_le _) rfl hnext
  | double hat =>
      exact inside hroom hat ⟨rfl, fun _ _ _ hy => hy⟩ hp hq hheight' (Nat.zero_le _) rfl hnext
  | string _ hat =>
      exact inside hroom hat ⟨rfl, fun _ _ _ hy => hy⟩ hp hq hheight' (Nat.zero_le _) rfl hnext

theorem load {name : String} (hload : L.Load name p q) (hp : Inside lo p h) (hq : q ≤ hi)
    (hheight : h + 1 ≤ B.height) (hnext : L.Ready B n ctx q (h + 1)) :
    L.Ready B (n + 1) ctx p h := by
  obtain ⟨slot, -, hat⟩ := hload
  have hheight' : h ≤ B.height := Nat.le_of_succ_le hheight
  unfold loadInstr at hat
  split at hat
  · exact inside hroom hat ⟨rfl, fun _ _ _ hy => hy⟩ hp hq hheight' (Nat.zero_le _) rfl hnext
  · exact inside hroom hat ⟨rfl, fun _ _ _ hy => hy⟩ hp hq hheight' (Nat.zero_le _) rfl hnext

theorem store {name : String} (hstore : L.Store name p q) (hp : Inside lo p (h + 1)) (hq : q ≤ hi)
    (hheight : h + 1 ≤ B.height) (hnext : L.Ready B n ctx q h) :
    L.Ready B (n + 1) ctx p (h + 1) := by
  obtain ⟨slot, -, hat⟩ := hstore
  unfold storeInstr at hat
  split at hat
  · exact inside hroom hat ⟨rfl, fun _ _ _ hy => hy⟩ hp hq hheight (Nat.le_add_left 1 h) rfl hnext
  · exact inside hroom hat ⟨rfl, fun _ _ _ hy => hy⟩ hp hq hheight (Nat.le_add_left 1 h) rfl hnext

theorem check {expected actual : Ty} (hcode : CheckCode L expected actual p q)
    (hp : Inside lo p (h + 1)) (hq : q ≤ hi) (hheight : h + 1 ≤ B.height)
    (hnext : L.Ready B n ctx q (h + 1)) : L.Ready B n ctx p (h + 1) := by
  cases hcode with
  | needed _ hat =>
      exact (inside hroom hat ⟨rfl, fun _ _ _ hy => hy⟩ hp hq hheight (Nat.le_add_left 1 h) rfl
        hnext).le (Nat.le_succ n)
  | skipped _ => exact hnext

theorem guards {params : List Ty} {args : List Expr} {above : Nat}
    (hcode : GuardsCode L params args above p q) (habove : args ≠ [] → above < h)
    (hp : Inside lo p h) (hq : q ≤ hi) (hheight : h ≤ B.height) (hnext : L.Ready B n ctx q h) :
    L.Ready B n ctx p h := by
  induction hcode with
  | params => exact hnext
  | args => exact hnext
  | @needed param arg above p q params args r hneeds hat hrest ih =>
      have habove := habove (by simp)
      have hdepth : (UInt8.ofNat (min above 255)).toNat ≤ above := by
        simp only [UInt8.toNat_ofNat']
        omega
      have hle := hrest.le
      have hthen := ih (fun _ => by omega) (hp.right hat.lt) hq hnext
      refine (inside hroom hat ⟨rfl, fun _ _ _ hy => hy⟩ hp (by omega) hheight ?_ rfl
        hthen).le (Nat.le_succ n)
      simp only [Instr.needs]
      omega
  | skipped hneeds hrest ih => exact ih (fun hne => by have := habove (by simp); omega) hp hq hnext

-- What a call ends with, behind its arguments and their checks.
theorem call {i : Instr} {params : List Ty} {args : List Expr} {q₁ q₂ h' : Nat}
    (hargs : ExprsCode L args p q₁) (hguards : GuardsCode L params args (args.length - 1) q₁ q₂)
    (hat : L.At q₂ i q) (hi' : i.Straight) (hp : Inside lo p h) (hq : q ≤ hi)
    (hheight : h + args.length ≤ B.height) (hneeds : i.needs L.registry ≤ h + args.length)
    (hafter : i.after L.registry (h + args.length) = h') (hnext : L.Ready B n ctx q h') :
    L.Ready B (n + 1) ctx q₁ (h + args.length) := by
  have h₂ := hguards.le
  have h₃ := hat.lt
  have hdone := inside hroom hat hi' (hargs.inside hp h₂) hq hheight hneeds hafter hnext
  exact guards hroom hguards (fun hne => by have := List.length_pos_iff.mpr hne; omega)
    (hargs.inside hp (Nat.le_refl _)) (by omega) hheight hdone

theorem binary {op : BinaryOp} {numeric : Bool} (hand : op ≠ .and) (hor : op ≠ .or)
    (hat : L.At p (Layout.binaryInstr op numeric) q) (hp : Inside lo p (h + 2)) (hq : q ≤ hi)
    (hheight : h + 2 ≤ B.height) (hnext : L.Ready B n ctx q (h + 1)) :
    L.Ready B (n + 1) ctx p (h + 2) := by
  refine inside hroom hat (binaryInstr_straight op numeric) hp hq hheight ?_ ?_ hnext
  · rw [needs_binaryInstr _ hand hor]
    exact Nat.le_add_left 2 h
  · rw [after_binaryInstr _ hand hor]
    rfl

theorem unary {op : UnaryOp} {numeric : Bool} (hat : L.At p (Layout.unaryInstr op numeric) q)
    (hp : Inside lo p (h + 1)) (hq : q ≤ hi) (hheight : h + 1 ≤ B.height)
    (hnext : L.Ready B n ctx q (h + 1)) : L.Ready B (n + 1) ctx p (h + 1) := by
  refine inside hroom hat (unaryInstr_straight op numeric) hp hq hheight ?_ ?_ hnext
  · rw [needs_unaryInstr]
    exact Nat.le_add_left 1 h
  · exact after_unaryInstr _ op numeric _

-- Both operators that decide early end with one value, wherever they end.
theorem decision {on : Bool} {ty : Ty} {q₁ q₂ q₃ q₄ q₅ : Nat} (hjump : L.JumpIf on q₁ q₂ q₅)
    (hrhs : ∀ m, L.Ready B m ctx q₃ (h + 1) → L.Ready B m ctx q₂ h)
    (hcheck : CheckCode L .bool ty q₃ q₄) (hdone : L.Jump q₄ q₅ q)
    (hat : L.At q₅ (.pushBool on) q) (hp : Inside lo q₁ (h + 1)) (hle : q₂ ≤ q₃) (hq : q ≤ hi)
    (hheight : h + 1 ≤ B.height) (hnext : L.Ready B n ctx q (h + 1)) :
    L.Ready B n ctx q₁ (h + 1) := by
  have h₁ := hjump.lt
  have h₂ := hcheck.le
  have h₃ := hdone.lt
  have h₄ := hat.lt
  have hp' : ∀ x, q₁ < x → Inside lo x (h + 1) := fun x hx => hp.right hx
  have hshort : L.Ready B n ctx q₅ h :=
    (inside hroom hat ⟨rfl, fun _ _ _ hy => hy⟩ (hp.right (by omega)) hq (Nat.le_of_succ_le hheight)
      (Nat.zero_le _) rfl hnext).le (Nat.le_succ n)
  have hlong : L.Ready B n ctx q₄ (h + 1) :=
    (jump hdone hroom.loops (hroom.edge (hp' q₄ (by omega)) (by omega)) hheight hshort.1 hnext).le
      (Nat.le_succ n)
  have hchecked : L.Ready B n ctx q₃ (h + 1) :=
    check hroom hcheck (hp' q₃ (by omega)) (by omega) hheight hlong
  have hedge : ¬B.edge q₁ := fun he =>
    absurd (hroom.edge hp (by omega) he) (Nat.succ_ne_zero h)
  exact (jumpIf hjump hroom.loops hedge hheight (hrhs n hchecked) hshort).le (Nat.le_succ n)

end

mutual

-- The code of an expression leaves one more value than it found.
theorem expr {e : Expr} {p q n h : Nat} (hroom : L.Room B ctx lo hi) (hcode : ExprCode L e p q)
    (hlinked : e.Linked L.registry) (hp : Inside lo p h) (hq : q ≤ hi) (hheight : h + e.need ≤ B.height)
    (hnext : L.Ready B n ctx q (h + 1)) : L.Ready B (n + 1) ctx p h := by
  have hone : h + 1 ≤ B.height := Nat.le_trans (Nat.add_le_add_left e.one_le_need h) hheight
  cases e with
  | literal m value =>
      cases hcode with
      | literal hlit => exact literal hroom hlit hp hq (by omega) hnext
  | name m x =>
      cases hcode with
      | name hload => exact load hroom hload hp hq (by omega) hnext
  | static m name args binding =>
      cases hcode with
      | const hlit => exact literal hroom hlit hp hq (by omega) hnext
      | staticProperty hat =>
          exact inside hroom hat ⟨rfl, fun _ _ _ hy => hy⟩ hp hq (by omega) (Nat.zero_le _) rfl hnext
      | staticMethod hargs hguards hat =>
          obtain ⟨hmethod, hargsLinked⟩ := hlinked
          simp only [Expr.need] at hheight
          have hall := Expr.length_le_needAll args
          have hle := Nat.le_trans hguards.le (Nat.le_of_lt hat.lt)
          have hcall := call hroom hargs hguards hat ⟨rfl, fun _ _ _ hy => hy⟩ hp hq (by omega)
            (by simp only [Instr.needs, hmethod.arity]; omega)
            (by simp only [Instr.after, hmethod.arity]; omega) hnext
          exact exprs hroom hargs hargsLinked hp (by omega) (by omega) hcall
  | member m target name args binding =>
      cases hcode with
      | method htarget hargs hguards hat =>
          obtain ⟨hmethod, htargetLinked, hargsLinked⟩ := hlinked
          simp only [Expr.need] at hheight
          have hall := Expr.length_le_needAll args
          have hle := Nat.le_trans hguards.le (Nat.le_of_lt hat.lt)
          have hle' := hargs.le
          have hcall := call hroom hargs hguards hat ⟨rfl, fun _ _ _ hy => hy⟩ (hp.right htarget.lt)
            (h := h + 1) hq (by omega) (by simp only [Instr.needs, hmethod.arity]; omega)
            (by simp only [Instr.after, hmethod.arity]; omega) hnext
          have hpassed := exprs hroom hargs hargsLinked (hp.right htarget.lt) (by omega) (by omega)
            (hcall.le (Nat.le_succ n))
          exact expr hroom htarget htargetLinked hp (by omega) (by omega) hpassed
      | property htarget hat | read htarget _ hat =>
          simp only [Expr.need] at hheight
          have hlt := hat.lt
          have hread := inside hroom hat ⟨rfl, fun _ _ _ hy => hy⟩ (hp.right htarget.lt) hq (by omega)
            (Nat.le_add_left 1 h) rfl hnext
          exact (expr hroom htarget hlinked.2.1 hp (by omega) (by omega) hread).le (by omega)
      | call _ hcount htarget hargs _ hat =>
          obtain ⟨-, htargetLinked, hargsLinked⟩ := hlinked
          simp only [Expr.need] at hheight
          have hall := Expr.length_le_needAll args
          have hlt := hat.lt
          have hle := hargs.le
          have hargc : (UInt16.ofNat args.length).toNat = args.length := by
            simp only [UInt16.toNat_ofNat']
            omega
          -- Nothing is known about the parameters, so no argument is checked.
          have hcall := call hroom hargs .params hat ⟨rfl, fun _ _ _ hy => hy⟩ (hp.right htarget.lt)
            (h := h + 1) hq (by omega) (by simp only [Instr.needs, hargc]; omega)
            (by simp only [Instr.after, hargc]; omega) hnext
          have hpassed := exprs hroom hargs hargsLinked (hp.right htarget.lt) (by omega) (by omega)
            (hcall.le (Nat.le_succ n))
          exact expr hroom htarget htargetLinked hp (by omega) (by omega) hpassed
  | new m typeName args binding =>
      cases hcode with
      | new hargs hguards hat =>
          obtain ⟨hnew, hargsLinked⟩ := hlinked
          have hnew := hnew _ rfl
          simp only [Expr.need] at hheight
          have hall := Expr.length_le_needAll args
          have hle := Nat.le_trans hguards.le (Nat.le_of_lt hat.lt)
          have hcall := call hroom hargs hguards hat ⟨rfl, fun _ _ _ hy => hy⟩ hp hq (by omega)
            (by simp only [Instr.needs, hnew.arity]; omega)
            (by simp only [Instr.after, hnew.arity]; omega) hnext
          exact exprs hroom hargs hargsLinked hp (by omega) (by omega) hcall
  | binary m op lhs rhs =>
      obtain ⟨hlhs, hrhs⟩ := hlinked
      simp only [Expr.need] at hheight
      cases hcode with
      | and h₁ h₂ h₃ h₄ h₅ h₆ | or h₁ h₂ h₃ h₄ h₅ h₆ =>
          simp only [true_or, or_true, if_true] at hheight
          have hlt₁ := h₁.lt
          have hlt₂ := h₂.lt
          have hlt₃ := h₃.lt
          have hle₄ := h₄.le
          have hlt₅ := h₅.lt
          have hlt₆ := h₆.lt
          have hsecond : ∀ k, L.Ready B k ctx _ (h + 1) → L.Ready B k ctx _ h := fun k hk =>
            (expr hroom h₃ hrhs (hp.right (by omega)) (by omega) (by omega) hk).le (Nat.le_succ k)
          have hdecided := decision hroom h₂ hsecond h₄ h₅ h₆ (hp.right hlt₁) (by omega) hq (by omega)
            hnext
          exact expr hroom h₁ hlhs hp (by omega) (by omega) hdecided
      | binary hand hor h₁ h₂ hat =>
          simp only [hand, hor, or_self, if_false] at hheight
          have hone' := rhs.one_le_need
          have hlt₁ := h₁.lt
          have hlt₂ := h₂.lt
          have hlt₃ := hat.lt
          have hop := binary hroom hand hor hat (hp.right (by omega)) hq (by omega) hnext
          have hsecond := expr hroom h₂ hrhs (hp.right hlt₁) (by omega) (by omega) hop
          exact (expr hroom h₁ hlhs hp (by omega) (by omega) hsecond).le (by omega)
  | unary m op operand =>
      cases hcode with
      | folded _ hlit => exact literal hroom hlit hp hq (by omega) hnext
      | unary hnone h₁ hat =>
          simp only [Expr.need, hnone] at hheight
          have hlt₁ := h₁.lt
          have hlt₂ := hat.lt
          have hop := unary hroom hat (hp.right hlt₁) hq (by omega) hnext
          exact (expr hroom h₁ hlinked hp (by omega) (by omega) hop).le (by omega)
  | cast m typeName operand => cases hcode

theorem exprs {es : List Expr} {p q n h : Nat} (hroom : L.Room B ctx lo hi)
    (hcode : ExprsCode L es p q) (hlinked : Expr.AllLinked L.registry es) (hp : Inside lo p h) (hq : q ≤ hi)
    (hheight : h + Expr.needAll es ≤ B.height) (hnext : L.Ready B n ctx q (h + es.length)) :
    L.Ready B n ctx p h := by
  cases es with
  | nil =>
      cases hcode
      exact hnext
  | cons e rest =>
      cases hcode with
      | cons h₁ h₂ =>
          simp only [Expr.needAll] at hheight
          have hle := h₂.le
          have hlength : h + (e :: rest).length = h + 1 + rest.length := by
            simp only [List.length_cons]
            omega
          rw [hlength] at hnext
          have hrest := exprs hroom h₂ hlinked.2 (hp.right h₁.lt) hq (by omega) hnext
          exact (expr hroom h₁ hlinked.1 hp (by omega) (by omega) hrest).le (Nat.le_succ n)

end

end Layout.Ready

end HostScript
