import HostScript.Proofs.Semantics.Soundness
import HostScript.Proofs.Typing.Facts

namespace HostScript

-- Why a statement may stop at all. A fault is a usual one, where operands known to be numbers may
-- have been found out not to be any.
def Stop.Sane (strict : Bool) : Stop → Prop
  | .fault f => f.usual false = true
  | .mistyped _ => strict = true
  | .malformed => False
  | _ => True

-- Why a statement may stop where all values are what was recorded for them.
def Stop.Sound : Stop → Prop
  | .fault f => f.usual true = true
  | .leave | .again | .ret _ | .exit => True
  | _ => False

-- A stop that the loop around a statement takes in.
def Stop.Jumps : Stop → Prop
  | .leave | .again => True
  | _ => False

theorem Stop.sane_of_jumps {strict : Bool} {e : Stop} (h : e.Jumps) : e.Sane strict := by
  cases e <;> trivial

theorem Stop.sound_of_jumps {e : Stop} (h : e.Jumps) : e.Sound := by
  cases e <;> trivial

-- What holds of a statement in a loop when it stops: the loop is left for good, or its next round finds
-- the variables as `I` says.
def Stop.Within (E : Stop → Prop) (I : (String → Value) → Prop) (e : Stop) (σ : Store) : Prop :=
  E e ∨ (e.Jumps ∧ I σ.vars)

theorem Fault.usual_weaken {strict : Bool} {f : Fault} (h : f.usual strict = true) :
    f.usual false = true := by
  cases strict with
  | false => exact h
  | true =>
      unfold usual at h ⊢
      split at h
      · cases h
      · cases h
      · exact h

namespace Dialect

variable {D : Dialect} {R : Value → Ty → Prop} {E : Stop → Prop}

-- Nothing is said about values.
theorem reading_any (D : Dialect) :
    D.Reading (fun _ _ => True) (fun e => e.Sane D.strict ∧ ¬e.Jumps) where
  fault _ h := ⟨Fault.usual_weaken h, id⟩
  mistyped _ _ _ _ h _ := ⟨h, id⟩
  dynamic _ := trivial
  literal _ := trivial
  answers _ _ _ := trivial
  object _ _ := trivial
  operate h hop _ _ := (operate_gives D _ _ _ h hop).always
  operateOn h _ := (operateOn_gives D _ _ h).always

theorem conforms_literal (l : Literal) : (Value.ofLiteral l).conforms l.ty = true := by
  cases l <;> rfl

-- Values are what the types say.
theorem reading_conforms (hstrict : D.strict = true) (hE : ∀ e : Stop, e.Sound → ¬e.Jumps → E e) :
    D.Reading (fun v ty => v.conforms ty = true) E where
  fault f h := hE (.fault f) (by rwa [hstrict] at h) id
  mistyped _ _ _ h _ hnot := by simp [h] at hnot
  dynamic := Value.conforms_dynamic
  literal := conforms_literal
  answers _ _ h := h.conforms
  object _ _ := rfl
  operate h hop ha hb := (operate_gives D _ _ _ h hop).imp fun _ hv => hv hstrict ha hb
  operateOn h _ := (operateOn_gives D _ _ h).imp fun _ hv => hv hstrict

-- All that is said about values is which of them may be texts or objects.
theorem reading_refers (hstrict : D.strict = false) :
    D.Reading (fun v ty => v.isRef = true → ty.mayBeRef = true)
      (fun e => e.Sane false ∧ ¬e.Jumps ∧ e ≠ .stray) where
  fault _ h := ⟨Fault.usual_weaken h, id, nofun⟩
  mistyped _ _ _ _ h _ := by rw [hstrict] at h; cases h
  dynamic _ _ := rfl
  literal l h := by cases l <;> first | rfl | cases h
  answers v ty h href := by
    cases hty : ty.mayBeRef with
    | true => rfl
    | false => rw [Value.isRef_of_conforms h.conforms hty] at href; cases href
  object _ _ _ := rfl
  operate h hop ha hb := (operate_refers _ _ _ hstrict h hop).imp fun _ hv => hv ha hb
  operateOn _ _ := (operateOn_refers _ _ hstrict).imp fun _ hv href => absurd href (by simp [hv])

-- Ways to stop that are left open, because they are asked for or because a text or an object turns
-- up where its type does not allow one. A jump is none of them.
structure Control (R : Value → Ty → Prop) (E : Stop → Prop) : Prop where
  stays : ∀ e, E e → ¬e.Jumps
  exit : E .exit
  ret : ∀ v, E (.ret v)
  stray : ∀ v ty, R v ty → ty.mayBeRef = false → v.isRef = true → E .stray
  limit : ∀ v, R v .double → v.isRef = false → (∀ x, v ≠ .number x) → E (.fault .notNumbers)

-- A value of one type is one of another if the two compare.
structure Compares (R : Value → Ty → Prop) (le : Ty → Ty → Bool) : Prop where
  imp : ∀ v t u, le t u = true → R v t → R v u
  number : ∀ ty : Ty, ty.isNumeric = true → le ty .double = true

theorem control_any (strict : Bool) :
    Control (fun _ _ => True) (fun e => e.Sane strict ∧ ¬e.Jumps) where
  stays _ h := h.2
  exit := ⟨trivial, id⟩
  ret _ := ⟨trivial, id⟩
  stray _ _ _ _ _ := ⟨trivial, id⟩
  limit _ _ _ _ := ⟨rfl, id⟩

theorem compares_any : Compares (fun _ _ => True) (fun _ _ => true) :=
  ⟨fun _ _ _ _ _ => trivial, fun _ _ => rfl⟩

theorem control_conforms (hE : ∀ e : Stop, e.Sound → ¬e.Jumps → E e) (hstays : ∀ e, E e → ¬e.Jumps) :
    Control (fun v ty => v.conforms ty = true) E where
  stays := hstays
  exit := hE .exit trivial id
  ret v := hE (.ret v) trivial id
  stray v ty h hty href := by simp [Value.isRef_of_conforms h hty] at href
  limit v h _ hnot := by
    obtain ⟨x, rfl⟩ := Value.conforms_numeric h rfl
    exact absurd rfl (hnot x)

theorem compares_conforms : Compares (fun v ty => v.conforms ty = true) Ty.conformsTo where
  imp v t u hle h := by
    cases u with
    | dynamic => exact v.conforms_dynamic
    | _ => cases t <;> first | (cases hle; done) | (cases v <;> simp_all [Value.conforms])
  number ty hty := by cases ty <;> simp_all [Ty.isNumeric, Ty.conformsTo]

theorem control_refers : Control (fun v ty => v.isRef = true → ty.mayBeRef = true)
    (fun e => e.Sane false ∧ ¬e.Jumps ∧ e ≠ .stray) where
  stays _ h := h.2.1
  exit := ⟨trivial, id, nofun⟩
  ret _ := ⟨trivial, id, nofun⟩
  stray v ty h hty href := by rw [h href] at hty; cases hty
  limit _ _ _ _ := ⟨rfl, id, nofun⟩

theorem compares_refers :
    Compares (fun v ty => v.isRef = true → ty.mayBeRef = true) Ty.refersTo where
  imp v t u hle h href := by simpa [Ty.refersTo, h href] using hle
  number ty hty := by cases ty <;> simp_all [Ty.isNumeric, Ty.refersTo, Ty.mayBeRef]

-- Variables are what the facts tell.
def Hold (R : Value → Ty → Prop) (K : Facts) (vars : String → Value) : Prop :=
  ∀ x, R (vars x) (K x)

-- Whatever is written, of the types that are recorded for it, `I` stays true.
def Keeps (R : Value → Ty → Prop) (I : (String → Value) → Prop) (writes : List (String × Ty)) : Prop :=
  ∀ w ∈ writes, ∀ vars v, I vars → R v w.2 → I fun x => if x = w.1 then v else vars x

-- What holds at the head of a loop, whichever of its writes have happened, besides what the loop around
-- it relies on.
def AtHead (R : Value → Ty → Prop) (le : Ty → Ty → Bool) (K : Facts) (writes : List (String × Ty))
    (I : (String → Value) → Prop) (vars : String → Value) : Prop :=
  Hold R (K.widen le writes) vars ∧ I vars

section

variable {K K' : Facts} {vars : String → Value} {le : Ty → Ty → Bool} {I : (String → Value) → Prop}
  {writes writes' : List (String × Ty)}

theorem Keeps.mono (h : Keeps R I writes) (hsub : writes' ⊆ writes) : Keeps R I writes' :=
  fun w hw => h w (hsub hw)

section

variable {name : String} {ty : Ty} {v : Value} {vars' : String → Value}

theorem Keeps.written (h : Keeps R I writes) (hvars : I vars) (hw : (name, ty) ∈ writes) (hv : R v ty)
    (heq : vars' = fun x => if x = name then v else vars x) : I vars' :=
  heq ▸ h (name, ty) hw vars v hvars hv

theorem Hold.written (h : Hold R K vars) (hv : R v ty)
    (heq : vars' = fun x => if x = name then v else vars x) : Hold R (K.set name ty) vars' := by
  intro x
  rw [heq]
  by_cases hx : x = name
  · simpa [Facts.set, hx] using hv
  · simpa [Facts.set, hx] using h x

end

theorem Hold.right (hle : Compares R le) (h : Hold R K vars) {e : Expr}
    (he : e.Every (Expr.BorneOut le K)) : e.Every (Right R vars) := by
  refine he.imp fun e he => ?_
  cases e with
  | name m x => exact hle.imp _ _ _ he (h x)
  | _ => trivial

variable (hD : D.Reading R E) (hle : Compares R le)

include hD hle

theorem join_left {v : Value} {t u : Ty} (hv : R v t) : R v (t.join le u) := by
  unfold Ty.join
  split
  · exact hle.imp _ _ _ ‹_› hv
  · split
    · exact hv
    · exact hD.dynamic v

theorem join_right {v : Value} {t u : Ty} (hv : R v u) : R v (t.join le u) := by
  unfold Ty.join
  split
  · exact hv
  · split
    · exact hle.imp _ _ _ ‹_› hv
    · exact hD.dynamic v

theorem Hold.join_left (h : Hold R K vars) : Hold R (K.join le K') vars :=
  fun x => Dialect.join_left hD hle (h x)

theorem Hold.join_right (h : Hold R K' vars) : Hold R (K.join le K') vars :=
  fun x => Dialect.join_right hD hle (h x)

-- Types only get wider while writes are admitted.
theorem widen_keeps {name : String} {ty : Ty} {v : Value} (hv : R v ty) :
    R v (ty.widen le name writes) := by
  induction writes generalizing ty with
  | nil => exact hv
  | cons w rest ih =>
      refine ih ?_
      split
      · exact Dialect.join_left hD hle hv
      · exact hv

theorem widen_takes {name : String} {ty t : Ty} {v : Value} (hw : (name, t) ∈ writes) (hv : R v t) :
    R v (ty.widen le name writes) := by
  induction writes generalizing ty with
  | nil => cases hw
  | cons w rest ih =>
      rcases List.mem_cons.mp hw with rfl | hw
      · unfold Ty.widen
        rw [if_pos rfl]
        exact widen_keeps hD hle (Dialect.join_right hD hle hv)
      · exact ih hw

theorem Hold.widen (h : Hold R K vars) (writes : List (String × Ty)) :
    Hold R (K.widen le writes) vars :=
  fun x => widen_keeps hD hle (h x)

-- What admits some writes stays true whenever one of them happens.
theorem keeps_widen (K : Facts) (writes : List (String × Ty)) :
    Keeps R (Hold R (K.widen le writes)) writes := by
  rintro ⟨name, ty⟩ hw vars v hvars hv x
  by_cases hx : x = name
  · subst hx
    dsimp only
    rw [if_pos rfl]
    exact widen_takes hD hle hw hv
  · simpa [hx] using hvars x

theorem atHead_of_hold (h : Hold R K vars) (hI : I vars) (writes : List (String × Ty)) :
    AtHead R le K writes I vars :=
  ⟨h.widen hD hle writes, hI⟩

theorem keeps_atHead (K : Facts) (h : Keeps R I writes) :
    Keeps R (AtHead R le K writes I) writes :=
  fun w hw vars v hvars hv => ⟨keeps_widen hD hle K writes w hw vars v hvars.1 hv,
    h w hw vars v hvars.2 hv⟩

end

section

variable {Γ Γ' : TypeContext} {σ : Store} {α : Type}

theorem value_upholds {f : (String → Value) → Eval α} {P : α → Prop}
    (h : Eval.Ends E P (f σ.vars)) :
    Upholds (fun e _ => E e) (fun a σ' => P a ∧ σ'.vars = σ.vars) (Exec.value f σ) := by
  have hf := h σ.outside
  unfold Exec.value
  cases hresult : f σ.vars σ.outside with
  | ok a o =>
      rw [hresult] at hf
      exact ⟨hf, rfl⟩
  | error e o =>
      rw [hresult] at hf
      exact hf

-- A member that is there is found.
theorem value_member {β : Type} {members : Array β} {id : Nat} {fits : β → Bool} {d : β}
    (hd : members[id]? = some d) (hid : id < 4294967296) (hfits : fits d = true) :
    Exec.value (fun _ => Eval.member members id fits) = pure d := by
  funext σ
  simp [Exec.value, Eval.member, hd, hid, hfits, pure, EStateM.pure]

theorem perform_upholds (hD : D.Reading R E) {k : Calc α} {P : α → Prop} (h : k.Gives D.strict P) :
    Upholds (fun e _ => E e) (fun a σ' => P a ∧ σ'.vars = σ.vars) (Exec.perform k σ) :=
  value_upholds (calc_ends hD h)

theorem assign_upholds (hE : Control R E) {name : String} {ty : Ty} {v : Value} (hv : R v ty)
    (hholds : ty.mayBeRef = true → D.symbols.Holds name) :
    Upholds (fun e _ => E e) (fun _ σ' => σ'.vars = fun x => if x = name then v else σ.vars x)
      (D.assign name v σ) := by
  unfold Dialect.assign
  split
  · rfl
  · rename_i hnot
    simp only [Bool.or_eq_true, Bool.not_eq_true', not_or, Bool.not_eq_true,
      Bool.not_eq_false] at hnot
    refine hE.stray v ty hv ?_ hnot.2
    cases hty : ty.mayBeRef with
    | false => rfl
    | true =>
        rw [(hholds hty).mayHoldRef] at hnot
        cases hnot.1

variable (hD : D.Reading R E) {inLoop : Bool} {le : Ty → Ty → Bool} (hle : Compares R le) {K : Facts}

include hD hle

theorem change_upholds (how : Change) (htypes : how.Every (Expr.Consistent D.registry Γ))
    (hlinked : how.Linked D.registry) (hresolved : how.Every Expr.Resolved)
    (hborne : how.Every (Expr.BorneOut le K)) (hK : Hold R K σ.vars) :
    Upholds (fun e _ => E e) (fun b σ' => R b how.ty ∧ σ'.vars = σ.vars) (D.change inLoop how σ) := by
  cases how with
  | compound op value =>
      exact value_upholds (f := fun vars => D.eval inLoop vars value)
        (eval_ends hD value (hK.right hle hborne) htypes hlinked hresolved)
  | increment => exact ⟨hD.literal (.long 1), rfl⟩
  | decrement => exact ⟨hD.literal (.long 1), rfl⟩

-- A variable gets a value of the type that is recorded for it.
theorem execVar_upholds (hE : Control R E) {v : VarStmt} (h : v.Typed D.registry D.symbols Γ Γ')
    (hlinked : v.Linked D.registry) (hresolved : v.Every Expr.Resolved) (hborne : v.BorneOut le K)
    (hK : Hold R K σ.vars) :
    Upholds (fun e _ => E e)
      (fun _ σ' => ∃ y, R y v.write.2 ∧ σ'.vars = fun x => if x = v.write.1 then y else σ.vars x)
      (D.execVar inLoop v σ) := by
  cases h with
  | @declare offset name value htypes hvoid hholds =>
      refine (value_upholds
        (eval_ends hD value (hK.right hle hborne) htypes hlinked hresolved)).bind ?_
      rintro y σ₁ ⟨hy, hvars⟩
      exact (assign_upholds hE hy hholds).weaken fun _ _ h => ⟨y, hy, hvars ▸ h⟩
  | @update offset name how current result hcurrent htypes hresult hholds =>
      have hold : R (σ.vars name) current := hle.imp _ _ _ hborne.1 (hK name)
      refine (value_upholds (typed_ends hD hold)).bind ?_
      rintro a σ₁ ⟨ha, hvars₁⟩
      refine (change_upholds hD hle how htypes hlinked hresolved hborne.2 (hvars₁ ▸ hK)).bind ?_
      rintro b σ₂ ⟨hb, hvars₂⟩
      refine (perform_upholds hD (hD.operate hresult ⟨nofun, nofun⟩ ha hb)).bind ?_
      rintro x σ₃ ⟨hx, hvars₃⟩
      refine (value_upholds (typed_ends hD hx)).bind ?_
      rintro y σ₄ ⟨hy, hvars₄⟩
      have hvars : σ₄.vars = σ.vars := hvars₄.trans (hvars₃.trans (hvars₂.trans hvars₁))
      exact (assign_upholds hE hy hholds).weaken fun _ _ h => ⟨y, hy, hvars ▸ h⟩

theorem condition_upholds {test : Expr} (htypes : test.Every (Expr.Consistent D.registry Γ))
    (hlinked : test.Linked D.registry) (hresolved : test.Every Expr.Resolved)
    (hborne : test.Every (Expr.BorneOut le K)) (hK : Hold R K σ.vars) :
    Upholds (fun e _ => E e) (fun _ σ' => σ'.vars = σ.vars) (D.condition inLoop test σ) := by
  refine (value_upholds
    (eval_ends hD test (hK.right hle hborne) htypes hlinked hresolved)).bind ?_
  rintro x σ' ⟨-, hvars⟩
  exact (perform_upholds hD (Calc.asBool_gives x)).weaken fun _ _ h => h.2.trans hvars

theorem assignStmt_upholds {target value : Expr} (htarget : target.TargetConsistent D.registry Γ)
    (htypes : value.Every (Expr.Consistent D.registry Γ)) (hlinked : target.TargetLinked D.registry)
    (hlinked' : value.Linked D.registry) (hassigned : target.Assigned)
    (hresolved : value.Every Expr.Resolved) (hborne : target.TargetBorneOut le K)
    (hborne' : value.Every (Expr.BorneOut le K)) (hK : Hold R K σ.vars) :
    Upholds (fun e _ => E e) (fun _ σ' => σ'.vars = σ.vars) (D.execAssign inLoop target value σ) := by
  have hvalue : ∀ {σ₁ : Store}, σ₁.vars = σ.vars → Upholds (fun e _ => E e)
      (fun _ σ' => σ'.vars = σ.vars)
      (Exec.value (fun vars => D.eval inLoop vars value) σ₁) := fun hvars =>
    (value_upholds (eval_ends hD value (hvars ▸ hK.right hle hborne') htypes hlinked'
      hresolved)).weaken fun _ _ h => h.2.trans hvars
  have hstep : ∀ {β γ : Type} {k : Calc β} {f : β → Exec γ} {σ₁ : Store} {P : β → Prop},
      k.Gives D.strict P → σ₁.vars = σ.vars →
      (∀ b σ₂, σ₂.vars = σ.vars → Upholds (fun e _ => E e) (fun _ σ' => σ'.vars = σ.vars) (f b σ₂)) →
      Upholds (fun e _ => E e) (fun _ σ' => σ'.vars = σ.vars) ((Exec.perform k >>= f) σ₁) :=
    fun hk hvars hf => (perform_upholds hD hk).bind fun b σ₂ h => hf b σ₂ (h.2.trans hvars)
  have hlast : ∀ {k : Calc Unit} {σ₁ : Store} {P : Unit → Prop}, k.Gives D.strict P →
      σ₁.vars = σ.vars →
      Upholds (fun e _ => E e) (fun _ σ' => σ'.vars = σ.vars) (Exec.perform k σ₁) :=
    fun hk hvars => (perform_upholds hD hk).weaken fun _ _ h => h.2.trans hvars
  unfold Dialect.execAssign
  cases target with
  | static m name args binding =>
      cases binding with
      | property id =>
          obtain ⟨hid, d, hd⟩ := hlinked
          refine (hvalue rfl).bind fun v σ₁ h₁ => ?_
          rw [value_member hd hid rfl, pure_bind]
          refine hstep (check_gives D d.ty value.ty v).always h₁ fun _ σ₂ h₂ => ?_
          refine hstep (Calc.setterOf_gives d) h₂ fun set σ₃ h₃ => ?_
          exact hlast (Calc.writeStatic_gives set v) h₃
      | _ => exact hassigned.elim
  | member m owner name args binding =>
      have howner : ∀ hr : owner.Every Expr.Resolved, Upholds (fun e _ => E e)
          (fun _ σ' => σ'.vars = σ.vars)
          (Exec.value (fun vars => D.eval inLoop vars owner) σ) := fun hr =>
        (value_upholds (eval_ends hD owner (hK.right hle hborne) htarget hlinked.2 hr)).weaken
          fun _ _ h => h.2
      cases binding with
      | property id =>
          obtain ⟨hid, d, hd⟩ := hlinked.1
          refine (howner hassigned).bind fun object σ₁ h₁ => (hvalue h₁).bind fun v σ₂ h₂ => ?_
          dsimp only
          rw [value_member hd hid rfl, pure_bind]
          refine hstep (check_gives D d.ty value.ty v).always h₂ fun _ σ₃ h₃ => ?_
          refine hstep (Calc.setterOf_gives d) h₃ fun set σ₄ h₄ => ?_
          exact hlast (Calc.writeProperty_gives d set object v) h₄
      | dynamic =>
          refine (howner hassigned).bind fun object σ₁ h₁ => (hvalue h₁).bind fun v σ₂ h₂ => ?_
          exact hlast (Calc.writeNamed_gives D.registry name object v) h₂
      | _ => exact hassigned.elim
  | _ => exact hassigned.elim

end

-- What a loop is made of keeps `I` and stops as its parts do.
section

variable {σ : Store} {F : Stop → Store → Prop} {I : (String → Value) → Prop}

theorem goesOn_upholds {body : Exec Unit} (hstays : ∀ e, E e → ¬e.Jumps)
    (h : Upholds (Stop.Within E I) (fun _ σ' => I σ'.vars) (body σ)) :
    Upholds (fun e _ => E e) (fun _ σ' => I σ'.vars) (Exec.goesOn body σ) := by
  unfold Exec.goesOn
  cases hresult : body σ with
  | ok _ σ' =>
      rw [hresult] at h
      exact h
  | error e σ' =>
      rw [hresult] at h
      rcases h with hstop | ⟨hjumps, hI⟩
      · cases e with
        | leave => exact absurd trivial (hstays _ hstop)
        | again => exact absurd trivial (hstays _ hstop)
        | _ => exact hstop
      · cases e with
        | leave => exact hI
        | again => exact hI
        | _ => exact hjumps.elim

theorem repeatWhile_upholds {round : Exec Bool} (hlasts : ∀ σ, F .outOfFuel σ)
    (h : ∀ σ, I σ.vars → Upholds F (fun _ σ' => I σ'.vars) (round σ)) (n : Nat) (hσ : I σ.vars) :
    Upholds F (fun _ σ' => I σ'.vars) (Exec.repeatWhile round n σ) := by
  induction n generalizing σ with
  | zero => exact hlasts σ
  | succ n ih =>
      refine (h σ hσ).bind fun more σ' hσ' => ?_
      cases more with
      | true => exact ih hσ'
      | false => exact hσ'

theorem countUp_upholds {limit : Float} {round : Float → Exec Bool} (hlasts : ∀ σ, F .outOfFuel σ)
    (h : ∀ i σ, I σ.vars → Upholds F (fun _ σ' => I σ'.vars) (round i σ)) (n : Nat) (i : Float)
    (hσ : I σ.vars) : Upholds F (fun _ σ' => I σ'.vars) (Exec.countUp limit round n i σ) := by
  induction n generalizing σ i with
  | zero => exact hlasts σ
  | succ n ih =>
      unfold Exec.countUp
      split
      · refine (h i σ hσ).bind fun more σ' hσ' => ?_
        cases more with
        | true => exact ih _ hσ'
        | false => exact hσ'
      · exact hσ

theorem times_upholds {body : Exec Unit}
    (h : ∀ σ, I σ.vars → Upholds F (fun _ σ' => I σ'.vars) (body σ)) (n : Nat) (hσ : I σ.vars) :
    Upholds F (fun _ σ' => I σ'.vars) (Exec.times body n σ) := by
  induction n generalizing σ with
  | zero => exact hσ
  | succ n ih => exact (h σ hσ).bind fun _ _ hσ' => ih hσ'

end

section

variable {σ : Store} {le : Ty → Ty → Bool} (hD : D.Reading R E)

include hD

theorem round_upholds {Γ : TypeContext} {K : Facts} {I : (String → Value) → Prop} {test : Expr}
    {go : Exec Bool} (hle : Compares R le) (htypes : test.Every (Expr.Consistent D.registry Γ))
    (hlinked : test.Linked D.registry) (hresolved : test.Every Expr.Resolved)
    (hborne : test.Every (Expr.BorneOut le K)) (hK : Hold R K σ.vars) (hσ : I σ.vars)
    (hgo : ∀ σ₁ : Store, I σ₁.vars → Upholds (fun e _ => E e) (fun _ σ' => I σ'.vars) (go σ₁)) :
    Upholds (fun e _ => E e) (fun _ σ' => I σ'.vars)
      ((do if ← D.condition true test then go else return false : Exec Bool) σ) := by
  refine (condition_upholds hD hle htypes hlinked hresolved hborne hK).bind fun b σ₁ h₁ => ?_
  have hσ₁ : I σ₁.vars := h₁ ▸ hσ
  cases b with
  | true => exact hgo σ₁ hσ₁
  | false => exact hσ₁

-- The number of items is a number, or has been checked to be one.
theorem itemCount_upholds {how : Iteration} (hlinked : how.Linked D.registry)
    (hresolved : how ≠ .unresolved) (hle : Compares R le)
    (hnumber : le (how.countTy D.registry) .double = true) (source : Value) :
    Upholds (fun e _ => E e) (fun v σ' => R v .double ∧ σ'.vars = σ.vars)
      (D.itemCount how source σ) := by
  unfold itemCount
  cases how with
  | members count getItem =>
      obtain ⟨hid, d, hd⟩ := hlinked.1
      dsimp only
      rw [value_member hd hid rfl, pure_bind]
      have hty : le d.ty .double = true := by
        simpa [Iteration.countTy, hd] using hnumber
      refine (perform_upholds hD (Calc.getterOf_gives d)).bind fun get σ₁ h₁ => ?_
      refine (perform_upholds hD (Calc.readProperty_gives _ d get source)).weaken fun v _ h₂ => ?_
      exact ⟨hle.imp _ _ _ hty (hD.answers v d.ty h₂.1), h₂.2.trans h₁.2⟩
  | dynamic =>
      refine (perform_upholds hD (Calc.named_gives _ "count"
        (Calc.readNamed_gives _ "count" source))).bind fun v σ₁ h₁ => ?_
      refine (perform_upholds hD (Calc.require_gives _ .double v)).bind fun _ σ₂ h₂ => ?_
      exact ⟨hD.answers v .double (.inr h₂.1), h₂.2.trans h₁.2⟩
  | unresolved => exact absurd rfl hresolved

theorem itemAt_upholds {how : Iteration} (hlinked : how.Linked D.registry)
    (hresolved : how ≠ .unresolved) (source : Value) (i : Float) :
    Upholds (fun e _ => E e) (fun v σ' => R v (how.itemTy D.registry) ∧ σ'.vars = σ.vars)
      (D.itemAt how source i σ) := by
  unfold itemAt
  cases how with
  | members count getItem =>
      obtain ⟨hid, d, hd, hcount⟩ := hlinked.2
      dsimp only
      rw [value_member hd hid (by simp [hcount]), pure_bind]
      have hty : Iteration.itemTy D.registry (.members count getItem) = d.returns := by
        simp [Iteration.itemTy, hd]
      rw [hty]
      exact (perform_upholds hD (Calc.callMethod_gives _ d source _)).weaken fun v _ h =>
        ⟨hD.answers v d.returns h.1, h.2⟩
  | dynamic =>
      exact (perform_upholds hD (Calc.named_gives _ "getitem"
        (Calc.callNamed_gives _ "getitem" source _))).weaken fun v _ h => ⟨hD.dynamic v, h.2⟩
  | unresolved => exact absurd rfl hresolved

theorem machineRounds_upholds {count : Expr} {P : Value → Prop}
    (hvalue : Upholds (fun e _ => E e) (fun v σ' => P v ∧ σ'.vars = σ.vars)
      (Exec.value (fun vars => D.eval true vars count) σ)) :
    Upholds (fun e _ => E e) (fun _ σ' => σ'.vars = σ.vars) (D.machineRounds count σ) := by
  unfold machineRounds
  cases Emit.literalCount? count with
  | some n => rfl
  | none =>
      refine hvalue.bind fun v σ₁ h₁ => ?_
      refine (perform_upholds hD (check_gives D .double count.ty v)).bind fun _ σ₂ h₂ => ?_
      refine (perform_upholds hD (Calc.asCount_gives v)).bind fun _ σ₃ h₃ => ?_
      exact h₃.2.trans (h₂.2.trans h₁.2)

-- The number of rounds is a number, too.
theorem roundCount_upholds {count : Expr} (hle : Compares R le)
    (hnumber : count.ty.mayBeNumber = true)
    (hvalue : Upholds (fun e _ => E e) (fun v σ' => R v count.ty ∧ σ'.vars = σ.vars)
      (Exec.value (fun vars => D.eval true vars count) σ)) :
    Upholds (fun e _ => E e) (fun v σ' => R v .double ∧ σ'.vars = σ.vars) (D.roundCount count σ) := by
  refine hvalue.bind fun v σ₁ h₁ => ?_
  refine (perform_upholds hD (check_gives D .double count.ty v)).bind fun _ σ₂ h₂ => ?_
  refine ⟨?_, h₂.2.trans h₁.2⟩
  cases hty : count.ty with
  | long => exact hle.imp _ _ _ (hle.number .long rfl) (hty ▸ h₁.1)
  | double => exact hty ▸ h₁.1
  | dynamic => exact hD.answers v .double (.inr (h₂.1 (by rw [hty]; rfl)))
  | _ =>
      rw [hty] at hnumber
      cases hnumber

omit hD in
theorem limit_upholds (hE : Control R E) {v : Value} (hv : R v .double) :
    Upholds (fun e _ => E e) (fun _ σ' => σ'.vars = σ.vars) (limit v σ) := by
  unfold limit
  split
  · rfl
  · rename_i hnot
    split
    · exact hE.stray v .double hv rfl ‹_›
    · rename_i href
      exact hE.limit v hv (by simpa using href) hnot

end

-- What does not jump does so within any loop.
theorem within_loop {α : Type} {I : (String → Value) → Prop} {Q : α → Store → Prop}
    {result : EStateM.Result Stop Store α} (h : Upholds (fun e _ => E e) Q result) :
    Upholds (Stop.Within E I) Q result :=
  h.imp (fun _ _ => .inl) fun _ _ hQ => hQ

-- A body keeps whatever its writes keep, wherever the facts in front of it hold.
def Rounds (D : Dialect) (R : Value → Ty → Prop) (E : Stop → Prop) (K : Facts)
    (body : List Stmt) : Prop :=
  ∀ J : (String → Value) → Prop, Keeps R J (Stmt.allWrites D.registry body) → ∀ σ : Store,
    Hold R K σ.vars → J σ.vars →
      Upholds (Stop.Within E J) (fun _ σ' => J σ'.vars) (D.execAll true body σ)

section

variable {Γ : TypeContext} {K : Facts} {I : (String → Value) → Prop} {σ : Store}
  {le : Ty → Ty → Bool} {inLoop : Bool} {offset : Nat} {test : Expr} {body : List Stmt}
  (hD : D.Reading R E) (hE : Control R E) (hle : Compares R le)

include hD hle

-- Whichever way a conditional goes, what is known behind both ways is known behind it.
theorem branch_upholds {go other : Exec Unit} {K₁ K₂ : Facts}
    (htypes : test.Every (Expr.Consistent D.registry Γ)) (hlinked : test.Linked D.registry)
    (hresolved : test.Every Expr.Resolved) (hborne : test.Every (Expr.BorneOut le K))
    (hgo : ∀ σ₁ : Store, Hold R K σ₁.vars → I σ₁.vars →
      Upholds (Stop.Within E I) (fun _ σ' => Hold R K₁ σ'.vars ∧ I σ'.vars) (go σ₁))
    (hother : ∀ σ₁ : Store, Hold R K σ₁.vars → I σ₁.vars →
      Upholds (Stop.Within E I) (fun _ σ' => Hold R K₂ σ'.vars ∧ I σ'.vars) (other σ₁))
    (hK : Hold R K σ.vars) (hσ : I σ.vars) :
    Upholds (Stop.Within E I) (fun _ σ' => Hold R (K₁.join le K₂) σ'.vars ∧ I σ'.vars)
      ((do if ← D.condition inLoop test then go else other : Exec Unit) σ) := by
  refine (within_loop (condition_upholds hD hle htypes hlinked hresolved hborne hK)).bind
    fun taken σ₁ h₁ => ?_
  have hK₁ : Hold R K σ₁.vars := h₁ ▸ hK
  have hσ₁ : I σ₁.vars := h₁ ▸ hσ
  cases taken with
  | true => exact (hgo σ₁ hK₁ hσ₁).weaken fun _ _ h => ⟨h.1.join_left hD hle, h.2⟩
  | false => exact (hother σ₁ hK₁ hσ₁).weaken fun _ _ h => ⟨h.1.join_right hD hle, h.2⟩

include hE

theorem whileLoop_upholds (htest : test.Every (Expr.Consistent D.registry Γ))
    (hlinked : (Stmt.whileLoop offset test body).Linked D.registry)
    (hsettled : (Stmt.whileLoop offset test body).Settled)
    (hborne : (Stmt.whileLoop offset test body).BorneOut le D.registry K) (hlasts : E .outOfFuel)
    (hI : Keeps R I (Stmt.allWrites D.registry body))
    (hbody : D.Rounds R E (K.widen le (Stmt.allWrites D.registry body)) body)
    (hK : Hold R K σ.vars) (hσ : I σ.vars) :
    Upholds (Stop.Within E I)
      (fun _ σ' => AtHead R le K (Stmt.allWrites D.registry body) I σ'.vars)
      (D.exec inLoop (.whileLoop offset test body) σ) := by
  unfold exec
  refine within_loop (repeatWhile_upholds (fun _ => hlasts) (fun σ₁ h₁ => ?_) D.rounds
    (atHead_of_hold hD hle hK hσ _))
  refine round_upholds hD hle htest hlinked.1 hsettled.1 hborne.1 h₁.1 h₁ fun σ₂ h₂ => ?_
  exact goesOn_upholds hE.stays (hbody _ (keeps_atHead hD hle K hI) σ₂ h₂.1 h₂)

-- The first assignment happens in front of the head, the last one of a round behind its body.
theorem forLoop_upholds {Γ₁ Γ₁' Γ₂ Γ₂' : TypeContext} {init step : VarStmt}
    (hinit : init.Typed D.registry D.symbols Γ₁ Γ₁')
    (htest : test.Every (Expr.Consistent D.registry Γ))
    (hstep : step.Typed D.registry D.symbols Γ₂ Γ₂')
    (hlinked : (Stmt.forLoop offset init test step body).Linked D.registry)
    (hsettled : (Stmt.forLoop offset init test step body).Settled)
    (hborne : (Stmt.forLoop offset init test step body).BorneOut le D.registry K)
    (hlasts : E .outOfFuel)
    (hI : Keeps R I (init.write :: step.write :: Stmt.allWrites D.registry body))
    (hbody : D.Rounds R E ((K.set init.write.1 init.write.2).widen le
      (step.write :: Stmt.allWrites D.registry body)) body)
    (hK : Hold R K σ.vars) (hσ : I σ.vars) :
    Upholds (Stop.Within E I)
      (fun _ σ' => AtHead R le (K.set init.write.1 init.write.2)
        (step.write :: Stmt.allWrites D.registry body) I σ'.vars)
      (D.exec inLoop (.forLoop offset init test step body) σ) := by
  obtain ⟨hlinit, hltest, hlstep, -⟩ := hlinked
  obtain ⟨hsinit, hstest, hsstep, -⟩ := hsettled
  obtain ⟨hbinit, hbtest, hbstep, -⟩ := hborne
  have hkeeps := keeps_atHead hD hle (K.set init.write.1 init.write.2)
    (hI.mono (List.subset_cons_self _ _))
  unfold exec
  refine (within_loop (execVar_upholds hD hle hE hinit hlinit hsinit hbinit hK)).bind ?_
  rintro _ σ₀ ⟨y, hy, hvars⟩
  have hσ₀ : I σ₀.vars := hI.written hσ (List.mem_cons_self ..) hy hvars
  refine within_loop (repeatWhile_upholds (fun _ => hlasts) (fun σ₁ h₁ => ?_) D.rounds
    (atHead_of_hold hD hle (hK.written hy hvars) hσ₀ _))
  refine round_upholds hD hle htest hltest hstest hbtest h₁.1 h₁ fun σ₂ h₂ => ?_
  refine (goesOn_upholds hE.stays (hbody _ (hkeeps.mono (List.subset_cons_self _ _)) σ₂ h₂.1
    h₂)).bind fun more σ₃ h₃ => ?_
  cases more with
  | true =>
      refine (execVar_upholds hD hle hE hstep hlstep hsstep hbstep h₃.1).bind ?_
      rintro _ σ₄ ⟨z, hz, hvars₄⟩
      exact hkeeps.written h₃ (List.mem_cons_self ..) hz hvars₄
  | false => exact h₃

-- The item is written anew in every round, so the body finds it as the walk gives it.
theorem eachLoop_upholds {item : String} {source : Expr} {how : Iteration}
    (hsource : source.Every (Expr.Consistent D.registry Γ))
    (hholds : (how.itemTy D.registry).mayBeRef = true → D.symbols.Holds item)
    (hlinked : (Stmt.eachLoop offset item source body how).Linked D.registry)
    (hsettled : (Stmt.eachLoop offset item source body how).Settled)
    (hborne : (Stmt.eachLoop offset item source body how).BorneOut le D.registry K)
    (hlasts : E .outOfFuel)
    (hI : Keeps R I ((item, how.itemTy D.registry) :: Stmt.allWrites D.registry body))
    (hbody : D.Rounds R E ((K.widen le ((item, how.itemTy D.registry) ::
      Stmt.allWrites D.registry body)).set item (how.itemTy D.registry)) body)
    (hK : Hold R K σ.vars) (hσ : I σ.vars) :
    Upholds (Stop.Within E I)
      (fun _ σ' => AtHead R le K
        ((item, how.itemTy D.registry) :: Stmt.allWrites D.registry body) I σ'.vars)
      (D.exec inLoop (.eachLoop offset item source body how) σ) := by
  obtain ⟨hlhow, hlsource, -⟩ := hlinked
  obtain ⟨hssource, hshow, -⟩ := hsettled
  obtain ⟨hbsource, hnumber, -⟩ := hborne
  have hkeeps := keeps_atHead hD hle K hI
  unfold exec
  refine (within_loop (value_upholds (eval_ends hD source (hK.right hle hbsource) hsource
    hlsource hssource))).bind fun object σ₁ h₁ => ?_
  refine (within_loop (itemCount_upholds hD hlhow hshow hle hnumber object)).bind
    fun top σ₂ h₂ => ?_
  refine (within_loop (limit_upholds hE h₂.1)).bind fun limit σ₃ h₃ => ?_
  have hvars : σ₃.vars = σ.vars := h₃.trans (h₂.2.trans h₁.2)
  refine within_loop (countUp_upholds (fun _ => hlasts) (fun i σ₄ h₄ => ?_) D.rounds _
    (hvars ▸ atHead_of_hold hD hle hK hσ
      ((item, how.itemTy D.registry) :: Stmt.allWrites D.registry body)))
  refine (itemAt_upholds hD hlhow hshow object i).bind fun v σ₅ h₅ => ?_
  refine (assign_upholds hE h₅.1 hholds).bind fun _ σ₆ h₆ => ?_
  rw [h₅.2] at h₆
  exact goesOn_upholds hE.stays (hbody _ (hkeeps.mono (List.subset_cons_self _ _)) σ₆
    (h₄.1.written h₅.1 h₆) (hkeeps.written h₄ (List.mem_cons_self ..) h₅.1 h₆))

-- The machine counts the rounds itself, or a hidden variable does.
theorem countLoop_upholds {count : Expr} (hcount : count.Every (Expr.Consistent D.registry Γ))
    (hnumber : count.ty.mayBeNumber = true)
    (hlinked : (Stmt.countLoop offset count body).Linked D.registry)
    (hsettled : (Stmt.countLoop offset count body).Settled)
    (hborne : (Stmt.countLoop offset count body).BorneOut le D.registry K) (hlasts : E .outOfFuel)
    (hI : Keeps R I (Stmt.allWrites D.registry body))
    (hbody : D.Rounds R E (K.widen le (Stmt.allWrites D.registry body)) body)
    (hK : Hold R K σ.vars) (hσ : I σ.vars) :
    Upholds (Stop.Within E I)
      (fun _ σ' => AtHead R le K (Stmt.allWrites D.registry body) I σ'.vars)
      (D.exec inLoop (.countLoop offset count body) σ) := by
  have hstart := atHead_of_hold hD hle hK hσ (Stmt.allWrites D.registry body)
  have hround : ∀ σ₁ : Store, AtHead R le K (Stmt.allWrites D.registry body) I σ₁.vars →
      Upholds (Stop.Within E (AtHead R le K (Stmt.allWrites D.registry body) I))
        (fun _ σ' => AtHead R le K (Stmt.allWrites D.registry body) I σ'.vars)
        (D.execAll true body σ₁) := fun σ₁ h₁ => hbody _ (keeps_atHead hD hle K hI) σ₁ h₁.1 h₁
  have hvalue := value_upholds (σ := σ) (f := fun vars => D.eval true vars count)
    (eval_ends hD count (hK.right hle hborne.1) hcount hlinked.1 hsettled.1)
  unfold exec
  split
  · refine (within_loop (machineRounds_upholds hD hvalue)).bind fun n σ₁ h₁ => ?_
    exact (times_upholds hround n (h₁ ▸ hstart)).imp
      (fun e σ₂ hstop => hstop.imp_right fun h => ⟨h.1, h.2.2⟩) fun _ _ h => h
  · refine (within_loop (roundCount_upholds hD hle hnumber hvalue)).bind fun top σ₁ h₁ => ?_
    refine (within_loop (limit_upholds hE h₁.1)).bind fun limit σ₂ h₂ => ?_
    exact within_loop (countUp_upholds (fun _ => hlasts)
      (fun i σ₃ h₃ => goesOn_upholds hE.stays (hround σ₃ h₃)) D.rounds _
      (h₂.trans h₁.2 ▸ hstart))

end

mutual

-- A statement whose recorded types are borne out stops as `E` says or jumps, or leaves the variables as
-- the facts behind it tell. Whatever no write in it can break stays true, also at a jump.
theorem exec_upholds {D : Dialect} {R : Value → Ty → Prop} {E : Stop → Prop} {le : Ty → Ty → Bool}
    (hD : D.Reading R E) (hE : Control R E) (hle : Compares R le) {inLoop : Bool} {Γ Γ' : TypeContext}
    {K : Facts} {I : (String → Value) → Prop} (s : Stmt) (h : s.Typed D.registry D.symbols Γ Γ')
    (hlinked : s.Linked D.registry) (hsettled : s.Settled) (hborne : s.BorneOut le D.registry K)
    (hlasts : s.LoopFree ∨ E .outOfFuel) (hI : Keeps R I (s.writes D.registry)) {σ : Store}
    (hK : Hold R K σ.vars) (hσ : I σ.vars) :
    Upholds (Stop.Within E I) (fun _ σ' => Hold R (s.after le D.registry K) σ'.vars ∧ I σ'.vars)
      (D.exec inLoop s σ) := by
  cases s with
  | «using» offset ns => cases h
  | input offset name typeName declared => cases h
  | func offset name params body => cases h
  | var v =>
      cases h with
      | var hv =>
          unfold exec
          refine (within_loop (execVar_upholds hD hle hE hv hlinked hsettled hborne hK)).weaken ?_
          rintro _ σ' ⟨y, hy, hvars⟩
          exact ⟨hK.written hy hvars, hI.written hσ (List.mem_singleton_self _) hy hvars⟩
  | cond offset test body rest =>
      cases h with
      | cond htest hbool hbody hrest =>
          unfold exec
          exact branch_upholds hD hle htest hlinked.1 hsettled.1 hborne.1
            (fun _ => execAll_upholds hD hE hle body hbody hlinked.2.1 hsettled.2.1 hborne.2.1
              (hlasts.imp_left And.left) (hI.mono (List.subset_append_left _ _)))
            (fun _ => execBranches_upholds hD hE hle rest hrest hlinked.2.2 hsettled.2.2 hborne.2.2
              (hlasts.imp_left And.right) (hI.mono (List.subset_append_right _ _))) hK hσ
  | leave offset => exact .inr ⟨trivial, hσ⟩
  | again offset => exact .inr ⟨trivial, hσ⟩
  | exit offset => exact .inl hE.exit
  | ret offset value =>
      cases h with
      | ret htypes =>
          cases value with
          | none => exact .inl (hE.ret .null)
          | some e =>
              unfold exec
              refine (within_loop (value_upholds (eval_ends hD e (hK.right hle (hborne e rfl))
                (htypes e rfl) (hlinked e rfl) (hsettled e rfl)))).bind fun v σ₁ _ => ?_
              exact .inl (hE.ret v)
  | call offset target =>
      cases h with
      | call htypes =>
          unfold exec
          refine (within_loop (value_upholds
            (eval_ends hD target (hK.right hle hborne) htypes hlinked hsettled))).bind ?_
          rintro v σ₁ ⟨-, hvars⟩
          have hdone : Hold R K σ₁.vars ∧ I σ₁.vars := hvars ▸ ⟨hK, hσ⟩
          exact hdone
  | assign offset target value =>
      cases h with
      | assign htarget htypes =>
          unfold exec
          exact (within_loop (assignStmt_upholds hD hle htarget htypes hlinked.1 hlinked.2 hsettled.1
            hsettled.2 hborne.1 hborne.2 hK)).weaken fun _ _ hvars => hvars ▸ ⟨hK, hσ⟩
  | whileLoop offset test body =>
      have hlasts : E .outOfFuel := hlasts.resolve_left id
      cases h with
      | whileLoop htest hbool hbody =>
          exact whileLoop_upholds hD hE hle htest hlinked hsettled hborne hlasts hI
            (fun _ hkeeps _ h₁ hJ => (execAll_upholds hD hE hle body hbody hlinked.2 hsettled.2
              hborne.2 (.inr hlasts) hkeeps h₁ hJ).weaken fun _ _ h => h.2) hK hσ
  | forLoop offset init test step body =>
      have hlasts : E .outOfFuel := hlasts.resolve_left id
      cases h with
      | forLoop hinit htest hbool hbody hstep =>
          exact forLoop_upholds hD hE hle hinit htest hstep hlinked hsettled hborne hlasts hI
            (fun _ hkeeps _ h₁ hJ => (execAll_upholds hD hE hle body hbody hlinked.2.2.2
              hsettled.2.2.2 hborne.2.2.2 (.inr hlasts) hkeeps h₁ hJ).weaken fun _ _ h => h.2) hK hσ
  | eachLoop offset item source body how =>
      have hlasts : E .outOfFuel := hlasts.resolve_left id
      cases h with
      | eachLoop hsource hwalks hholds hbody =>
          rw [← hwalks.itemTy_eq hlinked.1] at hholds
          exact eachLoop_upholds hD hE hle hsource hholds hlinked hsettled hborne hlasts hI
            (fun _ hkeeps _ h₁ hJ => (execAll_upholds hD hE hle body hbody hlinked.2.2
              hsettled.2.2 hborne.2.2 (.inr hlasts) hkeeps h₁ hJ).weaken fun _ _ h => h.2) hK hσ
  | countLoop offset count body =>
      have hlasts : E .outOfFuel := hlasts.resolve_left id
      cases h with
      | countLoop hcount hnumber hbody =>
          exact countLoop_upholds hD hE hle hcount hnumber hlinked hsettled hborne hlasts hI
            (fun _ hkeeps _ h₁ hJ => (execAll_upholds hD hE hle body hbody hlinked.2 hsettled.2
              hborne.2 (.inr hlasts) hkeeps h₁ hJ).weaken fun _ _ h => h.2) hK hσ

theorem execAll_upholds {D : Dialect} {R : Value → Ty → Prop} {E : Stop → Prop} {le : Ty → Ty → Bool}
    (hD : D.Reading R E) (hE : Control R E) (hle : Compares R le) {inLoop : Bool} {Γ Γ' : TypeContext}
    {K : Facts} {I : (String → Value) → Prop} (ss : List Stmt)
    (h : Stmt.AllTyped D.registry D.symbols Γ ss Γ') (hlinked : Stmt.AllLinked D.registry ss)
    (hsettled : Stmt.AllSettled ss) (hborne : Stmt.AllBorneOut le D.registry K ss)
    (hlasts : Stmt.AllLoopFree ss ∨ E .outOfFuel) (hI : Keeps R I (Stmt.allWrites D.registry ss))
    {σ : Store} (hK : Hold R K σ.vars) (hσ : I σ.vars) :
    Upholds (Stop.Within E I)
      (fun _ σ' => Hold R (Stmt.allAfter le D.registry K ss) σ'.vars ∧ I σ'.vars)
      (D.execAll inLoop ss σ) := by
  cases ss with
  | nil =>
      unfold execAll
      exact ⟨hK, hσ⟩
  | cons s rest =>
      cases h with
      | cons hs hrest =>
          unfold execAll
          refine (exec_upholds hD hE hle s hs hlinked.1 hsettled.1 hborne.1 (hlasts.imp_left And.left)
            (hI.mono (List.subset_append_left _ _)) hK hσ).bind fun _ σ₁ h₁ => ?_
          exact execAll_upholds hD hE hle rest hrest hlinked.2 hsettled.2 hborne.2
            (hlasts.imp_left And.right) (hI.mono (List.subset_append_right _ _)) h₁.1 h₁.2

theorem execBranches_upholds {D : Dialect} {R : Value → Ty → Prop} {E : Stop → Prop}
    {le : Ty → Ty → Bool} (hD : D.Reading R E) (hE : Control R E) (hle : Compares R le)
    {inLoop : Bool} {Γ Γ' : TypeContext} {K : Facts} {I : (String → Value) → Prop} (b : Branches)
    (h : Stmt.BranchesTyped D.registry D.symbols Γ b Γ') (hlinked : Stmt.BranchesLinked D.registry b)
    (hsettled : Stmt.BranchesSettled b) (hborne : Stmt.BranchesBorneOut le D.registry K b)
    (hlasts : Stmt.BranchesLoopFree b ∨ E .outOfFuel)
    (hI : Keeps R I (Stmt.branchesWrites D.registry b)) {σ : Store} (hK : Hold R K σ.vars)
    (hσ : I σ.vars) :
    Upholds (Stop.Within E I)
      (fun _ σ' => Hold R (Stmt.branchesAfter le D.registry K b) σ'.vars ∧ I σ'.vars)
      (D.execBranches inLoop b σ) := by
  cases b with
  | done =>
      cases h
      unfold execBranches
      exact ⟨hK, hσ⟩
  | otherwise body =>
      cases h with
      | otherwise hbody =>
          unfold execBranches
          exact execAll_upholds hD hE hle body hbody hlinked hsettled hborne hlasts hI hK hσ
  | elseIf test body rest =>
      cases h with
      | elseIf htest hbool hbody hrest =>
          unfold execBranches
          exact branch_upholds hD hle htest hlinked.1 hsettled.1 hborne.1
            (fun _ => execAll_upholds hD hE hle body hbody hlinked.2.1 hsettled.2.1 hborne.2.1
              (hlasts.imp_left And.left) (hI.mono (List.subset_append_left _ _)))
            (fun _ => execBranches_upholds hD hE hle rest hrest hlinked.2.2 hsettled.2.2 hborne.2.2
              (hlasts.imp_left And.right) (hI.mono (List.subset_append_right _ _))) hK hσ

end

-- A whole script. Imports and inputs do nothing while it is carried out.
theorem script_upholds {D : Dialect} {R : Value → Ty → Prop} {E : Stop → Prop} {le : Ty → Ty → Bool}
    (hD : D.Reading R E) (hE : Control R E) (hle : Compares R le) {Γ Γ' : TypeContext} {K : Facts}
    {script : Script} (h : script.Typed D.registry D.symbols Γ Γ')
    (hlinked : Stmt.AllLinked D.registry script) (hsettled : Stmt.AllSettled script)
    (hborne : Stmt.AllBorneOut le D.registry K script)
    (hlasts : Stmt.AllLoopFree script ∨ E .outOfFuel) {σ : Store} (hK : Hold R K σ.vars) :
    Upholds (fun e _ => E e ∨ e.Jumps)
      (fun _ σ' => Hold R (Stmt.allAfter le D.registry K script) σ'.vars)
      (D.execAll false script σ) := by
  induction h with
  | «using» hrest ih => exact ih hlinked.2 hsettled.2 hborne.2 (hlasts.imp_left And.right)
  | input hholds hrest ih => exact ih hlinked.2 hsettled.2 hborne.2 (hlasts.imp_left And.right)
  | body hbody =>
      exact (execAll_upholds (I := fun _ => True) hD hE hle _ hbody hlinked hsettled hborne hlasts
        (fun _ _ _ _ _ _ => trivial) hK trivial).imp (fun _ _ => Or.imp_right And.left)
          fun _ _ h => h.1

end Dialect

end HostScript
