import HostScript.Proofs.Semantics.Outcomes
import HostScript.Proofs.Typing.Derivation
import HostScript.Proofs.Typing.Linked
import HostScript.Proofs.Typing.Settled

namespace HostScript

-- An evaluation that gives what `P` says, or stops as `E` says.
def Eval.Ends {α : Type} (E : Stop → Prop) (P : α → Prop) (x : Eval α) : Prop :=
  ∀ o, Upholds (fun e _ => E e) (fun a _ => P a) (x o)

namespace Eval.Ends

variable {α β : Type} {E : Stop → Prop} {P : α → Prop} {R : β → Prop}

theorem pure {a : α} (h : P a) : Ends E P (Pure.pure a) :=
  fun _ => h

theorem throw {e : Stop} (h : E e) : Ends E P (MonadExcept.throw e) :=
  fun _ => h

theorem bind {x : Eval α} {f : α → Eval β} (hx : Ends E P x) (hf : ∀ a, P a → Ends E R (f a)) :
    Ends E R (x >>= f) :=
  fun o => (hx o).bind fun a o' ha => hf a ha o'

theorem seq {x : Eval α} {f : α → Eval β} (hx : Ends E P x) (hf : ∀ a, Ends E R (f a)) :
    Ends E R (x >>= f) :=
  hx.bind fun a _ => hf a

theorem ofCalc {strict : Bool} {k : Calc α} (hk : k.Gives strict P)
    (hE : ∀ f : Fault, f.usual strict = true → E (.fault f)) : Ends E P (Eval.ofCalc k) := by
  intro o
  have h := hk o
  unfold Eval.ofCalc
  cases hresult : k o with
  | ok a o' =>
      rw [hresult] at h
      exact h
  | error f o' =>
      rw [hresult] at h
      exact hE f h

-- A member that is there is found.
theorem member {members : Array α} {id : Nat} {fits : α → Bool} {d : α} {f : α → Eval β}
    (hd : members[id]? = some d) (hid : id < 4294967296) (hfits : fits d = true)
    (hf : Ends E R (f d)) : Ends E R (Eval.member members id fits >>= f) := by
  have hfound : Eval.member members id fits = Pure.pure d := by
    simp [Eval.member, hd, hid, hfits]
  rw [hfound, pure_bind]
  exact hf

end Eval.Ends

namespace Dialect

-- A way to read the recorded types that goes with everything a dialect does: `R` tells which values
-- are of a type, and `E` how an evaluation may stop.
structure Reading (D : Dialect) (R : Value → Ty → Prop) (E : Stop → Prop) : Prop where
  fault : ∀ f : Fault, f.usual D.strict = true → E (.fault f)
  mistyped : ∀ inLoop v ty, R v ty → D.strict = true → v.conforms ty = false → E (.mistyped inLoop)
  dynamic : ∀ v, R v .dynamic
  literal : ∀ l : Literal, R (.ofLiteral l) l.ty
  answers : ∀ v ty, v.Answers D.registry ty → R v ty
  object : ∀ o id, R (.object o) (.object id)
  operate : ∀ {op : BinaryOp} {t₁ t₂ t : Ty} {a b : Value}, op.result? t₁ t₂ = some t →
    op ≠ .and ∧ op ≠ .or → R a t₁ → R b t₂ →
      (D.operate op (t₁.isNumeric && t₂.isNumeric) a b).Gives D.strict (R · t)
  operateOn : ∀ {op : UnaryOp} {t₁ t : Ty} {a : Value}, op.result? t₁ = some t → R a t₁ →
    (D.operateOn op t₁.isNumeric a).Gives D.strict (R · t)

-- The variables are what is known of them.
def Knows (R : Value → Ty → Prop) (Γ : TypeContext) (vars : String → Value) : Prop :=
  ∀ name ty, Γ.lookup name = some ty → R (vars name) ty

-- The type that is recorded for a use of a variable is right for its value.
def Right (R : Value → Ty → Prop) (vars : String → Value) : Expr → Prop
  | .name m x => R (vars x) m.ty
  | _ => True

section

variable {D : Dialect} {R : Value → Ty → Prop} {E : Stop → Prop} (hD : D.Reading R E)

include hD

theorem typed_ends {inLoop : Bool} {ty : Ty} {v : Value} (h : R v ty) :
    Eval.Ends E (R · ty) (D.typed inLoop ty v) := by
  unfold Dialect.typed
  split
  · exact .pure h
  · rename_i hnot
    simp only [Bool.or_eq_true, Bool.not_eq_true', not_or, Bool.not_eq_false,
      Bool.not_eq_true] at hnot
    exact .throw (hD.mistyped inLoop v ty h hnot.1 hnot.2)

theorem calc_ends {α : Type} {k : Calc α} {P : α → Prop} (h : k.Gives D.strict P) :
    Eval.Ends E P (Eval.ofCalc k) :=
  .ofCalc h hD.fault

-- What is worked out has to be of the recorded type in the end.
theorem calc_typed {inLoop : Bool} {k : Calc Value} {ty : Ty} (h : k.Gives D.strict (R · ty)) :
    Eval.Ends E (R · ty) (do D.typed inLoop ty (← Eval.ofCalc k)) :=
  (calc_ends hD h).bind fun _ hv => typed_ends hD hv

theorem answer_typed {inLoop : Bool} {k : Calc Value} {ty declared : Ty}
    (h : k.Gives D.strict (·.Answers D.registry declared)) (hty : declared = ty) :
    Eval.Ends E (R · ty) (do D.typed inLoop ty (← Eval.ofCalc k)) :=
  calc_typed hD (h.imp fun v hv => hD.answers v ty (hty ▸ hv))

-- Each argument is there to be checked.
theorem checkArgs_ends {values : List Value} {params : List Ty} {args : List Expr} {above : Nat}
    (habove : args = [] ∨ above < values.length) :
    Eval.Ends E (fun _ => True) (D.checkArgs values params args above) := by
  induction params generalizing args above with
  | nil => exact .pure trivial
  | cons param params ih =>
      cases args with
      | nil => exact .pure trivial
      | cons arg args =>
          have hlt : above < values.length := habove.resolve_left nofun
          have hreach : D.reach above < values.length := by
            unfold reach
            split <;> omega
          have hcheck : Eval.Ends E (fun _ => True) (D.checkArg values param arg above) := by
            simp only [checkArg, List.getElem?_eq_getElem hreach]
            exact calc_ends hD (check_gives D param arg.ty _).always
          exact hcheck.seq fun _ => ih (.inr (by omega))

theorem checkArgs_reverse_ends {values : List Value} {args : List Expr} (params : List Ty)
    (h : values.length = args.length) :
    Eval.Ends E (fun _ => True) (D.checkArgs values.reverse params args (args.length - 1)) := by
  refine checkArgs_ends hD ?_
  rw [List.length_reverse, h]
  cases args with
  | nil => exact .inl rfl
  | cons arg args => exact .inr (Nat.sub_lt (Nat.succ_pos _) Nat.one_pos)

-- The right operand of a connective is a truth value, or is checked to be one.
theorem connective_ends {inLoop : Bool} {rhs : Expr} {b : Value} (hb : R b rhs.ty)
    (hty : rhs.ty.mayBeBool = true) :
    Eval.Ends E (R · .bool) (do
      Eval.ofCalc (D.check .bool rhs.ty b)
      D.typed inLoop .bool b) := by
  refine (calc_ends hD (check_gives D .bool rhs.ty b)).bind fun _ hcheck => typed_ends hD ?_
  cases hrhs : rhs.ty with
  | bool =>
      rw [hrhs] at hb
      exact hb
  | dynamic =>
      rw [hrhs] at hcheck
      exact hD.answers b .bool (.inr (hcheck rfl))
  | _ =>
      rw [hrhs] at hty
      cases hty

omit hD in
theorem connective_result {op : BinaryOp} {t₁ t₂ t : Ty} (hop : op = .and ∨ op = .or)
    (h : op.result? t₁ t₂ = some t) : t = .bool ∧ t₂.mayBeBool = true := by
  rcases hop with rfl | rfl
  all_goals
    simp only [BinaryOp.result?] at h
    split at h
    · rename_i hboth
      cases h
      simp only [Bool.and_eq_true] at hboth
      exact ⟨rfl, hboth.2⟩
    · cases h

omit hD in
theorem folded_ty {op : UnaryOp} {operand : Expr} {value : Literal} {t : Ty}
    (h : Emit.folded? op operand = some value)
    (hty : ∀ l, operand.literal? = some l → operand.ty = l.ty)
    (ht : op.result? operand.ty = some t) : value.ty = t := by
  unfold Emit.folded? at h
  split at h <;> cases h <;> rename_i hl <;> rw [hty _ hl] at ht <;> cases ht <;> rfl

omit hD in
theorem literal_ty {r : Registry} {Γ : TypeContext} {e : Expr} {l : Literal}
    (h : e.Every (Expr.Consistent r Γ)) (hl : e.literal? = some l) : e.ty = l.ty := by
  cases e with
  | literal m value =>
      cases hl
      exact h
  | _ => cases hl

end

mutual

-- An expression whose variables are what is recorded for them gives a value of its recorded type.
theorem eval_ends {D : Dialect} {R : Value → Ty → Prop} {E : Stop → Prop} (hD : D.Reading R E)
    {inLoop : Bool} {Γ : TypeContext} {vars : String → Value} (e : Expr) (hvars : e.Every (Right R vars))
    (htypes : e.Every (Expr.Consistent D.registry Γ))
    (hlinked : e.Linked D.registry) (hresolved : e.Every Expr.Resolved) :
    Eval.Ends E (R · e.ty) (D.eval inLoop vars e) := by
  cases e with
  | literal m value =>
      have hm : m.ty = value.ty := htypes
      have hvalue : R (.ofLiteral value) m.ty := hm ▸ hD.literal value
      unfold eval
      exact typed_ends hD hvalue
  | name m x =>
      unfold eval
      exact typed_ends hD hvars
  | static m name args binding =>
      obtain ⟨hbinding, hargs⟩ := htypes
      unfold eval
      cases binding with
      | const value =>
          have hm : value.ty = m.ty := hbinding
          have hvalue : R (.ofLiteral value) m.ty := hm ▸ hD.literal value
          exact typed_ends hD hvalue
      | method id =>
          obtain ⟨hid, d, hd, hcount⟩ := hlinked.1
          refine (evalAll_ends hD args hvars.2 hargs hlinked.2 hresolved.2).bind fun values hvalues => ?_
          refine .member hd hid (by simp [hcount]) ?_
          refine (checkArgs_reverse_ends hD d.params hvalues).seq fun _ => ?_
          exact answer_typed hD (Calc.callStatic_gives _ d values) (hbinding d hd)
      | property id =>
          obtain ⟨hid, d, hd⟩ := hlinked.1
          refine .member hd hid rfl ?_
          refine (calc_ends hD (Calc.getterOf_gives d)).seq fun get => ?_
          exact answer_typed hD (Calc.readStatic_gives _ d get) (hbinding d hd)
      | unresolved => exact absurd rfl hresolved.1
  | member m target name args binding =>
      obtain ⟨hbinding, htarget, hargs⟩ := htypes
      unfold eval
      cases binding with
      | method id =>
          obtain ⟨hid, d, hd, hcount⟩ := hlinked.1
          refine (eval_ends hD target hvars.2.1 htarget hlinked.2.1 hresolved.2.1).seq fun object => ?_
          refine (evalAll_ends hD args hvars.2.2 hargs hlinked.2.2 hresolved.2.2).bind fun values hvalues => ?_
          refine .member hd hid (by simp [hcount]) ?_
          refine (checkArgs_reverse_ends hD d.params hvalues).seq fun _ => ?_
          exact answer_typed hD (Calc.callMethod_gives _ d object values) (hbinding d hd)
      | property id =>
          obtain ⟨hid, d, hd⟩ := hlinked.1
          refine (eval_ends hD target hvars.2.1 htarget hlinked.2.1 hresolved.2.1).seq fun object => ?_
          refine .member hd hid rfl ?_
          refine (calc_ends hD (Calc.getterOf_gives d)).seq fun get => ?_
          exact answer_typed hD (Calc.readProperty_gives _ d get object) (hbinding d hd)
      | dynamic =>
          have hm : m.ty = .dynamic := hbinding
          have hany : ∀ v, R v m.ty := fun v => hm ▸ hD.dynamic v
          refine (eval_ends hD target hvars.2.1 htarget hlinked.2.1 hresolved.2.1).seq fun object => ?_
          refine (evalAll_ends hD args hvars.2.2 hargs hlinked.2.2 hresolved.2.2).seq fun values => ?_
          refine calc_typed hD (Calc.Gives.imp (Calc.named_gives _ name ?_) fun v _ => hany v)
          split
          · exact Calc.readNamed_gives _ name object
          · exact Calc.callNamed_gives _ name object values
      | unresolved => exact absurd rfl hresolved.1
  | new m typeName args binding =>
      obtain ⟨⟨ty, hty⟩, hargs⟩ := htypes
      have hm : m.ty = .object ty := hty
      have hany : ∀ o, R (.object o) m.ty := fun o => hm ▸ hD.object o ty
      unfold eval
      cases binding with
      | some id =>
          obtain ⟨hid, d, hd, hcount⟩ := hlinked.1 id rfl
          refine (evalAll_ends hD args hvars.2 hargs hlinked.2 hresolved.2).bind fun values hvalues => ?_
          refine .member hd hid (by simp [hcount]) ?_
          refine (checkArgs_reverse_ends hD d.params hvalues).seq fun _ => ?_
          refine calc_typed hD ((Calc.construct_gives d values).imp ?_)
          rintro _ ⟨o, rfl⟩
          exact hany o
      | none => exact absurd rfl hresolved.1
  | binary m op lhs rhs =>
      obtain ⟨hresult, hlhs, hrhs⟩ := htypes
      have hleft : Eval.Ends E (R · lhs.ty) (D.eval inLoop vars lhs) :=
        eval_ends hD lhs hvars.2.1 hlhs hlinked.1 hresolved.2.1
      have hright : Eval.Ends E (R · rhs.ty) (D.eval inLoop vars rhs) :=
        eval_ends hD rhs hvars.2.2 hrhs hlinked.2 hresolved.2.2
      cases op with
      | and =>
          obtain ⟨hm, hbool⟩ := connective_result (.inl rfl) hresult
          unfold eval
          refine hleft.seq fun a => (calc_ends hD (Calc.asBool_gives a)).seq fun go => ?_
          rw [show (Expr.binary m .and lhs rhs).ty = .bool from hm, hm]
          cases go with
          | true => exact hright.bind fun b hb => connective_ends hD hb hbool
          | false => exact typed_ends hD (hD.literal (.bool false))
      | or =>
          obtain ⟨hm, hbool⟩ := connective_result (.inr rfl) hresult
          unfold eval
          refine hleft.seq fun a => (calc_ends hD (Calc.asBool_gives a)).seq fun go => ?_
          rw [show (Expr.binary m .or lhs rhs).ty = .bool from hm, hm]
          cases go with
          | true => exact typed_ends hD (hD.literal (.bool true))
          | false => exact hright.bind fun b hb => connective_ends hD hb hbool
      | _ =>
          unfold eval
          exact hleft.bind fun a ha => hright.bind fun b hb =>
            calc_typed hD (hD.operate hresult ⟨nofun, nofun⟩ ha hb)
  | unary m op operand =>
      obtain ⟨hresult, hoperand⟩ := htypes
      unfold eval
      cases hfold : D.folded? op operand with
      | some value =>
          unfold folded? at hfold
          split at hfold
          · have hty := folded_ty hfold (fun l hl => literal_ty hoperand hl) hresult
            have hvalue : R (.ofLiteral value) m.ty := hty ▸ hD.literal value
            exact typed_ends hD hvalue
          · cases hfold
      | none =>
          exact (eval_ends hD operand hvars.2 hoperand hlinked hresolved.2).bind fun a ha =>
            calc_typed hD (hD.operateOn hresult ha)
  | cast m typeName operand => exact hresolved.1.elim

theorem evalAll_ends {D : Dialect} {R : Value → Ty → Prop} {E : Stop → Prop} (hD : D.Reading R E)
    {inLoop : Bool} {Γ : TypeContext} {vars : String → Value} (es : List Expr)
    (hvars : Expr.EveryOne (Right R vars) es) (htypes : Expr.EveryOne (Expr.Consistent D.registry Γ) es)
    (hlinked : Expr.AllLinked D.registry es) (hresolved : Expr.EveryOne Expr.Resolved es) :
    Eval.Ends E (·.length = es.length) (D.evalAll inLoop vars es) := by
  cases es with
  | nil =>
      unfold evalAll
      exact .pure rfl
  | cons e rest =>
      unfold evalAll
      refine (eval_ends hD e hvars.1 htypes.1 hlinked.1 hresolved.1).seq fun v => ?_
      refine (evalAll_ends hD rest hvars.2 htypes.2 hlinked.2 hresolved.2).bind fun vs hvs => ?_
      exact .pure (congrArg (· + 1) hvs)

end

end Dialect

end HostScript
