import HostScript.Proofs.Host.Built
import HostScript.Proofs.Meaning.Instructions
import HostScript.Proofs.Script.Every
import HostScript.Proofs.Script.Names

namespace HostScript

-- Where the way a script is carried out makes no difference to an expression: either it is the
-- machine's way, or the expression is none of those that are treated in a special way.
def Dialect.Regular (D : Dialect) : Expr → Prop
  | .unary _ op operand => D.folds = false → Emit.folded? op operand = none
  | .static _ _ args _ | .member _ _ _ args _ | .new _ _ args _ =>
    D.near = false → args.length ≤ 256
  | _ => True

-- The variables of a script in their places. Those that are taken to hold no references hold none,
-- and of the hidden ones only the sources of loops may do so.
structure Holds (L : Layout) (vars : String → Value) (locals : Array Value) : Prop where
  found : ∀ name n, PlainName name → L.Slot name n → locals[n.toNat]? = some (vars name)
  spared : ∀ name, L.symbols.mayHoldRef name = false → (vars name).isRef = false
  hidden : ∀ what k n x, what ∈ hiddenWords → what ≠ "iter" → L.Slot (hiddenName what k) n →
    locals[n.toNat]? = some x → x.isRef = false

theorem Eval.ofCalc_bind {α β : Type} (k : Calc α) (k' : α → Calc β) :
    ofCalc (k >>= k') = ofCalc k >>= fun a => ofCalc (k' a) := by
  funext o
  simp only [ofCalc, bind, EStateM.bind]
  cases k o <;> rfl

namespace Follows

variable {env : RunEnv} {D : Dialect} {v : View} {o : Outside} {α β : Type}

theorem typed_bind {x : Eval Value} (inLoop : Bool) (ty : Ty) {S : Value → Outside → View → Prop}
    (h : Follows env D.strict v (x o) S) :
    Follows env D.strict v ((x >>= D.typed inLoop ty) o) fun y o v' =>
      S y o v' ∧ (D.strict = true → y.conforms ty) :=
  h.bind fun _ _ _ hs => .typed hs

theorem member {strict : Bool} {members : Array α} {id : Nat} {fits : α → Bool} {f : α → Eval β}
    {R : β → Outside → View → Prop} (h : ∀ d, members[id]? = some d → id < 4294967296 →
      fits d = true → Follows env strict v (f d o) R) :
    Follows env strict v ((Eval.member members id fits >>= f) o) R := by
  unfold Eval.member
  cases hd : members[id]? with
  | none => trivial
  | some d =>
      simp only
      split
      · rename_i hfits
        simp only [Bool.and_eq_true, decide_eq_true_eq] at hfits
        exact h d hd hfits.1 hfits.2
      · trivial

end Follows

section

variable {L : Layout} {env : RunEnv} {D : Dialect} (hL : L.Suits env D)

include hL

theorem literal_follows {value : Literal} {p q : Nat} {v : View} (h : LiteralCode L value p q)
    (hpc : v.pc = p) (hq : q ≤ Plain.rangeEnd env v) :
    Path env 1 v (v.after q (.ofLiteral value :: v.stack) v.outside) := by
  have hp := Nat.lt_of_lt_of_le h.lt hq
  cases h with
  | null hat => exact path_of_at hL hat hpc hp trivial rfl rfl
  | bool hat => exact path_of_at hL hat hpc hp trivial rfl rfl
  | long hat => exact path_of_at hL hat hpc hp trivial rfl rfl
  | double hat => exact path_of_at hL hat hpc hp trivial rfl rfl
  | string htext hat =>
      refine path_of_at hL hat hpc hp trivial rfl ?_
      rw [Layout.Text, ← hL.script] at htext
      simp only [Plain.effect, bind, EStateM.bind, Plain.poolString, htext]
      rfl

omit hL in
theorem effect_load (flag : Bool) {n : UInt8} {v : View} {x : Value}
    (h : v.locals[n.toNat]? = some x) :
    Plain.effect env (Layout.loadInstr flag n) v = .ok () { v with stack := x :: v.stack } := by
  have heffect : Plain.effect env (Layout.loadInstr flag n) =
      (do Plain.push (← Plain.loadLocal n.toNat)) := by cases flag <;> rfl
  simp only [heffect, bind, EStateM.bind, Plain.loadLocal, h]
  rfl

theorem load_follows {vars : String → Value} {name : String} {p q : Nat} {v : View}
    (h : L.Load name p q) (hname : PlainName name) (hh : Holds L vars v.locals) (hpc : v.pc = p)
    (hq : q ≤ Plain.rangeEnd env v) :
    Path env 1 v (v.after q (vars name :: v.stack) v.outside) := by
  have hp := Nat.lt_of_lt_of_le h.lt hq
  obtain ⟨n, hslot, hat⟩ := h
  have hvalue := hh.found name n hname hslot
  refine path_of_at hL hat hpc hp ?_ ?_ (effect_load _ hvalue)
  · cases hflag : L.symbols.mayHoldRef name with
    | true => trivial
    | false =>
        intro x hx
        rw [hvalue] at hx
        cases hx
        exact hh.spared name hflag
  · cases L.symbols.mayHoldRef name <;> rfl

-- A check of the value on top.
theorem check_follows {expected actual : Ty} {p q : Nat} {v : View} {x : Value}
    {stack : List Value} (h : CheckCode L expected actual p q) (hpc : v.pc = p)
    (hq : q ≤ Plain.rangeEnd env v) (hstack : v.stack = x :: stack) :
    Follows env D.strict v (Eval.ofCalc (D.check expected actual x) v.outside) fun _ o v' =>
      v' = v.after q v.stack o := by
  unfold Dialect.check
  cases h with
  | needed hneed hat =>
      rw [if_pos hneed, hL.registry, ← hL.machine]
      refine follows_quiet hL hat hpc (Nat.lt_of_lt_of_le hat.lt hq) trivial rfl ?_
      simp only [Plain.effect, Plain.checkAt, bind, EStateM.bind, Plain.peek, hstack,
        List.getElem?_cons_zero]
  | skipped hskip =>
      rw [if_neg (by simp [hskip])]
      subst hpc
      exact ⟨0, v, .refl v, rfl⟩

theorem checkArgs_follows {params : List Ty} {args : List Expr} {above p q : Nat} {v : View}
    {values stack : List Value} (h : GuardsCode L params args above p q) (hpc : v.pc = p)
    (hq : q ≤ Plain.rangeEnd env v) (hstack : v.stack = values ++ stack)
    (hreach : ∀ k, k ≤ above → D.reach k = min k 255) :
    Follows env D.strict v (D.checkArgs values params args above v.outside) fun _ o v' =>
      v' = v.after q v.stack o := by
  induction h generalizing v with
  | params =>
      subst hpc
      exact ⟨0, v, .refl v, rfl⟩
  | @args params above p =>
      subst hpc
      cases params with
      | nil => exact ⟨0, v, .refl v, rfl⟩
      | cons param params => exact ⟨0, v, .refl v, rfl⟩
  | @needed param p above q params args r arg hneed hat hrest ih =>
      have hthis : Follows env D.strict v (D.checkArg values param arg above v.outside) fun _ o v' =>
          v' = v.after q v.stack o := by
        unfold Dialect.checkArg
        cases hx : values[D.reach above]? with
        | none => trivial
        | some x =>
            simp only [Dialect.check, hneed, if_true]
            rw [hL.registry, ← hL.machine]
            have hrange := Nat.le_trans hrest.le hq
            refine follows_quiet hL hat hpc (Nat.lt_of_lt_of_le hat.lt hrange) trivial rfl ?_
            have hdepth : (UInt8.ofNat (min above 255)).toNat = min above 255 := by
              rw [UInt8.toNat_ofNat']
              omega
            have hpeek : v.stack[min above 255]? = some x := by
              rw [hreach above (Nat.le_refl _)] at hx
              obtain ⟨hlt, -⟩ := List.getElem?_eq_some_iff.mp hx
              rw [hstack, List.getElem?_append_left hlt, hx]
            simp only [Plain.effect, Plain.checkAt, bind, EStateM.bind, Plain.peek, hdepth, hpeek]
      refine hthis.bind ?_
      rintro _ o _ rfl
      refine (ih (v := v.after q v.stack o) rfl hq hstack fun k hk => hreach k (by omega)).imp ?_
      rintro _ o' _ rfl
      rfl
  | @skipped param params args above p q arg hskip hrest ih =>
      have hthis : Follows env D.strict v (D.checkArg values param arg above v.outside) fun _ o v' =>
          v' = v ∧ o = v.outside := by
        unfold Dialect.checkArg
        cases hx : values[D.reach above]? with
        | none => trivial
        | some x =>
            simp only [Dialect.check, hskip]
            exact ⟨0, v, .refl v, rfl, rfl⟩
      refine hthis.bind ?_
      rintro _ _ _ ⟨rfl, rfl⟩
      exact ih hpc hq hstack fun k hk => hreach k (by omega)

omit hL in
theorem popMany_append {values stack : List Value} {v : View}
    (hstack : v.stack = values.reverse ++ stack) :
    Plain.popMany values.length v = .ok values { v with stack := stack } := by
  have hlen : values.length ≤ v.stack.length := by simp [hstack]
  have htake : (v.stack.take values.length).reverse = values := by
    rw [hstack, List.take_left' (by simp), List.reverse_reverse]
  have hdrop : v.stack.drop values.length = stack := by
    rw [hstack, List.drop_left' (by simp)]
  simp only [Plain.popMany, hlen, if_true, htake, hdrop]

omit hL in
theorem methodAt_eq {r : Registry} {id : Nat} {d : MethodDef} (hd : r.methods[id]? = some d)
    (hid : id < 4294967296) : Calc.methodAt r (Int32.ofNat id) = pure d := by
  simp only [Calc.methodAt, toNat_memberId hid, hd]

omit hL in
theorem propertyAt_eq {r : Registry} {id : Nat} {d : PropertyDef} (hd : r.properties[id]? = some d)
    (hid : id < 4294967296) : Calc.propertyAt r (Int32.ofNat id) = pure d := by
  simp only [Calc.propertyAt, toNat_memberId hid, hd]

omit hL in
theorem constructorAt_pure {r : Registry} {id : Nat} {d : ConstructorDef}
    (hd : r.constructors[id]? = some d) (hid : id < 4294967296) :
    Calc.constructorAt r (Int32.ofNat id) = pure d := by
  simp only [Calc.constructorAt, toNat_memberId hid, hd]

omit hL in
theorem ofCalc_pure {α : Type} (a : α) : Plain.ofCalc (pure a) = (pure a : Plain α) := rfl

theorem callStatic_follows {p q id : Nat} {v : View} {values stack : List Value} {d : MethodDef}
    (hat : L.At p (.invokeStatic (Int32.ofNat id)) q) (hpc : v.pc = p)
    (hq : q ≤ Plain.rangeEnd env v) (hd : D.registry.methods[id]? = some d)
    (hid : id < 4294967296) (hparams : d.params.length = values.length)
    (hstack : v.stack = values.reverse ++ stack) :
    Follows env D.strict v (Eval.ofCalc (Calc.callStatic D.registry d values) v.outside) fun x o v' =>
      v' = v.after q (x :: stack) o := by
  refine follows_push hL hat hpc (Nat.lt_of_lt_of_le hat.lt hq) trivial rfl ?_
  rw [hL.registry, ← hL.machine] at hd ⊢
  simp only [Plain.effect, Plain.invokeStatic, methodAt_eq hd hid, ofCalc_pure, pure_bind, hparams]
  simp only [bind, EStateM.bind, popMany_append (v := { v with pc := q }) hstack]

theorem callMethod_follows {p q id : Nat} {v : View} {target : Value} {values stack : List Value}
    {d : MethodDef} (hat : L.At p (.invoke (Int32.ofNat id)) q) (hpc : v.pc = p)
    (hq : q ≤ Plain.rangeEnd env v) (hd : D.registry.methods[id]? = some d)
    (hid : id < 4294967296) (hparams : d.params.length = values.length)
    (hstack : v.stack = values.reverse ++ target :: stack) :
    Follows env D.strict v (Eval.ofCalc (Calc.callMethod D.registry d target values) v.outside) fun x o v' =>
      v' = v.after q (x :: stack) o := by
  refine follows_push hL hat hpc (Nat.lt_of_lt_of_le hat.lt hq) trivial rfl ?_
  rw [hL.registry, ← hL.machine] at hd ⊢
  simp only [Plain.effect, Plain.invoke, methodAt_eq hd hid, ofCalc_pure, pure_bind, hparams]
  simp only [bind, EStateM.bind, popMany_append (v := { v with pc := q }) hstack, Plain.pop]

theorem construct_follows {p q id : Nat} {v : View} {values stack : List Value}
    {d : ConstructorDef} (hat : L.At p (.new (Int32.ofNat id)) q) (hpc : v.pc = p)
    (hq : q ≤ Plain.rangeEnd env v) (hd : D.registry.constructors[id]? = some d)
    (hid : id < 4294967296) (hparams : d.params.length = values.length)
    (hstack : v.stack = values.reverse ++ stack) :
    Follows env D.strict v (Eval.ofCalc (Calc.construct d values) v.outside) fun x o v' =>
      v' = v.after q (x :: stack) o := by
  refine follows_push hL hat hpc (Nat.lt_of_lt_of_le hat.lt hq) trivial rfl ?_
  rw [hL.registry, ← hL.machine] at hd
  simp only [Plain.effect, Plain.construct, constructorAt_pure hd hid, ofCalc_pure, pure_bind,
    hparams]
  simp only [bind, EStateM.bind, popMany_append (v := { v with pc := q }) hstack]

theorem callNamed_follows {p q : Nat} {index : UInt16} {name : String} {v : View} {target : Value}
    {values stack : List Value} (htext : L.Text index name)
    (hat : L.At p (.invokeDynamic index (UInt16.ofNat values.length)) q) (hpc : v.pc = p)
    (hq : q ≤ Plain.rangeEnd env v) (hlen : values.length < 65536)
    (hstack : v.stack = values.reverse ++ target :: stack) :
    Follows env D.strict v (Eval.ofCalc (Calc.named D.registry name
        (Calc.callNamed D.registry name target values)) v.outside) fun x o v' =>
      v' = v.after q (x :: stack) o := by
  refine follows_push hL hat hpc (Nat.lt_of_lt_of_le hat.lt hq) trivial rfl ?_
  have hcount : (UInt16.ofNat values.length).toNat = values.length := by
    rw [UInt16.toNat_ofNat']
    exact Nat.mod_eq_of_lt hlen
  rw [Layout.Text, ← hL.script] at htext
  rw [hL.registry, ← hL.machine]
  simp only [Plain.effect, Plain.invokeDynamic, Plain.poolString, htext, pure_bind, hcount]
  simp only [bind, EStateM.bind, popMany_append (v := { v with pc := q }) hstack, Plain.pop]

theorem readNamed_follows {p q : Nat} {index : UInt16} {name : String} {v : View} {target : Value}
    {stack : List Value} (htext : L.Text index name) (hat : L.At p (.getDynamicProperty index) q)
    (hpc : v.pc = p) (hq : q ≤ Plain.rangeEnd env v) (hstack : v.stack = target :: stack) :
    Follows env D.strict v (Eval.ofCalc (Calc.named D.registry name
        (Calc.readNamed D.registry name target)) v.outside) fun x o v' =>
      v' = v.after q (x :: stack) o := by
  refine follows_push hL hat hpc (Nat.lt_of_lt_of_le hat.lt hq) trivial rfl ?_
  rw [Layout.Text, ← hL.script] at htext
  rw [hL.registry, ← hL.machine]
  simp only [Plain.effect, Plain.getDynamicProperty, Plain.poolString, htext, pure_bind]
  simp only [Plain.apply, bind, EStateM.bind, Plain.pop, hstack]

theorem readProperty_follows {p q id : Nat} {v : View} {target : Value} {stack : List Value}
    {d : PropertyDef} (hat : L.At p (.getProperty (Int32.ofNat id)) q) (hpc : v.pc = p)
    (hq : q ≤ Plain.rangeEnd env v) (hd : D.registry.properties[id]? = some d)
    (hid : id < 4294967296) (hstack : v.stack = target :: stack) :
    Follows env D.strict v ((Eval.ofCalc (Calc.getterOf d) >>= fun get =>
        Eval.ofCalc (Calc.readProperty D.registry d get target)) v.outside) fun x o v' =>
      v' = v.after q (x :: stack) o := by
  have hp := Nat.lt_of_lt_of_le hat.lt hq
  rw [hL.registry, ← hL.machine] at hd ⊢
  cases hget : d.getter with
  | none =>
      have heffect : Plain.effect env (.getProperty (Int32.ofNat id)) { v with pc := q } =
          .error (.unreadable d.name) { v with pc := q } := by
        simp only [Plain.effect, Plain.getProperty, propertyAt_eq hd hid, ofCalc_pure, pure_bind,
          Calc.getterOf, hget]
        rfl
      have hfails := fails_of_at hL hat hpc hp trivial heffect
      simp only [Calc.getterOf, hget]
      exact hfails
  | some get =>
      have hpure : Calc.getterOf d = pure get := by simp only [Calc.getterOf, hget]
      have hread : Follows env D.strict v (Eval.ofCalc (Calc.readProperty env.registry d get target) v.outside)
          fun x o v' => v' = v.after q (x :: stack) o := by
        refine follows_push hL hat hpc hp trivial rfl ?_
        simp only [Plain.effect, Plain.getProperty, propertyAt_eq hd hid, ofCalc_pure, pure_bind,
          hpure]
        simp only [Plain.apply, bind, EStateM.bind, Plain.pop, hstack]
      rw [hpure]
      exact hread

theorem readStatic_follows {p q id : Nat} {v : View} {d : PropertyDef}
    (hat : L.At p (.getStaticProperty (Int32.ofNat id)) q) (hpc : v.pc = p)
    (hq : q ≤ Plain.rangeEnd env v) (hd : D.registry.properties[id]? = some d)
    (hid : id < 4294967296) :
    Follows env D.strict v ((Eval.ofCalc (Calc.getterOf d) >>= fun get =>
        Eval.ofCalc (Calc.readStatic D.registry d get)) v.outside) fun x o v' =>
      v' = v.after q (x :: v.stack) o := by
  rw [← Eval.ofCalc_bind]
  refine follows_push hL hat hpc (Nat.lt_of_lt_of_le hat.lt hq) trivial rfl ?_
  rw [hL.registry, ← hL.machine] at hd ⊢
  simp only [Plain.effect, Plain.getStaticProperty, propertyAt_eq hd hid, ofCalc_pure, pure_bind]
  rw [Plain.ofCalc_bind, bind_assoc]

omit hL in
theorem Value.number_of_conforms {x : Value} {ty : Ty} (h : x.conforms ty) (hty : ty.isNumeric) :
    ∃ y, x = .number y := by
  cases x with
  | number y => exact ⟨y, rfl⟩
  | _ => cases ty <;> simp [conforms, Ty.isNumeric] at h hty

omit hL in
-- The operators for numbers do the same as the others where the operands are numbers.
theorem Dialect.binary_number {op : BinaryOp} (x y : Float) :
    Dialect.binary op (.number x) (.number y) = Dialect.binaryNum op (.number x) (.number y) := by
  cases op <;> rfl

omit hL in
theorem effect_binary {op : BinaryOp} {numeric : Bool} {a b : Value} {stack : List Value} {v : View}
    (hop : op ≠ .and ∧ op ≠ .or)
    (hnum : D.strict = true → numeric = true → (∃ x, a = .number x) ∧ ∃ y, b = .number y)
    (hstack : v.stack = b :: a :: stack) :
    Plain.effect env (Layout.binaryInstr op numeric) v =
      (Plain.ofCalc (D.operate op numeric a b) >>= Plain.push) { v with stack := stack } := by
  have hplain : Plain.effect env (Layout.binaryInstr op false) v =
      (Plain.ofCalc (Dialect.binary op a b) >>= Plain.push) { v with stack := stack } := by
    cases op with
    | and => exact absurd rfl hop.1
    | or => exact absurd rfl hop.2
    | _ =>
        simp only [Layout.binaryInstr, Plain.effect, Plain.apply₂, bind, EStateM.bind, Plain.pop,
          hstack]
        rfl
  have hnumeric : Plain.effect env (Layout.binaryInstr op true) v =
      (Plain.ofCalc (Dialect.binaryNum op a b) >>= Plain.push) { v with stack := stack } := by
    cases op with
    | and => exact absurd rfl hop.1
    | or => exact absurd rfl hop.2
    | _ =>
        simp only [Layout.binaryInstr, Plain.effect, Plain.apply₂, bind, EStateM.bind, Plain.pop,
          hstack]
        rfl
  unfold Dialect.operate
  cases numeric with
  | false =>
      rw [Bool.and_false]
      exact hplain
  | true =>
      cases hstrict : D.strict with
      | false => exact hnumeric
      | true =>
          obtain ⟨⟨x, rfl⟩, y, rfl⟩ := hnum hstrict rfl
          rw [hnumeric, ← Dialect.binary_number]
          rfl

omit hL in
theorem effect_unary {op : UnaryOp} {numeric : Bool} {a : Value} {stack : List Value} {v : View}
    (hnum : D.strict = true → numeric = true → ∃ x, a = .number x) (hstack : v.stack = a :: stack) :
    Plain.effect env (Layout.unaryInstr op numeric) v =
      (Plain.ofCalc (D.operateOn op numeric a) >>= Plain.push) { v with stack := stack } := by
  have hpop : Plain.effect env (Layout.unaryInstr op numeric) v = (Plain.ofCalc
      (if numeric then Dialect.unaryNum op a else Dialect.unary op a) >>= Plain.push)
        { v with stack := stack } := by
    cases op <;> cases numeric <;>
      simp only [Layout.unaryInstr, Plain.effect, Plain.apply, bind, EStateM.bind, Plain.pop,
        hstack] <;> rfl
  rw [hpop]
  unfold Dialect.operateOn
  cases numeric with
  | false => rw [Bool.and_false]
  | true =>
      cases hstrict : D.strict with
      | false => rfl
      | true =>
          obtain ⟨x, rfl⟩ := hnum hstrict rfl
          cases op <;> rfl

end

-- The reach of the checks of so many arguments.
theorem Dialect.reach_eq {D : Dialect} {n k : Nat} (hn : D.near = false → n ≤ 256)
    (hk : k ≤ n - 1) : D.reach k = min k 255 := by
  unfold Dialect.reach
  cases hnear : D.near with
  | true => rfl
  | false =>
      have := hn hnear
      simp only [Bool.false_eq_true, if_false]
      omega

-- What is reached at `q` is the value of an expression, on top of what was there.
def Dialect.Works (D : Dialect) (env : RunEnv) (inLoop : Bool) (vars : String → Value) (e : Expr)
    (q : Nat) (v : View) : Prop :=
  Follows env D.strict v (D.eval inLoop vars e v.outside) fun x o v' =>
    v' = v.after q (x :: v.stack) o ∧ (D.strict = true → x.conforms e.ty)

-- So are the values of some expressions, the last one on top.
def Dialect.WorksAll (D : Dialect) (env : RunEnv) (inLoop : Bool) (vars : String → Value)
    (es : List Expr) (q : Nat) (v : View) : Prop :=
  Follows env D.strict v (D.evalAll inLoop vars es v.outside) fun xs o v' =>
    v' = v.after q (xs.reverse ++ v.stack) o ∧ xs.length = es.length

-- Arguments are worked out and checked before a member is called with them.
theorem call_follows {L : Layout} {env : RunEnv} {D : Dialect} (hL : L.Suits env D)
    {inLoop : Bool} {vars : String → Value} {α : Type} {members : Array α} {params : α → List Ty}
    {call : α → List Value → Calc Value} {id q₁ q₂ q : Nat} {args : List Expr} {ty : Ty} {v : View}
    {stack : List Value} (hreg : D.near = false → args.length ≤ 256)
    (hargs : D.WorksAll env inLoop vars args q₁ v)
    (hguards : GuardsCode L ((members[id]?.map params).getD []) args (args.length - 1) q₁ q₂)
    (hq : q₂ ≤ Plain.rangeEnd env v)
    (hcall : ∀ d values o, members[id]? = some d → id < 4294967296 →
      (params d).length = values.length → values.length = args.length →
      Follows env D.strict (v.after q₂ (values.reverse ++ v.stack) o) (Eval.ofCalc (call d values) o)
        fun x o' v' => v' = v.after q (x :: stack) o') :
    Follows env D.strict v ((do
        let values ← D.evalAll inLoop vars args
        let d ← Eval.member members id (fun d => (params d).length = args.length)
        D.checkArgs values.reverse (params d) args (args.length - 1)
        D.typed inLoop ty (← Eval.ofCalc (call d values))) v.outside) fun x o v' =>
      v' = v.after q (x :: stack) o ∧ (D.strict = true → x.conforms ty) := by
  refine hargs.bind ?_
  rintro values o _ ⟨rfl, hlen⟩
  refine .member fun d hd hid hparams => ?_
  rw [hd] at hguards
  have hchecks := checkArgs_follows hL (v := v.after q₁ (values.reverse ++ v.stack) o) hguards rfl hq
    rfl fun k hk => D.reach_eq hreg hk
  refine hchecks.bind ?_
  rintro _ o' _ rfl
  exact .typed_bind inLoop ty (hcall d values o' hd hid (by simpa [hlen] using hparams) hlen)

section

variable {D : Dialect} {inLoop : Bool} {vars : String → Value} {m : Mark} {lhs rhs : Expr}

-- A logical operator leaves its second operand out when the first one is `on`.
def Dialect.shortCircuit (D : Dialect) (inLoop : Bool) (vars : String → Value) (on : Bool)
    (ty : Ty) (lhs rhs : Expr) : Eval Value := do
  let a ← D.eval inLoop vars lhs
  let b ← Eval.ofCalc (Calc.asBool a)
  if b = on then D.typed inLoop ty (.bool on)
  else
    let x ← D.eval inLoop vars rhs
    Eval.ofCalc (D.check .bool rhs.ty x)
    D.typed inLoop ty x

theorem Dialect.eval_and :
    D.eval inLoop vars (.binary m .and lhs rhs) = D.shortCircuit inLoop vars false m.ty lhs rhs := by
  simp only [Dialect.eval, Dialect.shortCircuit]
  congr
  funext a
  congr
  funext b
  cases b <;> rfl

theorem Dialect.eval_or :
    D.eval inLoop vars (.binary m .or lhs rhs) = D.shortCircuit inLoop vars true m.ty lhs rhs := by
  simp only [Dialect.eval, Dialect.shortCircuit]

end

theorem spares_binary {v : View} (op : BinaryOp) (numeric : Bool) :
    Instr.Spares v (Layout.binaryInstr op numeric) := by
  cases op <;> cases numeric <;> trivial

theorem flow_binary (op : BinaryOp) (numeric : Bool) :
    (Layout.binaryInstr op numeric).flow = .next := by
  cases op <;> cases numeric <;> rfl

theorem spares_unary {v : View} (op : UnaryOp) (numeric : Bool) :
    Instr.Spares v (Layout.unaryInstr op numeric) := by
  cases op <;> cases numeric <;> trivial

theorem flow_unary (op : UnaryOp) (numeric : Bool) :
    (Layout.unaryInstr op numeric).flow = .next := by
  cases op <;> cases numeric <;> rfl

section

variable {L : Layout} {env : RunEnv} {D : Dialect} {inLoop : Bool} {vars : String → Value} {m : Mark}
  {lhs rhs target : Expr} {args : List Expr} {name : String} {p q q₀ q₁ q₂ id : Nat} {v : View}
  (hL : L.Suits env D)

include hL

theorem shortCircuit_follows {on : Bool} {ty : Ty} {q₃ q₄ q₅ : Nat}
    (hl : ∀ q₁, ExprCode L lhs p q₁ → q₁ ≤ Plain.rangeEnd env v →
      D.Works env inLoop vars lhs q₁ v)
    (hr : ∀ q₁ q₂ stack o, ExprCode L rhs q₁ q₂ → q₂ ≤ Plain.rangeEnd env v →
      D.Works env inLoop vars rhs q₂ (v.after q₁ stack o))
    (h₁ : ExprCode L lhs p q₁) (h₂ : L.JumpIf on q₁ q₂ q₅) (h₃ : ExprCode L rhs q₂ q₃)
    (h₄ : CheckCode L .bool rhs.ty q₃ q₄) (h₅ : L.Jump q₄ q₅ q) (h₆ : L.At q₅ (.pushBool on) q)
    (hq : q ≤ Plain.rangeEnd env v) :
    Follows env D.strict v (D.shortCircuit inLoop vars on ty lhs rhs v.outside) fun x o v' =>
      v' = v.after q (x :: v.stack) o ∧ (D.strict = true → x.conforms ty) := by
  have hq₅ := Nat.le_trans (Nat.le_of_lt h₆.lt) hq
  have hq₄ := Nat.le_trans (Nat.le_of_lt h₅.lt) hq₅
  have hq₃ := Nat.le_trans h₄.le hq₄
  have hq₂ := Nat.le_trans (Nat.le_of_lt h₃.lt) hq₃
  refine (hl q₁ h₁ (Nat.le_trans (Nat.le_of_lt h₂.lt) hq₂)).bind ?_
  rintro a o _ ⟨rfl, -⟩
  refine (follows_jumpIf hL (v := v.after q₁ (a :: v.stack) o) h₂ rfl
    (Nat.lt_of_lt_of_le h₂.lt hq₂) rfl).bind ?_
  rintro b o' _ rfl
  by_cases hb : b = on
  · simp only [hb, if_true]
    have hpush : Path env 1 (v.after q₅ v.stack o') (v.after q (.bool on :: v.stack) o') :=
      path_of_at hL h₆ rfl (Nat.lt_of_lt_of_le h₆.lt hq) trivial rfl rfl
    exact Follows.prepend hpush (.typed rfl)
  · simp only [hb, if_false]
    refine (hr q₂ q₃ v.stack o' h₃ hq₃).bind ?_
    rintro x o₂ _ ⟨rfl, -⟩
    refine (check_follows hL (v := v.after q₃ (x :: v.stack) o₂) h₄ rfl hq₄ rfl).bind ?_
    rintro _ o₃ _ rfl
    have hjump := path_of_jump hL (v := v.after q₄ (x :: v.stack) o₃) h₅ rfl
      (Nat.lt_of_lt_of_le h₅.lt hq₅)
    exact Follows.prepend hjump (.typed rfl)

theorem operator_follows {op : BinaryOp} (hand : op ≠ .and) (hor : op ≠ .or)
    (hl : D.Works env inLoop vars lhs q₁ v)
    (hr : ∀ stack o, D.Works env inLoop vars rhs q₂ (v.after q₁ stack o))
    (hat : L.At q₂ (Layout.binaryInstr op (lhs.ty.isNumeric && rhs.ty.isNumeric)) q)
    (hq : q ≤ Plain.rangeEnd env v) : D.Works env inLoop vars (.binary m op lhs rhs) q v := by
  unfold Dialect.Works
  rw [D.eval_binary _ _ hand hor]
  refine hl.bind ?_
  rintro a o _ ⟨rfl, ha⟩
  refine (hr _ o).bind ?_
  rintro b o' _ ⟨rfl, hb⟩
  -- Operands that are known to be numbers are numbers, so the shorter instruction does the same.
  have hnum : D.strict = true → (lhs.ty.isNumeric && rhs.ty.isNumeric) = true →
      (∃ x, a = .number x) ∧ ∃ y, b = .number y := fun hstrict hboth => by
    simp only [Bool.and_eq_true] at hboth
    exact ⟨Value.number_of_conforms (ha hstrict) hboth.1,
      Value.number_of_conforms (hb hstrict) hboth.2⟩
  have happly := follows_push hL (v := v.after q₂ (b :: a :: v.stack) o') hat rfl
    (Nat.lt_of_lt_of_le hat.lt hq) (spares_binary _ _) (flow_binary _ _)
    (effect_binary ⟨hand, hor⟩ hnum rfl)
  exact happly.typed_bind inLoop m.ty

theorem unary_follows {op : UnaryOp} (hnone : Emit.folded? op target = none)
    (htarget : D.Works env inLoop vars target q₁ v)
    (hat : L.At q₁ (Layout.unaryInstr op target.ty.isNumeric) q) (hq : q ≤ Plain.rangeEnd env v) :
    D.Works env inLoop vars (.unary m op target) q v := by
  have hfolded : D.folded? op target = none := by
    unfold Dialect.folded?
    split
    · exact hnone
    · rfl
  simp only [Dialect.Works, Dialect.eval, hfolded]
  refine htarget.bind ?_
  rintro a o _ ⟨rfl, ha⟩
  have happly := follows_push hL (v := v.after q₁ (a :: v.stack) o) hat rfl
    (Nat.lt_of_lt_of_le hat.lt hq) (spares_unary _ _) (flow_unary _ _)
    (effect_unary (fun hstrict hnum => Value.number_of_conforms (ha hstrict) hnum) rfl)
  exact happly.typed_bind inLoop m.ty

-- A literal with a sign in front of it is one literal, unless it has to be worked out.
theorem folded_follows {op : UnaryOp} {value : Literal}
    (hreg : D.folds = false → Emit.folded? op target = none)
    (hfold : Emit.folded? op target = some value) (hlit : LiteralCode L value p q) (hpc : v.pc = p)
    (hq : q ≤ Plain.rangeEnd env v) : D.Works env inLoop vars (.unary m op target) q v := by
  have hfolds : D.folds = true := by
    cases hd : D.folds with
    | true => rfl
    | false =>
        have hnone := hreg hd
        rw [hfold] at hnone
        cases hnone
  simp only [Dialect.Works, Dialect.eval, Dialect.folded?, hfolds, if_true, hfold]
  exact Follows.prepend (literal_follows hL hlit hpc hq) (.typed rfl)

theorem readStaticProperty_follows (hat : L.At p (.getStaticProperty (Int32.ofNat id)) q)
    (hpc : v.pc = p) (hq : q ≤ Plain.rangeEnd env v) :
    D.Works env inLoop vars (.static m name args (.property id)) q v := by
  simp only [Dialect.Works, Dialect.eval]
  refine .member fun d hd hid _ => ?_
  have hread := (readStatic_follows hL hat hpc hq hd hid).typed_bind inLoop m.ty
  rwa [bind_assoc] at hread

theorem method_follows (hreg : D.near = false → args.length ≤ 256)
    (htarget : D.Works env inLoop vars target q₀ v)
    (hargs : ∀ stack o, D.WorksAll env inLoop vars args q₁ (v.after q₀ stack o))
    (hguards : GuardsCode L ((L.registry.methods[id]?.map (·.params)).getD []) args
      (args.length - 1) q₁ q₂)
    (hat : L.At q₂ (.invoke (Int32.ofNat id)) q) (hq : q ≤ Plain.rangeEnd env v) :
    D.Works env inLoop vars (.member m target name args (.method id)) q v := by
  unfold Dialect.Works Dialect.eval
  refine htarget.bind ?_
  rintro object o _ ⟨rfl, -⟩
  rw [← hL.registry] at hguards
  refine call_follows hL hreg (hargs _ o) hguards (Nat.le_trans (Nat.le_of_lt hat.lt) hq)
    fun d values o' hd hid hparams _ => ?_
  exact callMethod_follows hL (v := v.after q₂ (values.reverse ++ object :: v.stack) o') hat rfl hq
    hd hid hparams rfl

theorem property_follows (htarget : D.Works env inLoop vars target q₀ v)
    (hat : L.At q₀ (.getProperty (Int32.ofNat id)) q) (hq : q ≤ Plain.rangeEnd env v) :
    D.Works env inLoop vars (.member m target name args (.property id)) q v := by
  unfold Dialect.Works Dialect.eval
  refine htarget.bind ?_
  rintro object o _ ⟨rfl, -⟩
  refine .member fun d hd hid _ => ?_
  have hread := (readProperty_follows hL (v := v.after q₀ (object :: v.stack) o) hat rfl hq hd hid
    rfl).typed_bind inLoop m.ty
  rwa [bind_assoc] at hread

theorem namedCall_follows {index : UInt16} (hne : args ≠ []) (hlt : args.length < 65536)
    (htarget : D.Works env inLoop vars target q₀ v)
    (hargs : ∀ stack o, D.WorksAll env inLoop vars args q₁ (v.after q₀ stack o))
    (htext : L.Text index name)
    (hat : L.At q₁ (.invokeDynamic index (UInt16.ofNat args.length)) q)
    (hq : q ≤ Plain.rangeEnd env v) :
    D.Works env inLoop vars (.member m target name args .dynamic) q v := by
  unfold Dialect.Works Dialect.eval
  refine htarget.bind ?_
  rintro object o _ ⟨rfl, -⟩
  refine (hargs _ o).bind ?_
  rintro values o' _ ⟨rfl, hlen⟩
  have hsome : values.isEmpty = false := by
    cases values with
    | nil => exact absurd (List.length_eq_zero_iff.mp hlen.symm) hne
    | cons x xs => rfl
  rw [← hlen] at hat hlt
  have hcall := callNamed_follows hL (v := v.after q₁ (values.reverse ++ object :: v.stack) o') htext
    hat rfl hq hlt rfl
  simp only [hsome, Bool.false_eq_true, if_false]
  exact hcall.typed_bind inLoop m.ty

end

mutual

-- The code of an expression works out its value.
theorem eval_follows {L : Layout} {env : RunEnv} {D : Dialect} (hL : L.Suits env D)
    (inLoop : Bool) {vars : String → Value} (e : Expr) (hplain : e.Plain)
    (hreg : e.Every D.Regular) {p q : Nat} {v : View} (h : ExprCode L e p q) (hpc : v.pc = p)
    (hq : q ≤ Plain.rangeEnd env v) (hh : Holds L vars v.locals) :
    D.Works env inLoop vars e q v := by
  cases e with
  | literal m value =>
      cases h with
      | literal hlit =>
          exact Follows.prepend (literal_follows hL hlit hpc hq) (.typed rfl)
  | name m x =>
      cases h with
      | name hload =>
          exact Follows.prepend (load_follows hL hload hplain hh hpc hq) (.typed rfl)
  | static m name args binding =>
      cases h with
      | const hlit =>
          exact Follows.prepend (literal_follows hL hlit hpc hq) (.typed rfl)
      | @staticMethod _ _ q₁ q₂ _ _ _ id hargs hguards hat =>
          have hq₂ := Nat.le_trans (Nat.le_of_lt hat.lt) hq
          have hvalues := evalAll_follows hL inLoop args hplain hreg.2 hargs hpc
            (Nat.le_trans hguards.le hq₂) hh
          rw [← hL.registry] at hguards
          refine call_follows hL hreg.1 hvalues hguards hq₂ fun d values o hd hid hparams _ => ?_
          exact callStatic_follows hL (v := v.after q₂ (values.reverse ++ v.stack) o) hat rfl hq hd
            hid hparams rfl
      | staticProperty hat => exact readStaticProperty_follows hL hat hpc hq
  | member m target name args binding =>
      have ht : ∀ q₀, ExprCode L target p q₀ → q₀ ≤ Plain.rangeEnd env v →
          D.Works env inLoop vars target q₀ v := fun q₀ h₀ hq₀ =>
        eval_follows hL inLoop target hplain.1 hreg.2.1 h₀ hpc hq₀ hh
      have hargs : ∀ q₀ q₁ stack o, ExprsCode L args q₀ q₁ → q₁ ≤ Plain.rangeEnd env v →
          D.WorksAll env inLoop vars args q₁ (v.after q₀ stack o) := fun q₀ q₁ stack o h₁ hq₁ =>
        evalAll_follows hL inLoop args hplain.2 hreg.2.2 (v := v.after q₀ stack o) h₁ rfl hq₁ hh
      cases h with
      | method htarget hpassed hguards hat =>
          have hq₁ := Nat.le_trans hguards.le (Nat.le_trans (Nat.le_of_lt hat.lt) hq)
          exact method_follows hL hreg.1 (ht _ htarget (Nat.le_trans hpassed.le hq₁))
            (fun stack o => hargs _ _ stack o hpassed hq₁) hguards hat hq
      | property htarget hat =>
          exact property_follows hL (ht _ htarget (Nat.le_trans (Nat.le_of_lt hat.lt) hq)) hat hq
      | @read _ _ q₀ index _ _ _ htarget htext hat =>
          unfold Dialect.Works Dialect.eval
          refine (ht q₀ htarget (Nat.le_trans (Nat.le_of_lt hat.lt) hq)).bind ?_
          rintro object o _ ⟨rfl, -⟩
          exact (readNamed_follows hL (v := v.after q₀ (object :: v.stack) o) htext hat rfl hq
            rfl).typed_bind inLoop m.ty
      | call hne hlt htarget hpassed htext hat =>
          have hq₁ := Nat.le_trans (Nat.le_of_lt hat.lt) hq
          exact namedCall_follows hL hne hlt (ht _ htarget (Nat.le_trans hpassed.le hq₁))
            (fun stack o => hargs _ _ stack o hpassed hq₁) htext hat hq
  | new m typeName args binding =>
      cases h with
      | @new _ _ q₁ q₂ _ _ _ id hargs hguards hat =>
          have hq₂ := Nat.le_trans (Nat.le_of_lt hat.lt) hq
          have hvalues := evalAll_follows hL inLoop args hplain hreg.2 hargs hpc
            (Nat.le_trans hguards.le hq₂) hh
          rw [← hL.registry] at hguards
          refine call_follows hL hreg.1 hvalues hguards hq₂ fun d values o hd hid hparams _ => ?_
          exact construct_follows hL (v := v.after q₂ (values.reverse ++ v.stack) o) hat rfl hq hd
            hid hparams rfl
  | binary m op lhs rhs =>
      have hl : ∀ q₁, ExprCode L lhs p q₁ → q₁ ≤ Plain.rangeEnd env v →
          D.Works env inLoop vars lhs q₁ v := fun q₁ h₁ hq₁ =>
        eval_follows hL inLoop lhs hplain.1 hreg.2.1 h₁ hpc hq₁ hh
      have hr : ∀ q₁ q₂ stack o, ExprCode L rhs q₁ q₂ → q₂ ≤ Plain.rangeEnd env v →
          D.Works env inLoop vars rhs q₂ (v.after q₁ stack o) := fun q₁ q₂ stack o h₂ hq₂ =>
        eval_follows hL inLoop rhs hplain.2 hreg.2.2 (v := v.after q₁ stack o) h₂ rfl hq₂ hh
      cases h with
      | and h₁ h₂ h₃ h₄ h₅ h₆ =>
          unfold Dialect.Works
          rw [Dialect.eval_and]
          exact shortCircuit_follows hL hl hr h₁ h₂ h₃ h₄ h₅ h₆ hq
      | or h₁ h₂ h₃ h₄ h₅ h₆ =>
          unfold Dialect.Works
          rw [Dialect.eval_or]
          exact shortCircuit_follows hL hl hr h₁ h₂ h₃ h₄ h₅ h₆ hq
      | binary hand hor h₁ h₂ hat =>
          have hq₂ := Nat.le_trans (Nat.le_of_lt hat.lt) hq
          exact operator_follows hL hand hor (hl _ h₁ (Nat.le_trans (Nat.le_of_lt h₂.lt) hq₂))
            (fun stack o => hr _ _ stack o h₂ hq₂) hat hq
  | unary m op operand =>
      cases h with
      | folded hfold hlit => exact folded_follows hL hreg.1 hfold hlit hpc hq
      | unary hnone h₁ hat =>
          exact unary_follows hL hnone (eval_follows hL inLoop operand hplain hreg.2 h₁ hpc
            (Nat.le_trans (Nat.le_of_lt hat.lt) hq) hh) hat hq
  | cast m typeName operand => cases h

theorem evalAll_follows {L : Layout} {env : RunEnv} {D : Dialect} (hL : L.Suits env D)
    (inLoop : Bool) {vars : String → Value} (es : List Expr) (hplain : Expr.AllPlain es)
    (hreg : Expr.EveryOne D.Regular es) {p q : Nat} {v : View} (h : ExprsCode L es p q)
    (hpc : v.pc = p) (hq : q ≤ Plain.rangeEnd env v) (hh : Holds L vars v.locals) :
    D.WorksAll env inLoop vars es q v := by
  cases es with
  | nil =>
      cases h
      subst hpc
      exact ⟨0, v, .refl v, rfl, rfl⟩
  | cons e rest =>
      cases h with
      | @cons _ _ q₁ _ _ h₁ h₂ =>
          unfold Dialect.WorksAll Dialect.evalAll
          refine (eval_follows hL inLoop e hplain.1 hreg.1 h₁ hpc (Nat.le_trans h₂.le hq) hh).bind ?_
          rintro x o _ ⟨rfl, -⟩
          have hrest := evalAll_follows hL inLoop (v := v.after q₁ (x :: v.stack) o) rest
            hplain.2 hreg.2 h₂ rfl hq hh
          refine hrest.bind ?_
          rintro xs o' _ ⟨rfl, hlen⟩
          exact .pure ⟨by simp, by simp [hlen]⟩

end

end HostScript
