import HostScript.Proofs.Machine.Agreement

namespace HostScript.Work

variable {m : Machine} {v : View} {env : RunEnv}

theorem methodAt_eq (r : Registry) (id : Int32) :
    methodAt r id m = ofCalc (Calc.methodAt r id) m := by
  unfold methodAt Calc.methodAt
  cases r.methods[id.toUInt32.toNat]? <;> rfl

theorem propertyAt_eq (r : Registry) (id : Int32) :
    propertyAt r id m = ofCalc (Calc.propertyAt r id) m := by
  unfold propertyAt Calc.propertyAt
  cases r.properties[id.toUInt32.toNat]? <;> rfl

theorem constructorAt_eq (r : Registry) (id : Int32) :
    constructorAt r id m = ofCalc (Calc.constructorAt r id) m := by
  unfold constructorAt Calc.constructorAt
  cases r.constructors[id.toUInt32.toNat]? <;> rfl

theorem getterOf_eq (d : PropertyDef) : getterOf d m = ofCalc (Calc.getterOf d) m := by
  unfold getterOf Calc.getterOf
  cases d.getter <;> rfl

theorem setterOf_eq (d : PropertyDef) : setterOf d m = ofCalc (Calc.setterOf d) m := by
  unfold setterOf Calc.setterOf
  cases d.setter <;> rfl

theorem poolString_agrees {index : UInt16} {rest : String → Work Unit}
    {rest' : String → Plain Unit} (hs : m.Shows [] [] v)
    (hrest : ∀ s, Agrees (rest s m) (rest' s v)) :
    Agrees ((poolString env index >>= rest) m) ((Plain.poolString env index >>= rest') v) := by
  unfold poolString Plain.poolString
  cases env.script.strings[index.toNat]? with
  | none => exact .fault hs
  | some s => exact hrest s

theorem concat_agrees {a b : Cell} {x y : Value} (hs : m.Shows [a, b] [x, y] v) :
    (∃ c m', concat a b m = .ok c m' ∧ m'.Shows [c, a, b]
      [.text (v.world.display x ++ v.world.display y), x, y] v) ∨
    ∃ f, concat a b m = .error f m ∧ m.Exhausted f := by
  have ha : m.refs.value? a = some x := hs.value
  have hb : m.refs.value? b = some y := by
    have := hs.pending
    simp only [List.map_cons, List.map_nil, List.cons.injEq] at this
    exact this.2.1
  simp only [concat, bind, EStateM.bind, display_eq ha, display_eq hb, hs.world]
  rcases hs.insertText (by simp) (v.world.display x ++ v.world.display y) with
    ⟨h, m', hi, hs'⟩ | ⟨f, hi, he⟩
  · exact .inl ⟨.text h, m', by simp [hi, pure, EStateM.pure], hs'⟩
  · exact .inr ⟨f, by simp [hi], he⟩

-- What an operator may do with two cells that are still held: it makes a new cell, refuses them, or
-- finds no room for its result.
inductive Yields (m : Machine) (a b : Cell) (x y : Value) (v : View) :
    EStateM.Result Fault Machine Cell → EStateM.Result Fault Outside Value → Prop
  | value {c : Cell} {m' : Machine} {z : Value} :
      m'.Shows [c, a, b] [z, x, y] v → Yields m a b x y v (.ok c m') (.ok z v.outside)
  | refused {f : Fault} : Yields m a b x y v (.error f m) (.error f v.outside)
  | full {f : Fault} {z : Value} :
      m.Exhausted f → Yields m a b x y v (.error f m) (.ok z v.outside)

theorem exhausted_pop {a b : Cell} {x y : Value} {m' : Machine}
    (hs : m.Shows [a, b] [x, y] v) (hs' : m'.Shows [] [] v) {f : Fault} (he : m.Exhausted f) :
    m'.Exhausted f := by
  have h₁ := hs.stack_length
  have h₂ := hs'.stack_length
  have h₃ := hs.locals_size
  have h₄ := hs'.locals_size
  have h₅ := hs.stackCapacity
  have h₆ := hs'.stackCapacity
  have h₇ := hs.refCapacity
  have h₈ := hs'.refCapacity
  cases f <;> simp only [Machine.Exhausted] at he ⊢ <;> omega

-- An operator on the two values on top. Both give their references back before a fault is passed
-- on.
theorem binary_agrees {f : Cell → Cell → Work Cell} {k : Value → Value → Calc Value}
    (hf : ∀ a b x y m v, m.Shows [a, b] [x, y] v → Yields m a b x y v (f a b m) (k x y v.outside))
    (hs : m.Shows [] [] v) : Agrees (binary f m) (Plain.apply₂ k v) := by
  refine pop₂_agrees hs fun b a y x m₁ v₁ hs₁ => ?_
  have hy := hf a b x y m₁ v₁ hs₁
  simp only [bind, EStateM.bind, attempt, Plain.ofCalc]
  generalize f a b m₁ = outcome at hy
  generalize k x y v₁.outside = meaning at hy
  cases hy with
  | value hs₂ =>
      obtain ⟨m₃, h₃, hs₃⟩ := (hs₂.rotate [a, b] [x, y] rfl).release
      obtain ⟨m₄, h₄, hs₄⟩ := hs₃.release
      simp only [h₃, h₄, settle, pure, EStateM.pure]
      exact hs₄.push_agrees
  | refused =>
      obtain ⟨m₃, h₃, hs₃⟩ := hs₁.release
      obtain ⟨m₄, h₄, hs₄⟩ := hs₃.release
      simp only [h₃, h₄, settle, throw, throwThe, MonadExceptOf.throw, EStateM.throw]
      exact .fault hs₄
  | full he =>
      obtain ⟨m₃, h₃, hs₃⟩ := hs₁.release
      obtain ⟨m₄, h₄, hs₄⟩ := hs₃.release
      simp only [h₃, h₄, settle, throw, throwThe, MonadExceptOf.throw, EStateM.throw]
      exact .exceeded (exhausted_pop hs₁ hs₄ he) hs₄ rfl

-- Which value belongs to which kind of cell.
inductive Like (t : References) : Cell → Value → Prop
  | null : Like t .null .null
  | number (x : Float) : Like t (.number x) (.number x)
  | bool (b : Bool) : Like t (.bool b) (.bool b)
  | text {h : Nat} {s : String} : t.get? h = some (.text s) → Like t (.text h) (.text s)
  | object {h : Nat} {o : ObjectRef} : t.get? h = some (.object o) → Like t (.object h) (.object o)

theorem like_of_value? {t : References} {c : Cell} {x : Value} (hx : t.value? c = some x) :
    Like t c x := by
  cases c with
  | null => cases hx; exact .null
  | number y => cases hx; exact .number y
  | bool b => cases hx; exact .bool b
  | text h =>
      simp only [References.value?] at hx
      split at hx <;> cases hx
      rename_i hg
      exact .text hg
  | object h =>
      simp only [References.value?] at hx
      split at hx <;> cases hx
      rename_i hg
      exact .object hg

theorem like₂ {a b : Cell} {x y : Value} (hs : m.Shows [a, b] [x, y] v) :
    Like m.refs a x ∧ Like m.refs b y := by
  have hp := hs.pending
  simp only [List.map_cons, List.map_nil, List.cons.injEq, and_true] at hp
  exact ⟨like_of_value? hp.1, like_of_value? hp.2⟩

-- An operator whose result needs no reference.
theorem Yields.plain {a b c : Cell} {x y z : Value} (hs : m.Shows [a, b] [x, y] v)
    (hc : c.handle? = none) (hz : m.refs.value? c = some z) :
    Yields m a b x y v (.ok c m) (.ok z v.outside) :=
  .value (hs.bring hc hz)

theorem concat_yields {a b : Cell} {x y : Value} (hs : m.Shows [a, b] [x, y] v) :
    Yields m a b x y v (concat a b m)
      (.ok (.text (v.world.display x ++ v.world.display y)) v.outside) := by
  rcases concat_agrees hs with ⟨c, m', h', hs'⟩ | ⟨f, h', he⟩
  · rw [h']
    exact .value hs'
  · rw [h']
    exact .full he

theorem arithResult_yields (op : Arith) (a b : Cell) (x y : Value) (m : Machine) (v : View)
    (hs : m.Shows [a, b] [x, y] v) :
    Yields m a b x y v (arithResult op a b m) (Calc.arith op x y v.outside) := by
  have hconcat := concat_yields hs
  obtain ⟨hx, hy⟩ := like₂ hs
  cases hx <;> cases hy <;> first
    | exact .plain hs rfl rfl
    | exact .refused
    | (by_cases hadd : op = .add
       · simp only [arithResult, Calc.arith, hadd, if_true]
         exact hconcat
       · simp only [arithResult, Calc.arith, hadd, if_false]
         exact .refused)

theorem orderResult_yields (op : Order) (a b : Cell) (x y : Value) (m : Machine) (v : View)
    (hs : m.Shows [a, b] [x, y] v) :
    Yields m a b x y v (orderResult op a b m) (Calc.order op x y v.outside) := by
  obtain ⟨hx, hy⟩ := like₂ hs
  cases hx <;> cases hy <;> first
    | exact .plain hs rfl rfl
    | exact .refused

-- An object has one position, so that equal handles and equal objects are the same thing.
theorem handle_eq_iff {t : References} (hs : t.Sound) {h k : Nat} {o p : ObjectRef}
    (ho : t.get? h = some (.object o)) (hp : t.get? k = some (.object p)) : h = k ↔ o = p := by
  constructor
  · rintro rfl
    rw [ho] at hp
    exact Payload.object.inj (Option.some.inj hp)
  · rintro rfl
    have h₁ := (hs.holder o h).mpr ho
    have h₂ := (hs.holder o k).mpr hp
    exact Option.some.inj (h₁.symm.trans h₂)

theorem equalResult_eq (negated : Bool) {a b : Cell} {x y : Value}
    (hs : m.Shows [a, b] [x, y] v) :
    equalResult negated a b m = .ok (.bool (x.equal y != negated)) m := by
  obtain ⟨hx, hy⟩ := like₂ hs
  cases hx with
  | text hs₁ =>
      cases hy with
      | text hs₂ =>
          rename_i h s k t
          by_cases hk : h = k
          · subst hk
            rw [hs₁] at hs₂
            cases hs₂
            simp [equalResult, bind, EStateM.bind, pure, EStateM.pure, Value.equal]
          · simp [equalResult, bind, EStateM.bind, pure, EStateM.pure, Value.equal, hk, readRefs,
              References.text, hs₁, hs₂]
      | _ => rfl
  | object ho =>
      cases hy with
      | object hp =>
          rename_i h o k p
          have hbeq : (h == k) = decide (o = p) := by
            rw [Bool.eq_iff_iff]
            simpa using handle_eq_iff hs.sound ho hp
          simp [equalResult, bind, EStateM.bind, pure, EStateM.pure, Value.equal, hbeq]
      | _ => rfl
  | _ => cases hy <;> rfl

theorem equalResult_yields (negated : Bool) (a b : Cell) (x y : Value) (m : Machine) (v : View)
    (hs : m.Shows [a, b] [x, y] v) :
    Yields m a b x y v (equalResult negated a b m) (Calc.equal negated x y v.outside) := by
  rw [equalResult_eq negated hs]
  exact .plain hs rfl rfl

-- Values that an instruction cannot use are given back before it fails.
theorem refuse_agrees {c : Cell} {x : Value} {f : Fault} (hs : m.Shows [c] [x] v) :
    Agrees ((do
      release c
      throw f : Work Unit) m) (.error f v) := by
  obtain ⟨m₁, h₁, hs₁⟩ := hs.release
  simp only [bind, EStateM.bind, h₁, throw, throwThe, MonadExceptOf.throw, EStateM.throw]
  exact .fault hs₁

theorem refuse₂_agrees {a b : Cell} {x y : Value} {f : Fault} (hs : m.Shows [a, b] [x, y] v) :
    Agrees ((do
      release a
      release b
      throw f : Work Unit) m) (.error f v) := by
  obtain ⟨m₁, h₁, hs₁⟩ := hs.release
  have hb := refuse_agrees (f := f) hs₁
  simp only [bind, EStateM.bind, h₁] at hb ⊢
  exact hb

theorem binaryNum_agrees {f : Float → Float → Cell} {g : Float → Float → Value}
    (hfg : ∀ x y (t : References), (f x y).handle? = none ∧ t.value? (f x y) = some (g x y))
    (hs : m.Shows [] [] v) : Agrees (binaryNum f m) (Plain.apply₂ (Calc.onNumbers g) v) := by
  refine pop₂_agrees hs fun b a y x m₁ v₁ hs₁ => ?_
  obtain ⟨hx, hy⟩ := like₂ hs₁
  cases hx with
  | number x =>
      cases hy with
      | number y =>
          obtain ⟨hc, hz⟩ := hfg x y m₁.refs
          exact ((hs₁.forget rfl).forget rfl).pushPlain_agrees hc hz
      | _ => exact refuse₂_agrees hs₁
  | _ => exact refuse₂_agrees hs₁

theorem neg_agrees (hs : m.Shows [] [] v) : Agrees (neg m) (Plain.apply Calc.neg v) := by
  refine pop_agrees hs fun c x m₁ v₁ hs₁ => ?_
  cases like_of_value? hs₁.value with
  | number x => exact (hs₁.forget rfl).pushPlain_agrees rfl rfl
  | _ => exact refuse_agrees hs₁

theorem negNum_agrees (hs : m.Shows [] [] v) : Agrees (negNum m) (Plain.apply Calc.negNum v) := by
  refine pop_agrees hs fun c x m₁ v₁ hs₁ => ?_
  cases like_of_value? hs₁.value with
  | number x => exact (hs₁.forget rfl).pushPlain_agrees rfl rfl
  | _ => exact refuse_agrees hs₁

theorem not_agrees (hs : m.Shows [] [] v) : Agrees (not m) (Plain.apply Calc.not v) := by
  refine pop_agrees hs fun c x m₁ v₁ hs₁ => ?_
  cases like_of_value? hs₁.value with
  | bool b => exact (hs₁.forget rfl).pushPlain_agrees rfl rfl
  | _ => exact refuse_agrees hs₁

theorem jumpIf_agrees (on : Bool) (target : Int32) (hs : m.Shows [] [] v) :
    Agrees (jumpIf env on target m) (Plain.jumpIf env on target v) := by
  unfold jumpIf Plain.jumpIf jumpTarget Plain.jumpTarget
  by_cases ht : 0 ≤ target.toInt ∧ target.toInt ≤ env.script.code.size
  · simp only [ht, and_self, if_true]
    refine pop_agrees hs fun c x m₁ v₁ hs₁ => ?_
    cases like_of_value? hs₁.value with
    | bool b =>
        have hs₂ : m₁.Shows [] [] v₁ := hs₁.forget rfl
        by_cases hb : b = on
        · simp only [hb, bind, EStateM.bind, Plain.ofCalc, Calc.asBool, pure, EStateM.pure, if_true]
          exact .ok (hs₂.jump _)
        · simp only [hb, if_false]
          simp only [bind, EStateM.bind, Plain.ofCalc, Calc.asBool, pure, EStateM.pure, hb, if_false]
          exact .ok hs₂
    | _ => exact refuse_agrees hs₁
  · simp only [ht, if_false]
    exact .fault hs

theorem jump_agrees (target : Int32) (hs : m.Shows [] [] v) :
    Agrees (jump env target m) ((Plain.jumpTarget env target >>= Plain.jumpTo) v) := by
  unfold jump jumpTarget Plain.jumpTarget
  by_cases ht : 0 ≤ target.toInt ∧ target.toInt ≤ env.script.code.size
  · simp only [ht, and_self, if_true]
    exact .ok (hs.jump _)
  · simp only [ht, if_false]
    exact .fault hs

theorem loadLoc_agrees (slot : UInt8) (hs : m.Shows [] [] v) :
    Agrees (loadLoc slot m) ((Plain.loadLocal slot.toNat >>= Plain.push) v) := by
  simp only [loadLoc, bind, EStateM.bind, loadLocal, Plain.loadLocal]
  rcases hs.getLocal slot.toNat with ⟨hv, hm⟩ | ⟨c, x, hv, hm, hx⟩
  · simp only [hv, hm]
    exact .fault hs
  · simp only [hv, hm]
    cases hc : c.handle? with
    | none => exact hs.pushPlain_agrees hc hx
    | some h =>
        have hheld : m.refs.uses h ≠ 0 := by
          have hmem : c ∈ m.locals.toList := by
            simpa using Array.mem_of_getElem? hm
          have hpos := Cell.occurrences_pos hmem hc
          have := hs.counted h
          omega
        obtain ⟨t, p, ht, hp, hg⟩ := References.addRef_gains hs.sound hheld
        have hx' : t.value? c = some x := by
          rw [References.value?_congr fun k hk => ?_, hx]
          rw [hc] at hk
          cases hk
          exact hg.kept h hheld
        have hadd : (onRefs (fun t => do return ((), ← t.addRef h)) >>= fun _ => push c) m =
            push c { m with refs := t } := by
          simp [onRefs, ht, bind, EStateM.bind, Except.bind, pure, Except.pure]
        have hpush := (hs.gain hg hc hx').push_agrees
        rw [← hadd] at hpush
        exact hpush

theorem loadLocNoRef_agrees (slot : UInt8) (hs : m.Shows [] [] v)
    (hplain : ∀ x, v.locals[slot.toNat]? = some x → x.isRef = false) :
    Agrees ((loadLocal slot.toNat >>= push) m) ((Plain.loadLocal slot.toNat >>= Plain.push) v) := by
  simp only [bind, EStateM.bind, loadLocal, Plain.loadLocal]
  rcases hs.getLocal slot.toNat with ⟨hv, hm⟩ | ⟨c, x, hv, hm, hx⟩
  · simp only [hv, hm]
    exact .fault hs
  · simp only [hv, hm]
    exact hs.pushPlain_agrees ((References.handle?_eq_none_iff hx).mpr (hplain x hv)) hx

-- Exchanging the value of a variable for the one on top, with what is done about the old one.
theorem store_agrees {slot : UInt8} {old : Cell → Work Unit} (hs : m.Shows [] [] v)
    (hold : ∀ c x m₁ v₁, v.locals[slot.toNat]? = some x → m₁.Shows [c] [x] v₁ →
      ∃ m₂, old c m₁ = .ok () m₂ ∧ m₂.Shows [] [] v₁) :
    Agrees ((do
      let _ ← loadLocal slot.toNat
      old (← storeLocal slot.toNat (← pop))) m) (Plain.store slot v) := by
  simp only [bind, EStateM.bind, loadLocal, Plain.store, Plain.loadLocal]
  rcases hs.getLocal slot.toNat with ⟨hv, hm⟩ | ⟨d, y, hv, hm, hy⟩
  · simp only [hv, hm]
    exact .fault hs
  · simp only [hv, hm]
    cases hstack : v.stack with
    | nil =>
        simp only [hs.pop_nil hstack, Plain.pop, hstack]
        exact .underflow
    | cons x stack =>
        obtain ⟨c, m₁, h₁, hs₁⟩ := hs.pop_cons hstack
        have hlocal : ∃ d, m₁.locals[slot.toNat]? = some d ∧ m₁.refs.value? d = some y := by
          rcases hs₁.getLocal slot.toNat with ⟨hv', _⟩ | ⟨d', y', hv', hm', hy'⟩
          · rw [hv] at hv'
            cases hv'
          · rw [hv] at hv'
            cases hv'
            exact ⟨d', hm', hy'⟩
        obtain ⟨d', hm', hy'⟩ := hlocal
        obtain ⟨m₂, h₂, hs₂⟩ := hold _ _ _ _ hv (hs₁.setLocal hm' hy')
        simp only [h₁, storeLocal, loadLocal, bind, EStateM.bind, hm', modify, modifyGet,
          MonadStateOf.modifyGet, EStateM.modifyGet, pure, EStateM.pure, h₂, Plain.pop, hstack,
          Plain.storeLocal]
        exact .ok hs₂

theorem setLoc_agrees (slot : UInt8) (hs : m.Shows [] [] v) :
    Agrees (setLoc slot m) (Plain.store slot v) :=
  store_agrees hs fun _ _ _ _ _ hs₁ => hs₁.release

theorem setLocNoRef_agrees (slot : UInt8) (hs : m.Shows [] [] v)
    (hplain : ∀ x, v.locals[slot.toNat]? = some x → x.isRef = false) :
    Agrees (setLocNoRef slot m) (Plain.store slot v) :=
  store_agrees hs fun _ x m₁ _ hv hs₁ =>
    ⟨m₁, rfl, hs₁.forget ((References.handle?_eq_none_iff hs₁.value).mpr (hplain x hv))⟩

theorem ofCalc_result_agrees {w : Work Value} {k : Calc Value} {r : Registry} {declared : Ty}
    {member : String} (hs : m.Shows [] [] v) (hw : w m = ofCalc k m) :
    Agrees ((do pushResult r declared member (← w)) m)
      ((do Plain.push (← Plain.ofCalc (do Calc.result r declared member (← k)))) v) := by
  rw [Plain.ofCalc_bind, bind_assoc]
  exact ofCalc_agrees hs hw fun y m₁ v₁ hs₁ => hs₁.pushResult_agrees r declared member y

theorem invokeStatic_agrees (r : Registry) (id : Int32) (hs : m.Shows [] [] v) :
    Agrees (invokeStatic r id m) (Plain.invokeStatic r id v) := by
  refine ofCalc_agrees hs (methodAt_eq r id) fun d m₁ v₁ hs₁ => ?_
  refine popArgs_agrees hs₁ fun args m₂ v₂ hs₂ => ?_
  exact ofCalc_result_agrees hs₂ (host_eq _)

-- A member of an object: whatever happens, the object's reference is given back before the result
-- is pushed.
theorem member_agrees {c : Cell} {x : Value} (r : Registry) (declared : Ty) (member : String)
    {w : Work Value} {k : Calc Value} (hs : m.Shows [c] [x] v) (hw : w m = ofCalc k m) :
    Agrees ((do
        let value ← attempt w
        release c
        pushResult r declared member (← settle value)) m)
      ((do Plain.push (← Plain.ofCalc (do Calc.result r declared member (← k)))) v) := by
  rw [Plain.ofCalc_bind, bind_assoc]
  exact attempt_agrees hs hw (fun _ _ => Machine.Shows.release)
    fun y m₁ v₁ hs₁ => hs₁.pushResult_agrees r declared member y

theorem receiver_host_eq {c : Cell} {x : Value} (member : String)
    (hx : m.refs.value? c = some x) {α : Type} (call : ObjectRef → HostM α) :
    (do
      let o ← objectOf member c
      host (call o) : Work α) m = ofCalc (do
        let o ← Calc.receiver member x
        Calc.host (call o)) m :=
  ofCalc_bind (objectOf_eq member hx) fun _ _ _ => host_eq _

theorem invoke_agrees (r : Registry) (id : Int32) (hs : m.Shows [] [] v) :
    Agrees (invoke r id m) (Plain.invoke r id v) := by
  refine ofCalc_agrees hs (methodAt_eq r id) fun d m₁ v₁ hs₁ => ?_
  refine popArgs_agrees hs₁ fun args m₂ v₂ hs₂ => ?_
  refine pop_agrees hs₂ fun c x m₃ v₃ hs₃ => ?_
  have hcall := member_agrees r d.returns d.name hs₃ (receiver_host_eq d.name hs₃.value
    fun o => d.call r.callContext (some o) args)
  rw [bind_assoc] at hcall
  exact hcall

theorem getProperty_agrees (r : Registry) (id : Int32) (hs : m.Shows [] [] v) :
    Agrees (getProperty r id m) (Plain.getProperty r id v) := by
  refine ofCalc_agrees hs (propertyAt_eq r id) fun d m₁ v₁ hs₁ => ?_
  refine ofCalc_agrees hs₁ (getterOf_eq d) fun get m₂ v₂ hs₂ => ?_
  refine pop_agrees hs₂ fun c x m₃ v₃ hs₃ => ?_
  have hcall := member_agrees r d.ty d.name hs₃ (receiver_host_eq d.name hs₃.value
    fun o => get (some o))
  rw [bind_assoc] at hcall
  exact hcall

theorem getStaticProperty_agrees (r : Registry) (id : Int32) (hs : m.Shows [] [] v) :
    Agrees (getStaticProperty r id m) (Plain.getStaticProperty r id v) := by
  refine ofCalc_agrees hs (propertyAt_eq r id) fun d m₁ v₁ hs₁ => ?_
  refine ofCalc_agrees hs₁ (getterOf_eq d) fun get m₂ v₂ hs₂ => ?_
  exact ofCalc_result_agrees hs₂ (host_eq _)

theorem giveBoth_shows {c target : Cell} {x y : Value} (m₁ : Machine) (v₁ : View)
    (hs : m₁.Shows [target, c] [y, x] v₁) :
    ∃ m₂, (do release c; release target : Work Unit) m₁ = .ok () m₂ ∧ m₂.Shows [] [] v₁ := by
  obtain ⟨m₂, h₂, hs₂⟩ := (hs.rotate [c] [x] rfl).release
  obtain ⟨m₃, h₃, hs₃⟩ := hs₂.release
  exact ⟨m₃, by simp [bind, EStateM.bind, h₂, h₃], hs₃⟩

theorem setProperty_agrees (r : Registry) (id : Int32) (hs : m.Shows [] [] v) :
    Agrees (setProperty r id m) (Plain.setProperty r id v) := by
  refine ofCalc_agrees hs (propertyAt_eq r id) fun d m₁ v₁ hs₁ => ?_
  refine ofCalc_agrees hs₁ (setterOf_eq d) fun set m₂ v₂ hs₂ => ?_
  refine pop₂_agrees hs₂ fun c target x y m₃ v₃ hs₃ => ?_
  have hvalues := hs₃.pending
  simp only [List.map_cons, List.map_nil, List.cons.injEq, and_true] at hvalues
  have hwrite : (do
      let o ← objectOf d.name target
      let x ← toValue c
      host (set (some o) x) : Work Unit) m₃ = ofCalc (Calc.writeProperty d set y x) m₃ := by
    refine ofCalc_bind (objectOf_eq d.name hvalues.1) fun o m₄ hm₄ => ?_
    rw [← hm₄] at hvalues
    simp only [bind, EStateM.bind, toValue_eq hvalues.2]
    exact host_eq _
  have hall := attempt_last_agrees hs₃ hwrite giveBoth_shows
  simpa only [bind_assoc] using hall

theorem setStaticProperty_agrees (r : Registry) (id : Int32) (hs : m.Shows [] [] v) :
    Agrees (setStaticProperty r id m) (Plain.setStaticProperty r id v) := by
  refine ofCalc_agrees hs (propertyAt_eq r id) fun d m₁ v₁ hs₁ => ?_
  refine ofCalc_agrees hs₁ (setterOf_eq d) fun set m₂ v₂ hs₂ => ?_
  refine pop_agrees hs₂ fun c x m₃ v₃ hs₃ => ?_
  have hwrite : (do
      let x ← toValue c
      host (set none x) : Work Unit) m₃ = ofCalc (Calc.writeStatic set x) m₃ := by
    simp only [bind, EStateM.bind, toValue_eq hs₃.value]
    exact host_eq _
  exact attempt_last_agrees hs₃ hwrite fun _ _ => Machine.Shows.release

theorem instanceType_eq (r : Registry) (member : String) {c : Cell} {x : Value}
    (hx : m.refs.value? c = some x) :
    instanceType r member c m = ofCalc (Calc.instanceType r member x) m := by
  simp only [instanceType, bind, EStateM.bind, typeOf_eq r hx, Calc.instanceType]
  cases r.typeOf x <;> rfl

theorem checkArgs_eq (r : Registry) (member : String) {cells : List Cell} {xs : List Value}
    (hx : cells.map m.refs.value? = xs.map some) (index : Nat) (params : List Ty) :
    checkArgs r member index params cells m = ofCalc (Calc.checkArgs r member index params xs) m := by
  induction params generalizing index cells xs with
  | nil => rfl
  | cons ty params ih =>
      cases cells with
      | nil =>
          cases xs with
          | nil => rfl
          | cons x xs => simp at hx
      | cons c cells =>
          cases xs with
          | nil => simp at hx
          | cons x xs =>
              simp only [List.map_cons, List.cons.injEq] at hx
              simp only [checkArgs, bind, EStateM.bind, typeOf_eq r hx.1, Calc.checkArgs]
              by_cases hadm : ty.admits (r.typeOf x)
              · simp only [hadm, if_true]
                exact ih hx.2 _
              · simp only [hadm]
                rfl

theorem methodNamed_eq (r : Registry) (ty : Nat) (name : String) (count : Nat) :
    methodNamed r ty name count m = ofCalc (Calc.methodNamed r ty name count) m := by
  unfold methodNamed Calc.methodNamed
  generalize (r.instanceMethods ty name).filter (·.params.length = count) = found
  rcases found with _ | ⟨d, _ | ⟨e, rest⟩⟩ <;> rfl

theorem callNamed_eq (r : Registry) (name : String) {c : Cell} {x : Value} {cells : List Cell}
    {xs : List Value} (hx : m.refs.value? c = some x)
    (hxs : cells.map m.refs.value? = xs.map some) :
    callNamed r name c cells m = ofCalc (Calc.callNamed r name x xs) m := by
  have hlen : cells.length = xs.length := by simpa using congrArg List.length hxs
  refine ofCalc_bind (instanceType_eq r name hx) fun ty m₁ h₁ => ?_
  rw [← h₁] at hx hxs
  refine ofCalc_bind (objectOf_eq name hx) fun o m₂ h₂ => ?_
  rw [← h₂] at hxs
  rw [hlen]
  refine ofCalc_bind (methodNamed_eq r ty name xs.length) fun d m₃ h₃ => ?_
  rw [← h₃] at hxs
  refine ofCalc_bind (checkArgs_eq r name hxs 1 d.params) fun _ m₄ h₄ => ?_
  rw [← h₄] at hxs
  simp only [bind, EStateM.bind, toValues_eq hxs]
  exact ofCalc_bind (host_eq _) fun _ _ _ => rfl

theorem readNamed_eq (r : Registry) (name : String) {c : Cell} {x : Value}
    (hx : m.refs.value? c = some x) :
    readNamed r name c m = ofCalc (Calc.readNamed r name x) m := by
  refine ofCalc_bind (instanceType_eq r name hx) fun ty m₁ h₁ => ?_
  rw [← h₁] at hx
  refine ofCalc_bind (objectOf_eq name hx) fun o m₂ h₂ => ?_
  generalize (r.instanceProperties ty name).filterMap _ = readable
  generalize (r.instanceMethods ty name).filter _ = methods
  rcases readable with _ | ⟨p, _ | ⟨q, rest⟩⟩
  · rcases methods with _ | ⟨d, _ | ⟨e, more⟩⟩
    · rfl
    · exact ofCalc_bind (host_eq _) fun _ _ _ => rfl
    · rfl
  · exact ofCalc_bind (host_eq _) fun _ _ _ => rfl
  · rcases methods with _ | ⟨d, _ | ⟨e, more⟩⟩
    · rfl
    · exact ofCalc_bind (host_eq _) fun _ _ _ => rfl
    · rfl

theorem writeNamed_eq (r : Registry) (name : String) {c d : Cell} {x y : Value}
    (hx : m.refs.value? c = some x) (hy : m.refs.value? d = some y) :
    writeNamed r name c d m = ofCalc (Calc.writeNamed r name x y) m := by
  refine ofCalc_bind (instanceType_eq r name hx) fun ty m₁ h₁ => ?_
  rw [← h₁] at hx hy
  refine ofCalc_bind (objectOf_eq name hx) fun o m₂ h₂ => ?_
  rw [← h₂] at hy
  generalize (r.instanceProperties ty name).filterMap _ = writable
  rcases writable with _ | ⟨p, _ | ⟨q, rest⟩⟩
  · rfl
  · simp only [bind, EStateM.bind, typeOf_eq r hy]
    by_cases hadm : p.1.admits (r.typeOf y)
    · simp only [hadm, if_true, EStateM.bind, toValue_eq hy]
      exact host_eq _
    · simp only [hadm]
      rfl
  · rfl

end HostScript.Work
