import HostScript.Host.Core
import HostScript.Proofs.Machine.Answer
import HostScript.Proofs.Machine.Effect
import HostScript.Proofs.Machine.Ownership

namespace HostScript

-- The method or property that an operand picks is the only instance member of its name that a type
-- has, methods and properties together.
structure Registry.OnlyMethod (r : Registry) (ty : Nat) (name : String) (id : Int32)
    (d : MethodDef) : Prop where
  picked : r.methods[id.toUInt32.toNat]? = some d
  methods : r.instanceMethods ty name = [d]
  properties : r.instanceProperties ty name = []

structure Registry.OnlyProperty (r : Registry) (ty : Nat) (name : String) (id : Int32)
    (d : PropertyDef) : Prop where
  picked : r.properties[id.toUInt32.toNat]? = some d
  methods : r.instanceMethods ty name = []
  properties : r.instanceProperties ty name = [d]

theorem Registry.OnlyMethod.name_eq {r : Registry} {ty : Nat} {name : String} {id : Int32}
    {d : MethodDef} (h : r.OnlyMethod ty name id d) : d.name = name := by
  have hmem : d ∈ r.instanceMethods ty name := by simp [h.methods]
  simp only [instanceMethods, List.mem_filter, Bool.and_eq_true, decide_eq_true_eq] at hmem
  exact hmem.2.2

theorem Registry.OnlyProperty.name_eq {r : Registry} {ty : Nat} {name : String} {id : Int32}
    {d : PropertyDef} (h : r.OnlyProperty ty name id d) : d.name = name := by
  have hmem : d ∈ r.instanceProperties ty name := by simp [h.properties]
  simp only [instanceProperties, List.mem_filter, Bool.and_eq_true, decide_eq_true_eq] at hmem
  exact hmem.2.2

-- The cell's value may be stored where `ty` is declared, as far as the machine can tell.
def Machine.Fits (r : Registry) (m : Machine) (ty : Ty) (c : Cell) : Prop :=
  ∃ actual, Work.typeOf r c m = .ok actual m ∧ ty.admits actual = true

namespace Machine.Owned

variable {m : Machine} {c : Cell}

theorem isSome_value? (hm : m.Owned) (hc : c ∈ m.stack ++ m.locals.toList) :
    ∃ x, m.refs.value? c = some x := by
  cases c with
  | null => exact ⟨_, rfl⟩
  | number x => exact ⟨_, rfl⟩
  | bool b => exact ⟨_, rfl⟩
  | text h =>
      obtain ⟨s, hs⟩ := hm.text h hc
      exact ⟨.text s, by simp [References.value?, hs]⟩
  | object h =>
      obtain ⟨o, ho⟩ := hm.object h hc
      exact ⟨.object o, by simp [References.value?, ho]⟩

theorem exists_values (hm : m.Owned) {cells : List Cell}
    (hcells : ∀ c ∈ cells, c ∈ m.stack ++ m.locals.toList) :
    ∃ xs : List Value, cells.map m.refs.value? = xs.map some := by
  induction cells with
  | nil => exact ⟨[], rfl⟩
  | cons c cells ih =>
      obtain ⟨x, hx⟩ := hm.isSome_value? (hcells c List.mem_cons_self)
      obtain ⟨xs, hxs⟩ := ih fun d hd => hcells d (List.mem_cons_of_mem c hd)
      exact ⟨x :: xs, by simp [hx, hxs]⟩

end Machine.Owned

namespace Work

variable {m : Machine} {r : Registry}

theorem popMany_append {args below : List Cell} {count : Nat} (hcount : count = args.length)
    (hstack : m.stack = args.reverse ++ below) :
    popMany count m = .ok args { m with stack := below } := by
  have hlen : count = args.reverse.length := by simpa using hcount
  simp only [popMany, hstack, hlen]
  simp

theorem exists_object_of_typeOf {c : Cell} {ty : Nat} (h : typeOf r c m = .ok (.object ty) m) :
    ∃ o, m.refs.value? c = some (.object o) ∧ r.typeOf (.object o) = .object ty := by
  cases c with
  | null => cases h
  | number x =>
      by_cases hx : Number.isWhole x <;> simp [typeOf, hx, pure, EStateM.pure] at h
  | bool b => cases h
  | text k => cases h
  | object k =>
      cases hp : m.refs.get? k with
      | none => simp [typeOf, bind, EStateM.bind, get, getThe, MonadStateOf.get, EStateM.get, hp,
          pure, EStateM.pure] at h
      | some p =>
          cases p with
          | text s => simp [typeOf, bind, EStateM.bind, get, getThe, MonadStateOf.get, EStateM.get,
              hp, pure, EStateM.pure] at h
          | object o =>
              refine ⟨o, by simp [References.value?, hp], ?_⟩
              simpa [typeOf, bind, EStateM.bind, get, getThe, MonadStateOf.get, EStateM.get, hp,
                pure, EStateM.pure] using h

theorem objectOf_object {c : Cell} {o : ObjectRef} (ho : m.refs.value? c = some (.object o))
    (member : String) : objectOf member c m = .ok o m := by
  rw [objectOf_eq member ho]
  rfl

theorem admits_of_fits {c : Cell} {x : Value} {ty : Ty} (hx : m.refs.value? c = some x)
    (h : m.Fits r ty c) : ty.admits (r.typeOf x) = true := by
  obtain ⟨actual, htype, hadm⟩ := h
  rw [typeOf_eq r hx] at htype
  cases htype
  exact hadm

theorem admits_all_of_fits {params : List Ty} {args : List Cell} {xs : List Value}
    (hxs : args.map m.refs.value? = xs.map some) (hfits : List.Forall₂ (m.Fits r) params args) :
    List.Forall₂ (fun ty x => ty.admits (r.typeOf x) = true) params xs := by
  induction hfits generalizing xs with
  | nil =>
      obtain rfl : xs = [] := by simpa using hxs.symm
      exact .nil
  | cons hfit _ ih =>
      cases xs with
      | nil => simp at hxs
      | cons x xs =>
          simp only [List.map_cons, List.cons.injEq] at hxs
          exact .cons (admits_of_fits hxs.1 hfit) (ih hxs.2)

theorem checkArgs_of_admits {params : List Ty} {xs : List Value}
    (hxs : List.Forall₂ (fun ty x => ty.admits (r.typeOf x) = true) params xs) (member : String)
    (index : Nat) : Calc.checkArgs r member index params xs = pure () := by
  induction hxs generalizing index with
  | nil => rfl
  | cons hx _ ih =>
      rw [Calc.checkArgs, if_pos hx]
      exact ih (index + 1)

variable {target : Cell} {rest : List Cell} {o : ObjectRef} {ty : Nat} {name : String} {id : Int32}

theorem callNamed_eq_host {d : MethodDef} {args : List Cell} {xs : List Value}
    (hd : r.OnlyMethod ty name id d) (hty : r.typeOf (.object o) = .object ty)
    (ho : m.refs.value? target = some (.object o)) (hxs : args.map m.refs.value? = xs.map some)
    (hadm : List.Forall₂ (fun ty x => ty.admits (r.typeOf x) = true) d.params xs) :
    callNamed r name target args m =
      ofCalc (do return (d.returns, ← Calc.host (d.call r.callContext (some o) xs))) m := by
  have hlen := hadm.length_eq
  have hcheck := checkArgs_of_admits hadm name 1
  rw [callNamed_eq r name ho hxs, Calc.callNamed]
  simp [Calc.instanceType, hty, Calc.receiver, Calc.methodNamed, hd.methods, hlen, hcheck]

theorem readNamed_eq_call {d : MethodDef} (hd : r.OnlyMethod ty name id d)
    (hty : r.typeOf (.object o) = .object ty) (ho : m.refs.value? target = some (.object o))
    (hnone : d.params = []) :
    readNamed r name target m =
      ofCalc (do return (d.returns, ← Calc.host (d.call r.callContext (some o) []))) m := by
  rw [readNamed_eq r name ho, Calc.readNamed]
  simp [Calc.instanceType, hty, Calc.receiver, hd.methods, hd.properties, hnone]

theorem readNamed_eq_get {d : PropertyDef} {get : Getter} (hd : r.OnlyProperty ty name id d)
    (hget : d.getter = some get) (hty : r.typeOf (.object o) = .object ty)
    (ho : m.refs.value? target = some (.object o)) :
    readNamed r name target m = ofCalc (do return (d.ty, ← Calc.host (get (some o)))) m := by
  rw [readNamed_eq r name ho, Calc.readNamed]
  simp [Calc.instanceType, hty, Calc.receiver, hd.properties, hget]

theorem writeNamed_eq_host {d : PropertyDef} {set : Setter} {c : Cell} {x : Value}
    (hd : r.OnlyProperty ty name id d) (hset : d.setter = some set)
    (hty : r.typeOf (.object o) = .object ty) (ho : m.refs.value? target = some (.object o))
    (hx : m.refs.value? c = some x) (hadm : d.ty.admits (r.typeOf x) = true) :
    writeNamed r name target c m = host (set (some o) x) m := by
  rw [writeNamed_eq r name ho hx, Calc.writeNamed, host_eq]
  simp [Calc.instanceType, hty, Calc.receiver, hd.properties, hset, hadm]

variable [HostHooks]

-- Taking counted arguments off the stack leaves the cells below them with their values.
theorem popArgs_counted (hm : m.Owned) {args below : List Cell} {xs : List Value}
    (hstack : m.stack = args.reverse ++ below) (hxs : args.map m.refs.value? = xs.map some) :
    ∃ t told, GivesBack args m.refs t told ∧
      popArgs args.length m = .ok xs
        { m with stack := below, refs := t, world := HostHooks.tellAll told m.world } ∧
      ∀ c ∈ below, t.value? c = m.refs.value? c := by
  have hcount : ∀ h, m.refs.uses h = Cell.occurrences h args +
      (Cell.occurrences h below + Cell.occurrences h m.locals.toList) := by
    intro h
    rw [hm.counted h, hstack]
    simp only [Cell.occurrences_append, Cell.occurrences_reverse, Nat.add_assoc]
  obtain ⟨t, told, hback, hkept⟩ := givesBack_of_counted args m.refs fun h => by
    rw [hcount h]
    omega
  refine ⟨t, told, hback, ?_, fun c hc => References.value?_congr fun h hh => hkept h ?_⟩
  · have hpop := popMany_append rfl hstack
    have hvalues := toValues_eq (m := { m with stack := below }) hxs
    have hreleased := hback.releaseAll { m with stack := below } rfl
    simp only [popArgs, bind, EStateM.bind, hpop, attempt, hvalues, hreleased]
    rfl
  · have hpos := Cell.occurrences_pos hc hh
    rw [hcount h]
    omega

-- What a lookup by name comes to, once it has found its member.
theorem answer_of_named {x : Work (Ty × Value)} {declared : Ty} {call : HostM Value}
    (hx : x m = ofCalc (do return (declared, ← Calc.host call)) m) (member : String)
    (operands : List Cell) :
    (do
      let outcome ← attempt x
      releaseAll operands
      let (declared, value) ← settle outcome
      pushResult r declared member value : Work Unit) m =
      answer r declared member operands call m := by
  have hhost : x m = (do return (declared, ← host call) : Work (Ty × Value)) m := by
    rw [hx]
    exact (ofCalc_bind (host_eq call) fun _ _ _ => rfl).symm
  simp only [answer, conclude, bind, EStateM.bind, attempt, hhost]
  cases host call m with
  | ok v m' => cases hr : releaseAll operands m' <;> simp [pure, EStateM.pure, hr, settle]
  | error f m' =>
      cases hr : releaseAll operands m' <;>
        simp [hr, settle, throw, throwThe, MonadExceptOf.throw, EStateM.throw]

theorem invoke_eq_answer {d : MethodDef} {count : Nat} {xs : List Value} {m₁ : Machine}
    (hd : r.methods[id.toUInt32.toNat]? = some d) (hcount : d.params.length = count)
    (hargs : popArgs count m = .ok xs m₁) (hstack : m₁.stack = target :: rest)
    (ho : m₁.refs.value? target = some (.object o)) :
    invoke r id m = answer r d.returns d.name [target] (d.call r.callContext (some o) xs)
      { m₁ with stack := rest } := by
  have hreceiver := objectOf_object (m := { m₁ with stack := rest }) ho d.name
  simp only [invoke, methodAt, hd, bind, EStateM.bind, pure, EStateM.pure, hcount, hargs, pop, hstack,
    answer, conclude, attempt, hreceiver, releaseAll_singleton]

theorem getProperty_eq_answer {d : PropertyDef} {get : Getter}
    (hd : r.properties[id.toUInt32.toNat]? = some d) (hget : d.getter = some get)
    (hstack : m.stack = target :: rest) (ho : m.refs.value? target = some (.object o)) :
    getProperty r id m = answer r d.ty d.name [target] (get (some o)) { m with stack := rest } := by
  have hreceiver := objectOf_object (m := { m with stack := rest }) ho d.name
  simp only [getProperty, propertyAt, hd, getterOf, hget, bind, EStateM.bind, pure, EStateM.pure, pop,
    hstack, attempt, hreceiver, answer, conclude, releaseAll_singleton]

theorem setProperty_eq_obey {d : PropertyDef} {set : Setter} {c : Cell} {x : Value}
    (hd : r.properties[id.toUInt32.toNat]? = some d) (hset : d.setter = some set)
    (hstack : m.stack = c :: target :: rest) (hx : m.refs.value? c = some x)
    (ho : m.refs.value? target = some (.object o)) :
    setProperty r id m = obey [c, target] (set (some o) x) { m with stack := rest } := by
  have hreceiver := objectOf_object (m := { m with stack := rest }) ho d.name
  have hvalue := toValue_eq (m := { m with stack := rest }) hx
  rw [obey_pair]
  simp only [setProperty, propertyAt, hd, setterOf, hset, bind, EStateM.bind, pure, EStateM.pure,
    pop, hstack, attempt, hreceiver, hvalue]

theorem invokeDynamic_eq_answer {env : RunEnv} {index argc : UInt16} {args : List Cell}
    {declared : Ty} {call : HostM Value} (hname : env.script.strings[index.toNat]? = some name)
    (hargc : argc.toNat = args.length) (hstack : m.stack = args.reverse ++ target :: rest)
    (hcall : callNamed env.registry name target args { m with stack := rest } =
      ofCalc (do return (declared, ← Calc.host call)) { m with stack := rest }) :
    invokeDynamic env index argc m =
      answer env.registry declared name (args ++ [target]) call { m with stack := rest } := by
  have hpop : popMany argc.toNat m = .ok args { m with stack := target :: rest } :=
    popMany_append hargc hstack
  rw [← answer_of_named hcall name (args ++ [target])]
  simp only [releaseAll_append, releaseAll_singleton, bind_assoc]
  simp only [invokeDynamic, poolString, hname, bind, EStateM.bind, pure, EStateM.pure, hpop, pop]

theorem getDynamicProperty_eq_answer {env : RunEnv} {index : UInt16} {declared : Ty}
    {call : HostM Value} (hname : env.script.strings[index.toNat]? = some name)
    (hstack : m.stack = target :: rest)
    (hread : readNamed env.registry name target { m with stack := rest } =
      ofCalc (do return (declared, ← Calc.host call)) { m with stack := rest }) :
    getDynamicProperty env index m =
      answer env.registry declared name [target] call { m with stack := rest } := by
  rw [← answer_of_named hread name [target], releaseAll_singleton]
  simp only [getDynamicProperty, poolString, hname, bind, EStateM.bind, pure, EStateM.pure, pop,
    hstack]

theorem setDynamicProperty_eq_obey {env : RunEnv} {index : UInt16} {c : Cell} {call : HostM Unit}
    (hname : env.script.strings[index.toNat]? = some name)
    (hstack : m.stack = c :: target :: rest)
    (hwrite : writeNamed env.registry name target c { m with stack := rest } =
      host call { m with stack := rest }) :
    setDynamicProperty env index m = obey [c, target] call { m with stack := rest } := by
  rw [obey_pair]
  simp only [setDynamicProperty, poolString, hname, bind, EStateM.bind, pure, EStateM.pure, pop,
    hstack, attempt, hwrite]

end Work

-- A member that is the only one of its name is used the same way whether an operand picks it or its
-- name does: the host function is called with the same receiver and arguments, and where it answers
-- the same, the same is left behind. The operand calls a method when its arguments have been given
-- back, and the name calls it before that. If the host is told of the arguments it may answer
-- otherwise, and it sees the difference in any case. One object may well be receiver and argument
-- at once.
theorem Machine.Owned.member_by_name [HostHooks] {m : Machine} (hm : m.Owned) (env : RunEnv)
    (index : UInt16) {name : String} (hname : env.script.strings[index.toNat]? = some name)
    (target : Cell) (rest : List Cell) {ty : Nat}
    (htype : Work.typeOf env.registry target m = .ok (.object ty) m) :
    (∀ (id : Int32) (d : MethodDef) (argc : UInt16) (args : List Cell),
      env.registry.OnlyMethod ty name id d → argc.toNat = d.params.length →
      m.stack = args.reverse ++ target :: rest →
      List.Forall₂ (m.Fits env.registry) d.params args →
      ∃ o xs after, m.refs.value? target = some (.object o) ∧ args.map m.refs.value? = xs.map some ∧
        Work.releaseAll args m = .ok () after ∧
        let call := d.call env.registry.callContext (some o) xs
        Work.effect env (.invoke id) m =
          Work.answer env.registry d.returns name [target] call { after with stack := rest } ∧
        Work.effect env (.invokeDynamic index argc) m =
          Work.answer env.registry d.returns name (args ++ [target]) call { m with stack := rest } ∧
        ((call after.world).result = (call m.world).result →
          Work.onMachine inner (Work.effect env (.invokeDynamic index argc) m) =
            Work.onMachine inner (Work.effect env (.invoke id) m)) ∧
        (after.refs.hooks = m.refs.hooks →
          Work.effect env (.invokeDynamic index argc) m = Work.effect env (.invoke id) m) ∧
        (d.params = [] →
          Work.effect env (.getDynamicProperty index) m = Work.effect env (.invoke id) m)) ∧
    (∀ (id : Int32) (d : PropertyDef) (get : Getter),
      env.registry.OnlyProperty ty name id d → d.getter = some get → m.stack = target :: rest →
      ∃ o, m.refs.value? target = some (.object o) ∧
        Work.effect env (.getProperty id) m = Work.answer env.registry d.ty name [target]
          (get (some o)) { m with stack := rest } ∧
        Work.effect env (.getDynamicProperty index) m = Work.effect env (.getProperty id) m) ∧
    ∀ (id : Int32) (d : PropertyDef) (set : Setter) (c : Cell),
      env.registry.OnlyProperty ty name id d → d.setter = some set →
      m.stack = c :: target :: rest → m.Fits env.registry d.ty c →
      ∃ o x, m.refs.value? target = some (.object o) ∧ m.refs.value? c = some x ∧
        Work.effect env (.setProperty id) m =
          Work.obey [c, target] (set (some o) x) { m with stack := rest } ∧
        Work.effect env (.setDynamicProperty index) m = Work.effect env (.setProperty id) m := by
  obtain ⟨o, ho, hty⟩ := Work.exists_object_of_typeOf htype
  refine ⟨fun id d argc args hd hargc hstack hfits => ?_, fun id d get hd hget hstack => ?_,
    fun id d set c hd hset hstack hfits => ?_⟩
  · have hheld : ∀ c ∈ args, c ∈ m.stack ++ m.locals.toList := fun c hc => by simp [hstack, hc]
    obtain ⟨xs, hxs⟩ := hm.exists_values hheld
    obtain ⟨t, told, hback, hargs, hkept⟩ := Work.popArgs_counted hm hstack hxs
    have hlen := hfits.length_eq
    have hinvoke := Work.invoke_eq_answer hd.picked hlen hargs rfl
      ((hkept target List.mem_cons_self).trans ho)
    rw [hd.name_eq] at hinvoke
    have hnamed := Work.invokeDynamic_eq_answer hname (hargc.trans hlen) hstack
      (Work.callNamed_eq_host hd hty ho hxs (Work.admits_all_of_fits hxs hfits))
    refine ⟨o, xs, { m with refs := t, world := HostHooks.tellAll told m.world }, ho, hxs,
      hback.releaseAll m rfl, hinvoke, hnamed, fun hsame => ?_, fun hquiet => ?_, fun hnone => ?_⟩
    · exact (congrArg _ hnamed).trans
        ((Work.answer_early (m := { m with stack := rest }) hback hsame _ _).trans
          (congrArg _ hinvoke.symm))
    · obtain rfl : told = [] := by simpa [hback.hooks] using hquiet
      exact hnamed.trans ((Work.answer_early_untold (m := { m with stack := rest }) hback _ _ _).trans
        hinvoke.symm)
    · rw [hnone] at hfits
      cases hfits
      obtain rfl : xs = [] := by simpa using hxs.symm
      have hafter := (EStateM.Result.ok.inj (hback.releaseAll m rfl)).2
      have hread := Work.getDynamicProperty_eq_answer hname hstack
        (Work.readNamed_eq_call hd hty ho hnone)
      have hcalled := congrArg (fun m' : Machine => Work.answer env.registry d.returns name [target]
        (d.call env.registry.callContext (some o) []) { m' with stack := rest }) hafter
      exact hread.trans (hcalled.trans hinvoke.symm)
  · have hget' := Work.getProperty_eq_answer hd.picked hget hstack ho
    rw [hd.name_eq] at hget'
    refine ⟨o, ho, hget', (Work.getDynamicProperty_eq_answer hname hstack ?_).trans hget'.symm⟩
    exact Work.readNamed_eq_get hd hget hty ho
  · obtain ⟨x, hx⟩ := hm.isSome_value? (c := c) (by simp [hstack])
    have hset' := Work.setProperty_eq_obey hd.picked hset hstack hx ho
    refine ⟨o, x, ho, hx, hset', (Work.setDynamicProperty_eq_obey hname hstack ?_).trans hset'.symm⟩
    exact Work.writeNamed_eq_host hd hset hty ho hx (Work.admits_of_fits hx hfits)

-- A type of lists whose only members are a method that adds an item and a property for the last one.
def Registry.lists : Registry where
  types := #[⟨0, "collections", "list", none⟩]
  classes := [(.list, 0)]
  methods := #[⟨0, "collections", "add", some 0, [.dynamic], .void, fun ctx this args => do
    Core.listAdd ctx (← Registry.receiver .list "add" this) args⟩]
  properties := #[⟨0, "collections", "last", some 0, .dynamic,
    some fun this => do
      let o ← Registry.receiver .list "last" this
      return ((← HostM.world).items o).back?.getD .null,
    some fun this x => do
      let o ← Registry.receiver .list "last" this
      let w ← HostM.world
      HostM.setWorld (w.setItems o ((w.items o).pop.push x))⟩]

-- An empty list lies on the stack twice.
def Machine.twice : Machine where
  stackCapacity := 4
  stack := [.object 0, .object 0]
  locals := #[]
  refs := { capacity := 4, slots := #[some ⟨.object ⟨.list, 0, ""⟩, 2⟩], holders := {(⟨.list, 0, ""⟩, 0)} }
  world := { objects := #[.items #[]] }

theorem Machine.owned_twice : Machine.twice.Owned where
  text h hc := by simp [twice] at hc
  object h hc := by
    obtain rfl : h = 0 := by simpa [twice] using hc
    exact ⟨⟨.list, 0, ""⟩, rfl⟩
  counted h := by
    by_cases hh : h = 0
    · subst hh
      rfl
    · simp [twice, References.uses, References.count?, References.find?, Cell.handle?, hh, Ne.symm hh]

-- The list is added to itself, its last item is read, and it becomes its own last item.
theorem Machine.twice_member_by_name :
    let env : RunEnv := ⟨.lists, ⟨"", #[], #["add", "last"], 0, 0, []⟩⟩
    twice.Owned ∧
    Upholds (fun _ _ => False) (fun _ m => (m.world.items ⟨.list, 0, ""⟩).size = 1)
      (Work.effect env (.invoke 0) twice) ∧
    Work.effect env (.invokeDynamic 0 1) twice = Work.effect env (.invoke 0) twice ∧
    Work.effect env (.getDynamicProperty 1) twice = Work.effect env (.getProperty 0) twice ∧
    Work.effect env (.setDynamicProperty 1) twice = Work.effect env (.setProperty 0) twice := by
  intro env
  have hfits : Fits env.registry twice .dynamic (.object 0) := ⟨.object 0, rfl, rfl⟩
  have hadd : env.registry.OnlyMethod 0 "add" 0 _ := ⟨rfl, rfl, rfl⟩
  have hlast : env.registry.OnlyProperty 0 "last" 0 _ := ⟨rfl, rfl, rfl⟩
  obtain ⟨_, _, after, _, _, hafter, -, -, -, hquiet, -⟩ := (owned_twice.member_by_name env 0 rfl
    (.object 0) [] rfl).1 0 _ 1 [.object 0] hadd rfl rfl (.cons hfits .nil)
  have hquiet := hquiet (by cases hafter; rfl)
  have hsize : Upholds (fun _ _ => False) (fun _ m => (m.world.items ⟨.list, 0, ""⟩).size = 1)
      (Work.effect env (.invoke 0) twice) := by decide +kernel
  have hproperty := (owned_twice.member_by_name env 1 rfl (.object 0) [.object 0] rfl).2.1 0 _ _ hlast
    rfl rfl
  have hset := (owned_twice.member_by_name env 1 rfl (.object 0) [] rfl).2.2 0 _ _ (.object 0) hlast
    rfl rfl hfits
  obtain ⟨_, _, -, hget⟩ := hproperty
  obtain ⟨_, _, _, _, -, hput⟩ := hset
  exact ⟨owned_twice, hsize, hquiet, hget, hput⟩

-- A host that counts the objects it gets back from scripts.
@[reducible] def HostHooks.counting : HostHooks where
  tell
    | .released _, w => { w with made := w.made + 1 }
    | .acquired _, w => w

-- A type of lists with one method, which tells whether anything has been made.
def Registry.gauges : Registry where
  types := #[⟨0, "collections", "list", none⟩]
  classes := [(.list, 0)]
  methods := #[⟨0, "collections", "any", some 0, [.dynamic], .bool, fun _ _ _ => do
    return .bool ((← HostM.world).made != 0)⟩]

-- Two lists in the table, each counted once. One of them lies on the stack, and on top of it what is
-- said to be the other.
def Machine.pair (top : Cell) : Machine where
  stackCapacity := 4
  stack := [top, .object 0]
  locals := #[]
  refs := { capacity := 4
            slots := #[some ⟨.object ⟨.list, 0, ""⟩, 1⟩, some ⟨.object ⟨.list, 1, ""⟩, 1⟩]
            holders := {(⟨.list, 0, ""⟩, 0), (⟨.list, 1, ""⟩, 1)} }
  world := { objects := #[.items #[], .items #[]] }

theorem Machine.uses_pair {top : Cell} (htop : top.handle? = some 1) (h : Nat) :
    (pair top).refs.uses h =
      Cell.occurrences h ((pair top).stack ++ (pair top).locals.toList) := by
  have hzero : (Cell.object 0).handle? = some 0 := rfl
  match h with
  | 0 => simp [pair, References.uses, References.count?, References.find?, htop, hzero]
  | 1 => simp [pair, References.uses, References.count?, References.find?, htop, hzero]
  | h + 2 => simp [pair, References.uses, References.count?, References.find?, htop, hzero]

theorem Machine.owned_pair : (pair (.object 1)).Owned where
  text h hc := by simp [pair] at hc
  object h hc := by
    obtain rfl | rfl : h = 1 ∨ h = 0 := by simpa [pair] using hc
    · exact ⟨⟨.list, 1, ""⟩, rfl⟩
    · exact ⟨⟨.list, 0, ""⟩, rfl⟩
  counted := uses_pair rfl

-- Otherwise the operand and the name do not do the same. If the host counts what it gets back, the
-- method answers one thing after it has got the argument back, and another before that. And where a
-- cell that is an object by the table is a text by its own account, the call that an operand picks
-- fails with the receiver still on the stack.
theorem Machine.member_by_name_differs :
    let env : RunEnv := ⟨.gauges, ⟨"", #[], #["any"], 0, 0, []⟩⟩
    (∃ d, env.registry.OnlyMethod 0 "any" 0 d ∧ d.params = [.dynamic]) ∧
    ((pair (.object 1)).Owned ∧
      Work.typeOf env.registry (.object 0) (pair (.object 1)) = .ok (.object 0) (pair (.object 1)) ∧
      (pair (.object 1)).Fits env.registry .dynamic (.object 1) ∧
      Upholds (fun _ _ => False) (fun _ m => m.stack matches [.bool true])
        (@Work.effect .counting env (.invoke 0) (pair (.object 1))) ∧
      Upholds (fun _ _ => False) (fun _ m => m.stack matches [.bool false])
        (@Work.effect .counting env (.invokeDynamic 0 1) (pair (.object 1)))) ∧
    (∀ h, (pair (.text 1)).refs.uses h =
        Cell.occurrences h ((pair (.text 1)).stack ++ (pair (.text 1)).locals.toList)) ∧
      Work.typeOf env.registry (.object 0) (pair (.text 1)) = .ok (.object 0) (pair (.text 1)) ∧
      (pair (.text 1)).Fits env.registry .dynamic (.text 1) ∧
      Upholds (fun _ m => m.stack matches [.object 0]) (fun _ _ => False)
        (Work.effect env (.invoke 0) (pair (.text 1))) ∧
      Upholds (fun _ m => m.stack matches []) (fun _ _ => False)
        (Work.effect env (.invokeDynamic 0 1) (pair (.text 1))) := by
  refine ⟨⟨_, ⟨rfl, rfl, rfl⟩, rfl⟩, ⟨owned_pair, rfl, ⟨.object 0, rfl, rfl⟩, ?_, ?_⟩, uses_pair rfl,
    rfl, ⟨.string, rfl, rfl⟩, ?_, ?_⟩
  · decide +kernel
  · decide +kernel
  · decide +kernel
  · decide +kernel

end HostScript
