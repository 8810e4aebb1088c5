import Mathlib
import HostScript.Host.Declared
import HostScript.Proofs.Host.Built
import HostScript.Proofs.Text.Lower

namespace HostScript

-- One call by which a host adds to its registry.
inductive Registration where
  | type (cls : ObjectClass) (ns name : String)
  | staticMethod (ns name : String) (params : List Ty) (returns : Ty)
      (call : CallContext → List Value → HostM Value)
  | instanceMethod (owner : Nat) (cls : ObjectClass) (name : String) (params : List Ty)
      (returns : Ty) (call : CallContext → ObjectRef → List Value → HostM Value)
  | staticProperty (ns name : String) (ty : Ty) (get : HostM Value)
      (set : Option (Value → HostM Unit))
  | instanceProperty (owner : Nat) (cls : ObjectClass) (name : String) (ty : Ty)
      (get : ObjectRef → HostM Value) (set : Option (ObjectRef → Value → HostM Unit))
  | const (ns name : String) (value : Literal)
  | constructor (ty : Nat) (params : List Ty) (build : Builder)
  | iteration (ty : Nat) (count getItem : String)

namespace Registration

-- The answer, and the registry afterwards.
def apply (r : Registry) : Registration → Except HostError (Option Nat) × Registry
  | .type cls ns name => Declaration.numbered (r.addType cls ns name)
  | .staticMethod ns name params returns call =>
    Declaration.numbered (r.addStaticMethod ns name params returns call)
  | .instanceMethod owner cls name params returns call =>
    Declaration.numbered (r.addInstanceMethod owner cls name params returns call)
  | .staticProperty ns name ty get set =>
    Declaration.numbered (r.addStaticProperty ns name ty get set)
  | .instanceProperty owner cls name ty get set =>
    Declaration.numbered (r.addInstanceProperty owner cls name ty get set)
  | .const ns name value => (.ok none, r.addConst ns name value)
  | .constructor ty params build => Declaration.numbered (r.addConstructor ty params build)
  | .iteration ty count getItem => Declaration.replaced r (r.addIteration ty count getItem)

end Registration

namespace Registry

-- The registry with further registrations, in their order.
def extend (r : Registry) (registrations : List Registration) : Registry :=
  registrations.foldl (fun r g => (g.apply r).2) r

theorem extend_append (r : Registry) (before later : List Registration) :
    r.extend (before ++ later) = (r.extend before).extend later :=
  List.foldl_append

-- Every entry has what is asked of an entry at its place.
def Each {α : Type} (P : Nat → α → Prop) (entries : Array α) : Prop :=
  ∀ (k : Nat) d, entries[k]? = some d → P k d

section Each

variable {α : Type} {P Q : Nat → α → Prop} {entries : Array α} {d : α} {k : Nat}

theorem Each.empty : Each P #[] := by
  intro k d hk
  simp at hk

theorem Each.push (h : Each P entries) (hd : P entries.size d) : Each P (entries.push d) := by
  intro k x hk
  rw [Array.getElem?_push] at hk
  split at hk
  · rename_i hlast
    cases hk
    rwa [hlast]
  · exact h k x hk

theorem Each.set (h : Each P entries) (hd : P k d) : Each P (entries.setIfInBounds k d) := by
  intro i x hi
  rw [Array.getElem?_setIfInBounds] at hi
  split at hi
  · rename_i heq
    split at hi
    · cases hi
      rwa [← heq]
    · cases hi
  · exact h i x hi

theorem Each.mono (h : Each P entries) (hPQ : ∀ k d, P k d → Q k d) : Each Q entries :=
  fun k d hk => hPQ k d (h k d hk)

theorem Each.mem (h : Each P entries) (hd : d ∈ entries.toList) :
    ∃ k, entries[k]? = some d ∧ P k d := by
  obtain ⟨k, hk⟩ := List.getElem?_of_mem hd
  rw [Array.getElem?_toList] at hk
  exact ⟨k, hk, h k d hk⟩

theorem getElem?_push_of_eq_some (h : entries[k]? = some d) (x : α) :
    (entries.push x)[k]? = some d := by
  have hk : k < entries.size := (Array.getElem?_eq_some_iff.mp h).choose
  rw [Array.getElem?_push_lt hk, ← h, Array.getElem?_eq_getElem hk]

end Each

-- What a registry still has after further registrations: every member where it was, and every type
-- where it was, though it may be walked by other members.
structure Grows (r r' : Registry) : Prop where
  types : ∀ (k : Nat) t, r.types[k]? = some t →
    ∃ it, r'.types[k]? = some { t with iteration := it } ∧ (t.iteration.isSome → it.isSome)
  methods : ∀ (k : Nat) d, r.methods[k]? = some d → r'.methods[k]? = some d
  properties : ∀ (k : Nat) d, r.properties[k]? = some d → r'.properties[k]? = some d
  consts : ∀ (k : Nat) d, r.consts[k]? = some d → r'.consts[k]? = some d
  constructors : ∀ (k : Nat) d, r.constructors[k]? = some d → r'.constructors[k]? = some d

-- The members that walk a type are its own: a readable count, and a method with one parameter.
structure Walks (r : Registry) (ty : Nat) (it : IterationMembers) : Prop where
  count : ∃ p, r.properties[it.count]? = some p ∧ p.owner = some ty ∧ p.getter.isSome
  getItem : ∃ d, r.methods[it.getItem]? = some d ∧ d.owner = some ty ∧ d.params.length = 1

-- Types and members go by their places, names are in lower case, and what is walked can be walked.
structure Consistent (r : Registry) : Prop where
  types : Each (fun k t => t.id = k ∧ Text.lower t.ns = t.ns ∧ Text.lower t.name = t.name) r.types
  methods : Each (fun k d => d.id = k ∧ Text.lower d.ns = d.ns ∧ Text.lower d.name = d.name)
    r.methods
  properties : Each (fun k d => d.id = k ∧ Text.lower d.ns = d.ns ∧ Text.lower d.name = d.name)
    r.properties
  consts : Each (fun _ c => Text.lower c.ns = c.ns ∧ Text.lower c.name = c.name) r.consts
  constructors : Each (fun k d => d.id = k) r.constructors
  iterations : Each (fun k t => ∀ it, t.iteration = some it → r.Walks k it) r.types

section Growth

variable {r r' r'' : Registry} {ty : Nat} {it : IterationMembers}

theorem Grows.refl (r : Registry) : r.Grows r :=
  ⟨fun _ t ht => ⟨t.iteration, ht, id⟩, fun _ _ h => h, fun _ _ h => h, fun _ _ h => h,
    fun _ _ h => h⟩

theorem Grows.trans (h : r.Grows r') (h' : r'.Grows r'') : r.Grows r'' where
  types k t ht := by
    obtain ⟨it, ht', hit⟩ := h.types k t ht
    obtain ⟨it', ht'', hit'⟩ := h'.types k { t with iteration := it } ht'
    exact ⟨it', ht'', fun hsome => hit' (hit hsome)⟩
  methods k d hd := h'.methods k d (h.methods k d hd)
  properties k d hd := h'.properties k d (h.properties k d hd)
  consts k d hd := h'.consts k d (h.consts k d hd)
  constructors k d hd := h'.constructors k d (h.constructors k d hd)

theorem Walks.grows (h : r.Walks ty it) (hr : r.Grows r') : r'.Walks ty it := by
  obtain ⟨⟨p, hp, hcount⟩, d, hd, hitem⟩ := h
  exact ⟨⟨p, hr.properties _ p hp, hcount⟩, d, hr.methods _ d hd, hitem⟩

end Growth

section Steps

variable {r r' : Registry} {ty : Nat} {count getItem ns name : String} {owner : Option Nat}

theorem grows_addType (r : Registry) (cls : ObjectClass) (ns name : String) :
    r.Grows (r.addType cls ns name).2 :=
  { Grows.refl r with types := fun _ t ht => ⟨t.iteration, getElem?_push_of_eq_some ht _, id⟩ }

theorem grows_addMethod (r : Registry) (ns name : String) (owner : Option Nat) (params : List Ty)
    (returns : Ty) (call : MethodBody) :
    r.Grows (r.addMethod ns name owner params returns call).2 :=
  { Grows.refl r with methods := fun _ _ hd => getElem?_push_of_eq_some hd _ }

theorem grows_addProperty (r : Registry) (ns name : String) (owner : Option Nat) (ty : Ty)
    (getter : Option Getter) (setter : Option Setter) :
    r.Grows (r.addProperty ns name owner ty getter setter).2 :=
  { Grows.refl r with properties := fun _ _ hd => getElem?_push_of_eq_some hd _ }

theorem grows_addConst (r : Registry) (ns name : String) (value : Literal) :
    r.Grows (r.addConst ns name value) :=
  { Grows.refl r with consts := fun _ _ hd => getElem?_push_of_eq_some hd _ }

theorem grows_addConstructor (r : Registry) (ty : Nat) (params : List Ty) (build : Builder) :
    r.Grows (r.addConstructor ty params build).2 :=
  { Grows.refl r with constructors := fun _ _ hd => getElem?_push_of_eq_some hd _ }

theorem grows_addIteration (h : r.addIteration ty count getItem = .ok r') : r.Grows r' := by
  obtain ⟨p, d, t, -, -, -, -, ht, rfl⟩ := addIteration_eq_ok_iff.mp h
  refine { Grows.refl r with types := fun k u hu => ?_ }
  have hk : k < r.types.size := (Array.getElem?_eq_some_iff.mp hu).choose
  by_cases hty : ty = k
  · subst hty
    cases ht.symm.trans hu
    exact ⟨_, Array.getElem?_setIfInBounds_self_of_lt hk, fun _ => rfl⟩
  · exact ⟨u.iteration, (Array.getElem?_setIfInBounds_ne hty).trans hu, id⟩

theorem grows_apply (r : Registry) (g : Registration) : r.Grows (g.apply r).2 := by
  cases g with
  | type => exact grows_addType ..
  | staticMethod => exact grows_addMethod ..
  | instanceMethod => exact grows_addMethod ..
  | staticProperty => exact grows_addProperty ..
  | instanceProperty => exact grows_addProperty ..
  | const => exact grows_addConst ..
  | constructor => exact grows_addConstructor ..
  | iteration ty count getItem =>
      rw [Registration.apply]
      cases h : r.addIteration ty count getItem with
      | ok r' => exact grows_addIteration h
      | error e => exact .refl r

theorem grows_extend (r : Registry) (registrations : List Registration) :
    r.Grows (r.extend registrations) := by
  induction registrations generalizing r with
  | nil => exact .refl r
  | cons g later ih => exact (grows_apply r g).trans (ih (g.apply r).2)

theorem Consistent.lower_namespaceOf (h : r.Consistent) (owner : Nat) :
    Text.lower (r.namespaceOf owner) = r.namespaceOf owner := by
  unfold namespaceOf
  cases ht : r.types[owner]? with
  | none => rfl
  | some t => exact (h.types owner t ht).2.1

theorem Consistent.addType (h : r.Consistent) (cls : ObjectClass) (ns name : String) :
    (r.addType cls ns name).2.Consistent := by
  have hgrows := grows_addType r cls ns name
  exact {
    h with
    types := h.types.push ⟨rfl, Text.lower_lower ns, Text.lower_lower name⟩
    iterations := (h.iterations.mono fun _ _ hwalks it hit => (hwalks it hit).grows hgrows).push
      fun _ hit => nomatch hit }

theorem Consistent.addMethod (h : r.Consistent) (hns : Text.lower ns = ns) (name : String)
    (owner : Option Nat) (params : List Ty) (returns : Ty) (call : MethodBody) :
    (r.addMethod ns name owner params returns call).2.Consistent := by
  have hgrows := grows_addMethod r ns name owner params returns call
  exact {
    h with
    methods := h.methods.push ⟨rfl, hns, Text.lower_lower name⟩
    iterations := h.iterations.mono fun _ _ hwalks it hit => (hwalks it hit).grows hgrows }

theorem Consistent.addProperty (h : r.Consistent) (hns : Text.lower ns = ns) (name : String)
    (owner : Option Nat) (ty : Ty) (getter : Option Getter) (setter : Option Setter) :
    (r.addProperty ns name owner ty getter setter).2.Consistent := by
  have hgrows := grows_addProperty r ns name owner ty getter setter
  exact {
    h with
    properties := h.properties.push ⟨rfl, hns, Text.lower_lower name⟩
    iterations := h.iterations.mono fun _ _ hwalks it hit => (hwalks it hit).grows hgrows }

theorem Consistent.addConst (h : r.Consistent) (ns name : String) (value : Literal) :
    (r.addConst ns name value).Consistent := by
  have hgrows := grows_addConst r ns name value
  exact {
    h with
    consts := h.consts.push ⟨Text.lower_lower ns, Text.lower_lower name⟩
    iterations := h.iterations.mono fun _ _ hwalks it hit => (hwalks it hit).grows hgrows }

theorem Consistent.addConstructor (h : r.Consistent) (ty : Nat) (params : List Ty)
    (build : Builder) : (r.addConstructor ty params build).2.Consistent := by
  have hgrows := grows_addConstructor r ty params build
  exact {
    h with
    constructors := h.constructors.push rfl
    iterations := h.iterations.mono fun _ _ hwalks it hit => (hwalks it hit).grows hgrows }

-- The members that go by the names are found under their numbers.
theorem Consistent.walks (h : r.Consistent) {p : PropertyDef} {d : MethodDef}
    (hp : r.instanceProperties ty count = [p]) (hgetter : p.getter.isSome)
    (hd : r.instanceMethods ty getItem = [d]) (hparams : d.params.length = 1) :
    r.Walks ty ⟨p.id, d.id⟩ := by
  have hpmem : p ∈ r.instanceProperties ty count := by simp [hp]
  have hdmem : d ∈ r.instanceMethods ty getItem := by simp [hd]
  simp only [instanceProperties, instanceMethods, List.mem_filter, Bool.and_eq_true,
    decide_eq_true_eq] at hpmem hdmem
  obtain ⟨i, hi, hpid, -⟩ := h.properties.mem hpmem.1
  obtain ⟨j, hj, hdid, -⟩ := h.methods.mem hdmem.1
  rw [hpid, hdid]
  exact ⟨⟨p, hi, hpmem.2.1, hgetter⟩, d, hj, hdmem.2.1, hparams⟩

theorem Consistent.addIteration (h : r.Consistent)
    (hadd : r.addIteration ty count getItem = .ok r') : r'.Consistent := by
  have hgrows := grows_addIteration hadd
  obtain ⟨p, d, t, hp, hgetter, hd, hparams, ht, rfl⟩ := addIteration_eq_ok_iff.mp hadd
  exact {
    h with
    types := h.types.set (h.types ty t ht)
    iterations := by
      refine (h.iterations.mono fun _ _ hwalks it hit => (hwalks it hit).grows hgrows).set ?_
      rintro it ⟨⟩
      exact (h.walks hp hgetter hd hparams).grows hgrows }

theorem Consistent.apply (h : r.Consistent) (g : Registration) : (g.apply r).2.Consistent := by
  cases g with
  | type cls ns name => exact h.addType cls ns name
  | staticMethod ns => exact h.addMethod (Text.lower_lower ns) ..
  | instanceMethod owner => exact h.addMethod (h.lower_namespaceOf owner) ..
  | staticProperty ns => exact h.addProperty (Text.lower_lower ns) ..
  | instanceProperty owner => exact h.addProperty (h.lower_namespaceOf owner) ..
  | const ns name value => exact h.addConst ns name value
  | constructor ty params build => exact h.addConstructor ty params build
  | iteration ty count getItem =>
      rw [Registration.apply]
      cases hadd : r.addIteration ty count getItem with
      | ok r' => exact h.addIteration hadd
      | error e => exact h

theorem Consistent.extend (h : r.Consistent) (registrations : List Registration) :
    (r.extend registrations).Consistent := by
  induction registrations generalizing r with
  | nil => exact h
  | cons g later ih => exact ih (h.apply g)

theorem Consistent.empty : Registry.empty.Consistent :=
  ⟨.empty, .empty, .empty, .empty, .empty, .empty⟩

end Steps

end Registry

namespace Registration

-- The new member was put at the end, its number was answered, and under that number it has stayed.
def Entered {α : Type} (number : α → Nat) (answer : Except HostError (Option Nat))
    (before after final : Array α) : Prop :=
  ∃ d, after = before.push d ∧ number d = before.size ∧ answer = .ok (some (number d)) ∧
    final[number d]? = some d

-- What a registration has left in a registry that was extended further. A type may be walked by
-- members that were not known when it was registered, and once it can be walked it stays so. An
-- iteration that is refused leaves nothing.
def Lasts (r final : Registry) (g : Registration) : Prop :=
  match g with
  | .type .. =>
    ∃ t it, (g.apply r).2.types = r.types.push t ∧ t.id = r.types.size ∧
      (g.apply r).1 = .ok (some t.id) ∧ final.types[t.id]? = some { t with iteration := it }
  | .staticMethod .. | .instanceMethod .. =>
    Entered MethodDef.id (g.apply r).1 r.methods (g.apply r).2.methods final.methods
  | .staticProperty .. | .instanceProperty .. =>
    Entered PropertyDef.id (g.apply r).1 r.properties (g.apply r).2.properties final.properties
  | .const .. =>
    ∃ c, (g.apply r).2.consts = r.consts.push c ∧ (g.apply r).1 = .ok none ∧
      final.consts[r.consts.size]? = some c
  | .constructor .. =>
    Entered ConstructorDef.id (g.apply r).1 r.constructors (g.apply r).2.constructors
      final.constructors
  | .iteration ty _ _ =>
    (∃ e, (g.apply r).1 = .error e ∧ (g.apply r).2 = r) ∨
    ((g.apply r).1 = .ok none ∧ ∃ t, final.types[ty]? = some t ∧ t.iteration.isSome)

variable {r final : Registry}

theorem entered_of_push {α : Type} {number : α → Nat} {entries fresh last : Array α} {d : α}
    (hpush : fresh = entries.push d) (hd : number d = entries.size)
    (h : ∀ (k : Nat) x, fresh[k]? = some x → last[k]? = some x) :
    Entered number (.ok (some (number d))) entries fresh last := by
  refine ⟨d, hpush, hd, rfl, h _ d ?_⟩
  rw [hpush, hd, Array.getElem?_push_size]

theorem lasts_of_grows (g : Registration) (h : (g.apply r).2.Grows final) : g.Lasts r final := by
  cases g with
  | type cls ns name =>
      obtain ⟨it, hit, -⟩ := h.types r.types.size _ Array.getElem?_push_size
      exact ⟨_, it, rfl, rfl, rfl, hit⟩
  | staticMethod => exact entered_of_push rfl rfl h.methods
  | instanceMethod => exact entered_of_push rfl rfl h.methods
  | staticProperty => exact entered_of_push rfl rfl h.properties
  | instanceProperty => exact entered_of_push rfl rfl h.properties
  | const => exact ⟨_, rfl, rfl, h.consts _ _ Array.getElem?_push_size⟩
  | constructor => exact entered_of_push rfl rfl h.constructors
  | iteration ty count getItem =>
      rw [Registration.apply] at h
      simp only [Lasts, Registration.apply]
      cases hadd : r.addIteration ty count getItem with
      | error e => exact .inl ⟨e, rfl, rfl⟩
      | ok r' =>
          right
          rw [hadd] at h
          obtain ⟨p, d, t, -, -, -, -, ht, rfl⟩ := Registry.addIteration_eq_ok_iff.mp hadd
          have hk : ty < r.types.size := (Array.getElem?_eq_some_iff.mp ht).choose
          obtain ⟨it, hit, hsome⟩ := h.types ty _ (Array.getElem?_setIfInBounds_self_of_lt hk)
          exact ⟨rfl, _, hit, hsome rfl⟩

end Registration

-- Registrations in any order leave a consistent registry, and what any of them has entered stays
-- under the number it was given, whatever is registered later.
theorem Registry.consistent_and_lasts :
    (∀ registrations, (Registry.empty.extend registrations).Consistent) ∧
    ∀ before (g : Registration) later,
      g.Lasts (Registry.empty.extend before) (Registry.empty.extend (before ++ g :: later)) := by
  refine ⟨Registry.Consistent.empty.extend, fun before g later => ?_⟩
  rw [Registry.extend_append]
  exact g.lasts_of_grows (Registry.grows_extend (g.apply (Registry.empty.extend before)).2 later)

namespace Declaration

theorem exists_extend_addTypes (r : Registry) (ns name : String) (kind times : Nat) :
    ∃ registrations, (addTypes r ns name kind times).2 = r.extend registrations := by
  fun_induction addTypes r ns name kind times with
  | case1 r => exact ⟨[], rfl⟩
  | case2 r id r' hadd => exact ⟨[.type (.record kind) ns name], (congrArg Prod.snd hadd).symm⟩
  | case3 r times hne ih =>
      obtain ⟨registrations, h⟩ := ih
      exact ⟨.type (.record kind) ns name :: registrations, h⟩

theorem exists_extend_addMembers (r : Registry) :
    ∃ registrations, (Core.addMembers r).2 = r.extend registrations :=
  ⟨[.staticMethod _ _ _ _ _, .staticMethod _ _ _ _ _, .staticMethod _ _ _ _ _,
    .staticMethod _ _ _ _ _, .staticMethod _ _ _ _ _, .staticMethod _ _ _ _ _,
    .staticMethod _ _ _ _ _, .staticMethod _ _ _ _ _, .staticMethod _ _ _ _ _, .const _ _ _,
    .type _ _ _, .constructor _ _ _, .instanceMethod _ _ _ _ _ _, .instanceMethod _ _ _ _ _ _,
    .instanceMethod _ _ _ _ _ _, .instanceProperty _ _ _ _ _ _], rfl⟩

-- Whatever a host declares is made of registrations.
theorem exists_extend (r : Registry) (d : Declaration) :
    ∃ registrations, (d.apply r).2 = r.extend registrations := by
  cases d with
  | coreLibrary =>
      obtain ⟨registrations, h⟩ := exists_extend_addMembers r
      refine ⟨registrations ++ [.iteration (Core.addMembers r).1 "Count" "GetItem"], ?_⟩
      rw [Registry.extend_append, ← h]
      simp only [apply, Core.register, Registry.extend, List.foldl_cons, List.foldl_nil,
        Registration.apply, replaced]
      cases (Core.addMembers r).2.addIteration (Core.addMembers r).1 "Count" "GetItem" <;> rfl
  | type ns name kind times => exact exists_extend_addTypes r ns name kind times
  | staticMethod => exact ⟨[.staticMethod _ _ _ _ _], rfl⟩
  | instanceMethod => exact ⟨[.instanceMethod _ _ _ _ _ _], rfl⟩
  | staticProperty => exact ⟨[.staticProperty _ _ _ _ _], rfl⟩
  | instanceProperty => exact ⟨[.instanceProperty _ _ _ _ _ _], rfl⟩
  | const ns name value => exact ⟨[.const ns name value], rfl⟩
  | constructor => exact ⟨[.constructor _ _ _], rfl⟩
  | iterable owner count getItem => exact ⟨[.iteration owner count getItem], rfl⟩

-- The registry of a host that is described by data is consistent.
theorem consistent_applyAll {r : Registry} (h : r.Consistent) (declared : List Declaration) :
    (applyAll r declared).2.Consistent := by
  induction declared generalizing r with
  | nil => exact h
  | cons d rest ih =>
      obtain ⟨registrations, hd⟩ := exists_extend r d
      have hnext : (d.apply r).2.Consistent := hd ▸ h.extend registrations
      exact ih hnext

end Declaration

end HostScript
