import HostScript.Proofs.Number.Integral
import HostScript.Proofs.Semantics.Safety

namespace HostScript

-- A type that can be walked by the members that are looked up where nothing is known of a source:
-- its only readable property and its only method for one argument of their names. Both take numbers.
structure Registry.Enumerates (r : Registry) (ty : Nat) (p : PropertyDef) (d : MethodDef) : Prop where
  iteration : r.types[ty]?.bind (·.iteration) = some ⟨p.id, d.id⟩
  count : (r.instanceProperties ty "count").filter (·.getter.isSome) = [p]
  item : (r.instanceMethods ty "getitem").filter (·.params.length = 1) = [d]
  number : p.ty.isNumeric = true
  index : ∃ param, d.params = [param] ∧ param.isNumeric = true

namespace Registry.Enumerates

variable {r : Registry} {ty : Nat} {p : PropertyDef} {d : MethodDef}

theorem property (hr : r.Built) (h : r.Enumerates ty p d) :
    r.properties[p.id]? = some p ∧ p.id < room ∧ p.name = "count" ∧ ∃ get, p.getter = some get := by
  have hmem : p ∈ (r.instanceProperties ty "count").filter (·.getter.isSome) := by simp [h.count]
  obtain ⟨hmem, hgetter⟩ := List.mem_filter.mp hmem
  obtain ⟨hmem, howner⟩ := List.mem_filter.mp hmem
  obtain ⟨hfind, hroom⟩ := hr.numbered.properties.find hmem
  simp only [Bool.and_eq_true, decide_eq_true_eq] at howner
  exact ⟨hfind, hroom, howner.2, Option.isSome_iff_exists.mp hgetter⟩

theorem method (hr : r.Built) (h : r.Enumerates ty p d) :
    r.methods[d.id]? = some d ∧ d.id < room ∧ d.name = "getitem" := by
  have hmem : d ∈ (r.instanceMethods ty "getitem").filter (·.params.length = 1) := by simp [h.item]
  obtain ⟨hmem, howner⟩ := List.mem_filter.mp (List.mem_filter.mp hmem).1
  obtain ⟨hfind, hroom⟩ := hr.numbered.methods.find hmem
  simp only [Bool.and_eq_true, decide_eq_true_eq] at howner
  exact ⟨hfind, hroom, howner.2⟩

end Registry.Enumerates

-- A number goes for every numeric type, except that a `long` has to be whole.
theorem Ty.admits_number {r : Registry} {ty : Ty} {x : Float} (hty : ty.isNumeric = true)
    (hx : Number.isWhole x = true) : ty.admits (r.typeOf (.number x)) = true := by
  cases ty <;> simp_all [Ty.isNumeric, Ty.admits, Registry.typeOf]

theorem Ty.admits_double {ty actual : Ty} (hty : ty.isNumeric = true) (h : ty.admits actual = true) :
    Ty.double.admits actual = true := by
  cases ty <;> cases actual <;> simp_all [Ty.isNumeric, Ty.admits, Ty.isNullable]

namespace Calc

variable {r : Registry} {ty : Nat} {p : PropertyDef} {d : MethodDef} {o : ObjectRef}

-- Reading the count by its number or by its name.
theorem readCount_eq (hr : r.Built) (h : r.Enumerates ty p d) {get : Getter}
    (hget : p.getter = some get) (ho : r.typeOf (.object o) = .object ty) :
    named r "count" (readNamed r "count" (.object o)) = readProperty r p get (.object o) := by
  have hreadable : (r.instanceProperties ty "count").filterMap
      (fun p => p.getter.map fun f => (p.ty, f)) = [(p.ty, get)] := by
    calc (r.instanceProperties ty "count").filterMap (fun p => p.getter.map fun f => (p.ty, f))
      _ = ((r.instanceProperties ty "count").filter (·.getter.isSome)).filterMap
            (fun p => p.getter.map fun f => (p.ty, f)) := by
          rw [List.filterMap_filter]
          congr 1
          funext q
          cases q.getter <;> rfl
      _ = [(p.ty, get)] := by rw [h.count, List.filterMap_cons, hget]; rfl
  obtain ⟨-, -, hname, -⟩ := h.property hr
  simp only [named, readNamed, readProperty, instanceType, ho, pure_bind, receiver, hreadable, hname,
    bind_assoc]

theorem callItem_eq (hr : r.Built) (h : r.Enumerates ty p d)
    (ho : r.typeOf (.object o) = .object ty) {x : Float} (hx : Number.isWhole x = true) :
    named r "getitem" (callNamed r "getitem" (.object o) [.number x]) =
      callMethod r d (.object o) [.number x] := by
  obtain ⟨-, -, hname⟩ := h.method hr
  obtain ⟨param, hparams, hnumeric⟩ := h.index
  simp only [named, callNamed, callMethod, instanceType, ho, pure_bind, receiver, methodNamed,
    List.length_singleton, h.item, hname, bind_assoc, hparams, checkArgs, Ty.admits_number hnumeric hx,
    if_true]

end Calc

-- A check that always passes makes no difference.
theorem Exec.perform_checked {α : Type} {x : Calc α} {strict : Bool} {P : α → Prop}
    (hx : x.Gives strict P) {check : α → Calc Unit} (hcheck : ∀ a, P a → check a = pure ()) :
    (do
      let a ← Exec.perform x
      Exec.perform (check a)
      return a) = Exec.perform x := by
  funext σ
  have h := hx σ.outside
  simp only [bind, EStateM.bind, Exec.perform, Exec.value, Eval.ofCalc]
  cases hresult : x σ.outside with
  | ok a o =>
      rw [hresult] at h
      simp only [hcheck a h]
      rfl
  | error f o => rfl

theorem Exec.perform_pure {α : Type} (a : α) : Exec.perform (pure a) = pure a :=
  rfl

-- Loops that count from a whole number on take the same way if their rounds do at whole numbers, in
-- all stores of which `I` holds.
theorem Exec.countUp_congr {limit : Float} {round round' : Float → Exec Bool} {I : Store → Prop}
    (hround : ∀ k ≤ 2 ^ 53, ∀ σ, I σ → round (Number.whole k) σ = round' (Number.whole k) σ)
    (hkeep : ∀ k ≤ 2 ^ 53, ∀ σ σ', I σ → round (Number.whole k) σ = .ok true σ' → I σ')
    (rounds : Nat) {k : Nat} (hk : k ≤ 2 ^ 53) {σ : Store} (hσ : I σ) :
    Exec.countUp limit round rounds (Number.whole k) σ =
      Exec.countUp limit round' rounds (Number.whole k) σ := by
  induction rounds generalizing k σ with
  | zero => rfl
  | succ rounds ih =>
      obtain ⟨j, hj, hnext⟩ := Number.exists_whole_add_one hk
      have hone : Number.ofLong 1 = Number.whole 1 := rfl
      simp only [Exec.countUp, hone, hnext]
      by_cases hlt : Number.whole k < limit
      · simp only [hlt, if_true, bind, EStateM.bind, ← hround k hk σ hσ]
        cases hresult : round (Number.whole k) σ with
        | error e σ' => rfl
        | ok more σ' =>
            cases more with
            | true => exact ih hj (hkeep k hk σ σ' hσ hresult)
            | false => rfl
      · simp only [hlt, if_false]

-- A type that can be walked either way, seen by two scripts of one registry.
namespace Dialect

variable {r : Registry} {ty : Nat} {p : PropertyDef} {d : MethodDef} {o : ObjectRef}
  {D D' : Dialect}

theorem itemCount_members (hr : r.Built) (h : r.Enumerates ty p d) (hD : D.registry = r) :
    ∃ get, p.getter = some get ∧ ∀ source, D.itemCount (.members p.id d.id) source =
      Exec.perform (Calc.readProperty r p get source) := by
  obtain ⟨hfind, hroom, -, get, hget⟩ := h.property hr
  have hgetter : Calc.getterOf p = pure get := by simp only [Calc.getterOf, hget]
  have hmember : (Exec.value fun _ => Eval.member r.properties p.id fun _ => true) = pure p :=
    value_member hfind hroom rfl
  refine ⟨get, hget, fun source => ?_⟩
  simp only [itemCount, hD, hmember, pure_bind, hgetter, Exec.perform_pure]

theorem itemCount_vars (hr : r.Built) (h : r.Enumerates ty p d) (hD : D.registry = r)
    (source : Value) (σ : Store) : Upholds (fun _ _ => True) (fun _ σ' => σ'.vars = σ.vars)
      (D.itemCount (.members p.id d.id) source σ) := by
  obtain ⟨get, -, hcount⟩ := itemCount_members hr h hD
  have hread := @Calc.readProperty_gives false r p get source
  rw [hcount]
  exact (value_upholds (.ofCalc hread fun _ _ => trivial)).weaken fun _ _ hv => hv.2

theorem itemCount_eq (hr : r.Built) (h : r.Enumerates ty p d) (hD : D.registry = r)
    (hD' : D'.registry = r) (ho : r.typeOf (.object o) = .object ty) :
    D.itemCount (.members p.id d.id) (.object o) = D'.itemCount .dynamic (.object o) := by
  obtain ⟨get, hget, hcount⟩ := itemCount_members hr h hD
  have hnumber : ∀ v : Value, v.Answers r p.ty → Calc.require r .double v = pure () := by
    rintro v (⟨hvoid, -⟩ | hadmits)
    · have hnever := h.number
      rw [hvoid] at hnever
      cases hnever
    · exact if_pos (Ty.admits_double h.number hadmits)
  rw [hcount]
  simp only [itemCount, hD', Calc.readCount_eq hr h hget ho]
  exact (Exec.perform_checked (@Calc.readProperty_gives false r p get _) hnumber).symm

theorem itemAt_members (hr : r.Built) (h : r.Enumerates ty p d) (hD : D.registry = r) (source : Value)
    (x : Float) : D.itemAt (.members p.id d.id) source x =
      Exec.perform (Calc.callMethod r d source [.number x]) := by
  obtain ⟨hfind, hroom, -⟩ := h.method hr
  obtain ⟨param, hparams, -⟩ := h.index
  have hmember : (Exec.value fun _ => Eval.member r.methods d.id (·.params.length = 1)) = pure d :=
    value_member hfind hroom (by simp [hparams])
  simp only [itemAt, hD, hmember, pure_bind]

theorem itemAt_eq (hr : r.Built) (h : r.Enumerates ty p d) (hD : D.registry = r)
    (hD' : D'.registry = r) (ho : r.typeOf (.object o) = .object ty) {x : Float}
    (hx : Number.isWhole x = true) :
    D.itemAt (.members p.id d.id) (.object o) x = D'.itemAt .dynamic (.object o) x := by
  rw [itemAt_members hr h hD, ← Calc.callItem_eq hr h ho hx]
  simp only [itemAt, hD']

-- A variable takes every value that it may hold.
theorem assign_eq {name : String} {v : Value}
    (h : D.symbols.mayHoldRef name = true ∨ v.isRef = false) (σ : Store) :
    D.assign name v σ = .ok () { σ with vars := fun x => if x = name then v else σ.vars x } := by
  unfold assign
  rw [if_pos]
  rcases h with h | h <;> simp [h]

-- What is asked of two bodies that are run with an item of a type in a variable: they do the same,
-- wherever `I` holds of the variables, and go on to the next round with `I` again.
structure Agree (r : Registry) (D D' : Dialect) (I : (String → Value) → Prop) (item : String) (ty : Ty)
    (body body' : List Stmt) : Prop where
  put : ∀ vars (v : Value), I vars → v.Answers r ty → I fun x => if x = item then v else vars x
  same : ∀ σ : Store, I σ.vars → (σ.vars item).Answers r ty →
    D.execAll true body σ = D'.execAll true body' σ
  keep : ∀ σ σ' : Store, I σ.vars → (σ.vars item).Answers r ty →
    Exec.goesOn (D.execAll true body) σ = .ok true σ' → I σ'.vars

-- One round of a loop over items.
def round (D : Dialect) (item : String) (body : List Stmt) (how : Iteration) (source : Value)
    (i : Float) : Exec Bool := do
  D.assign item (← D.itemAt how source i)
  Exec.goesOn (D.execAll true body)

theorem limit_store {v : Value} {σ σ' : Store} {x : Float} (h : limit v σ = .ok x σ') : σ' = σ := by
  unfold limit at h
  split at h
  · cases h
    rfl
  · split at h <;> cases h

variable {I : (String → Value) → Prop} {item : String} {body body' : List Stmt}

-- From the item on, both rounds go the same way.
theorem round_eq (hr : r.Built) (h : r.Enumerates ty p d) (hD : D.registry = r)
    (hD' : D'.registry = r) (ho : r.typeOf (.object o) = .object ty)
    (hitem : d.returns.mayBeRef = true → D.symbols.Holds item) (hitem' : D'.symbols.Holds item)
    (hbody : Agree r D D' I item d.returns body body') {x : Float} (hx : Number.isWhole x = true)
    {σ : Store} (hσ : I σ.vars) :
    D.round item body (.members p.id d.id) (.object o) x σ =
      D'.round item body' .dynamic (.object o) x σ ∧
    ∀ σ', D.round item body (.members p.id d.id) (.object o) x σ = .ok true σ' → I σ'.vars := by
  have hanswers : Upholds (fun _ _ => True) (fun v σ' => v.Answers r d.returns ∧ σ'.vars = σ.vars)
      (D.itemAt (.members p.id d.id) (.object o) x σ) := by
    rw [itemAt_members hr h hD]
    have hcall := @Calc.callMethod_gives false r d (.object o) [.number x]
    exact value_upholds (.ofCalc hcall fun _ _ => trivial)
  unfold round
  rw [← itemAt_eq hr h hD hD' ho hx]
  simp only [bind, EStateM.bind]
  cases hresult : D.itemAt (.members p.id d.id) (.object o) x σ with
  | error e σ₁ => exact ⟨rfl, nofun⟩
  | ok v σ₁ =>
      rw [hresult] at hanswers
      obtain ⟨hv, hvars⟩ : v.Answers r d.returns ∧ σ₁.vars = σ.vars := hanswers
      have hfits : D.symbols.mayHoldRef item = true ∨ v.isRef = false := by
        cases href : d.returns.mayBeRef with
        | true => exact .inl (hitem href).mayHoldRef
        | false => exact .inr (Value.isRef_of_conforms hv.conforms href)
      have hput := hbody.put σ₁.vars v (hvars ▸ hσ) hv
      have hheld : (if item = item then v else σ₁.vars item).Answers r d.returns := by simpa using hv
      simp only [assign_eq hfits, assign_eq (.inl hitem'.mayHoldRef)]
      refine ⟨?_, fun σ' hgo => hbody.keep _ σ' hput hheld hgo⟩
      simp only [Exec.goesOn]
      rw [hbody.same _ hput hheld]

-- A loop over the items of an object does the same whether the type of the object is known or not.
theorem eachLoop_eq (hr : r.Built) (h : r.Enumerates ty p d) (hD : D.registry = r)
    (hD' : D'.registry = r) (hrounds : D.rounds = D'.rounds)
    (hitem : d.returns.mayBeRef = true → D.symbols.Holds item) (hitem' : D'.symbols.Holds item)
    (hbody : Agree r D D' I item d.returns body body')
    {inLoop inLoop' : Bool} {offset offset' : Nat} {e e' : Expr} {σ : Store} {out : Outside}
    (hσ : I σ.vars) (ho : r.typeOf (.object o) = .object ty)
    (hsource : D.eval true σ.vars e σ.outside = .ok (.object o) out)
    (hsource' : D'.eval true σ.vars e' σ.outside = .ok (.object o) out) :
    D.exec inLoop (.eachLoop offset item e body (.members p.id d.id)) σ =
      D'.exec inLoop' (.eachLoop offset' item e' body' .dynamic) σ := by
  have hrounds_eq : ∀ (x : Float) (σ : Store), I σ.vars →
      Exec.countUp x (D.round item body (.members p.id d.id) (.object o)) D.rounds
        (Number.ofLong 0) σ =
      Exec.countUp x (D'.round item body' .dynamic (.object o)) D'.rounds (Number.ofLong 0) σ := by
    intro x σ hσ
    have hzero : Number.ofLong 0 = Number.whole 0 := rfl
    have hround : ∀ k ≤ 2 ^ 53, ∀ σ : Store, I σ.vars → _ := fun k hk σ hσ =>
      round_eq hr h hD hD' ho hitem hitem' hbody (Number.isWhole_whole hk) hσ
    rw [hrounds, hzero]
    exact @Exec.countUp_congr _ _ _ (fun σ => I σ.vars) (fun k hk σ hσ => (hround k hk σ hσ).1)
      (fun k hk σ σ' hσ => (hround k hk σ hσ).2 σ') _ _ (Nat.zero_le _) _ hσ
  have hvalue : Exec.value (fun vars => D.eval true vars e) σ = .ok (.object o) ⟨σ.vars, out⟩ := by
    simp only [Exec.value, hsource]
  have hvalue' : Exec.value (fun vars => D'.eval true vars e') σ = .ok (.object o) ⟨σ.vars, out⟩ := by
    simp only [Exec.value, hsource']
  have hcount := itemCount_vars hr h hD (.object o) ⟨σ.vars, out⟩
  unfold exec
  simp only [bind, EStateM.bind, hvalue, hvalue', ← itemCount_eq hr h hD hD' ho]
  cases hresult : D.itemCount (.members p.id d.id) (.object o) ⟨σ.vars, out⟩ with
  | error e σ₁ => rfl
  | ok top σ₁ =>
      rw [hresult] at hcount
      have hvars : σ₁.vars = σ.vars := hcount
      dsimp only
      cases hlimit : limit top σ₁ with
      | error e σ₂ => rfl
      | ok x σ₂ =>
          cases limit_store hlimit
          exact hrounds_eq x σ₁ (hvars ▸ hσ)

end Dialect

end HostScript
