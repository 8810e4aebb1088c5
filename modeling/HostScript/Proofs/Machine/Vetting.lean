import HostScript.Proofs.Compile.Entries
import HostScript.Proofs.Machine.Calls
import HostScript.Proofs.Machine.Dispatch

namespace HostScript

namespace CompiledScript

-- Behind the checks in front of a place, all of them in a row, one of which checks for the type at
-- the depth.
inductive Vets (s : CompiledScript) (ty : Ty) (depth : Nat) : Nat → Prop
  | here : s.Whole 0 p → s.fetch p = .ok (i, q) → i.check? = some (ty, depth) → Vets s ty depth q
  | later : Vets s ty depth p → s.fetch p = .ok (i, q) → i.check? = some check → Vets s ty depth q

variable {s : CompiledScript} {ty : Ty} {depth p q : Nat} {i : Instr}

theorem Vets.whole (h : s.Vets ty depth q) : s.Whole 0 q := by
  induction h with
  | here hp hat _ => exact hp.append (.one hat trivial)
  | later _ hat _ ih => exact ih.append (.one hat trivial)

-- A place that a run can jump to is not behind a check.
theorem Entry.not_vets (h : s.Entry q) : ¬s.Vets ty depth q := by
  intro hvets
  cases hvets with
  | here hp hat hi => exact absurd (h.check?_eq hp hat) (by simp [hi])
  | later hp hat hi => exact absurd (h.check?_eq hp.whole hat) (by simp [hi])

-- What has been checked behind an instruction is what it checks itself and what was checked in
-- front of it.
theorem Vets.behind (h : s.Vets ty depth q) (hp : s.Whole 0 p) (hat : s.fetch p = .ok (i, q)) :
    i.check? = some (ty, depth) ∨ s.Vets ty depth p := by
  cases h with
  | here hx hi hcheck =>
      obtain rfl := Rows.unique hx hp hi hat
      cases Except.ok.inj (hi.symm.trans hat)
      exact .inl hcheck
  | later hx hi _ =>
      obtain rfl := Rows.unique hx.whole hp hi hat
      exact .inr hx

end CompiledScript

open CompiledScript

namespace Machine

variable {env : RunEnv} {r : Registry} {m m' : Machine} {ty : Ty} {depth : Nat} {c : Cell}

-- The value at a depth of the stack may be stored where the type is declared.
def Holds (r : Registry) (ty : Ty) (depth : Nat) (m : Machine) : Prop :=
  ∃ c, m.stack[depth]? = some c ∧ m.Fits r ty c

theorem exists_typeOf (r : Registry) (c : Cell) (m : Machine) :
    ∃ actual, Work.typeOf r c m = .ok actual m := by
  cases c with
  | object h =>
      simp only [Work.typeOf, bind, EStateM.bind, get, getThe, MonadStateOf.get, EStateM.get]
      cases m.refs.get? h with
      | none => exact ⟨_, rfl⟩
      | some payload => cases payload <;> exact ⟨_, rfl⟩
  | _ => exact ⟨_, rfl⟩

theorem Fits.congr (h : m.Fits r ty c) (hrefs : m'.refs = m.refs) : m'.Fits r ty c := by
  obtain ⟨actual, htype, hadmits⟩ := h
  refine ⟨actual, ?_, hadmits⟩
  cases c with
  | object h =>
      simp only [Work.typeOf, bind, EStateM.bind, get, getThe, MonadStateOf.get, EStateM.get,
        hrefs] at htype ⊢
      cases hp : m.refs.get? h with
      | none =>
          simp only [hp] at htype ⊢
          cases htype
          rfl
      | some payload =>
          simp only [hp] at htype ⊢
          cases payload <;> cases htype <;> rfl
  | _ =>
      cases htype
      rfl

theorem Holds.congr (h : m.Holds r ty depth) (hstack : m'.stack = m.stack)
    (hrefs : m'.refs = m.refs) : m'.Holds r ty depth := by
  obtain ⟨c, hc, hfits⟩ := h
  exact ⟨c, hstack ▸ hc, hfits.congr hrefs⟩

-- A check lets only values of its type pass, and changes nothing.
theorem checkAt_holds (r : Registry) (ty : Ty) (depth : Nat) (m : Machine) :
    Upholds (fun _ _ => True) (fun _ m' => m' = m ∧ m.Holds r ty depth)
      (Work.checkAt r ty depth m) := by
  simp only [Work.checkAt, bind, EStateM.bind, Work.peek]
  cases hc : m.stack[depth]? with
  | none => exact trivial
  | some c =>
      obtain ⟨actual, htype⟩ := exists_typeOf r c m
      simp only [htype]
      by_cases hadmits : ty.admits actual = true
      · rw [if_pos hadmits]
        exact ⟨rfl, c, hc, actual, htype, hadmits⟩
      · rw [if_neg hadmits]
        exact trivial

theorem effect_check [HostHooks] {i : Instr} (hi : i.check? = some (ty, depth)) (env : RunEnv) :
    Work.effect env i = Work.checkAt env.registry ty depth := by
  cases i <;> cases hi <;> rfl

-- A run between two instructions that can only jump to places behind no check, and has at its hands
-- whatever has been checked.
structure Vetted (env : RunEnv) (m : Machine) : Prop where
  pc : env.script.Whole 0 m.pc
  loops : ∀ frame ∈ m.loops, env.script.Entry frame.start ∧ env.script.Entry frame.stop
  holds : ∀ ty depth, env.script.Vets ty depth m.pc → m.Holds env.registry ty depth

theorem Vetted.of_entry (hpc : env.script.Entry m.pc)
    (hloops : ∀ frame ∈ m.loops, env.script.Entry frame.start ∧ env.script.Entry frame.stop) :
    m.Vetted env :=
  ⟨hpc.whole, hloops, fun _ _ hvets => absurd hvets hpc.not_vets⟩

-- An instruction that checks nothing leads to a place behind no check.
theorem Vetted.continues (hsteady : env.script.Steady 0 env.script.code.size) (h : m.Vetted env)
    {i : Instr} {q : Nat} (hat : env.script.fetch m.pc = .ok (i, q)) (hcheck : i.check? = none)
    (hi : i.Continues { m with pc := q } m') : m'.Vetted env := by
  have hnext : env.script.Entry q := .behind h.pc hat hcheck
  obtain ⟨i', q', hat', ⟨hjumps, hbodies⟩, -⟩ := hsteady.find h.pc (lt_size_of_fetch hat)
  cases Except.ok.inj (hat.symm.trans hat')
  have hsame : m'.pc = q ∧ m'.loops = m.loops → m'.Vetted env := fun hm =>
    .of_entry (hm.1 ▸ hnext) (hm.2 ▸ h.loops)
  have hjump : ∀ t, i.target? = some t → m'.pc = t.toNat → m'.loops = m.loops →
      m'.Vetted env := by
    intro t ht hpc hloops
    obtain ⟨n, rfl, hn⟩ := hjumps t ht
    rw [Int.toNat_natCast] at hpc
    exact .of_entry (hpc ▸ hn) (hloops ▸ h.loops)
  have hloop : ∀ l : Int, i.bodyLength? = some l →
      (m'.pc = q + l.toNat ∧ m'.loops = m.loops) ∨
      (m'.pc = q ∧ ∃ left, m'.loops = ⟨q, q + l.toNat, left⟩ :: m.loops) → m'.Vetted env := by
    intro l hl hm
    have hend := hbodies l hl
    rcases hm with ⟨hpc, hloops⟩ | ⟨hpc, left, hloops⟩
    · exact .of_entry (hpc ▸ hend) (hloops ▸ h.loops)
    · refine .of_entry (hpc ▸ hnext) fun frame hf => ?_
      rw [hloops] at hf
      rcases List.mem_cons.mp hf with rfl | hf
      · exact ⟨hnext, hend⟩
      · exact h.loops frame hf
  cases i with
  | jump t => exact hjump _ rfl hi.1 hi.2
  | jumpIf on t =>
      rcases hi.1 with hpc | hpc
      · exact hsame ⟨hpc, hi.2⟩
      · exact hjump _ rfl hpc hi.2
  | loop count length => exact hloop _ rfl hi
  | loopNum length => exact hloop _ rfl hi
  | _ => exact hsame hi

variable [HostHooks]

theorem Vetted.effect (hsteady : env.script.Steady 0 env.script.code.size) (h : m.Vetted env)
    {i : Instr} {q : Nat} (hat : env.script.fetch m.pc = .ok (i, q)) :
    Upholds (fun _ _ => True) (fun _ m' => m'.Vetted env)
      (Work.effect env i { m with pc := q }) := by
  cases hcheck : i.check? with
  | none =>
      exact (Work.effect_moves env i _).imp (fun _ _ _ => trivial) fun _ m' hm =>
        h.continues hsteady hat hcheck hm.continues
  | some check =>
      obtain ⟨ty, depth⟩ := check
      rw [effect_check hcheck]
      refine (checkAt_holds env.registry ty depth { m with pc := q }).weaken fun _ m' hm => ?_
      obtain ⟨rfl, hholds⟩ := hm
      refine ⟨h.pc.append (.one hat trivial), h.loops, fun ty' depth' hvets => ?_⟩
      rcases hvets.behind h.pc hat with hsame | hbefore
      · rw [hcheck] at hsame
        cases hsame
        exact hholds
      · exact (h.holds ty' depth' hbefore).congr rfl rfl

theorem Vetted.step (hsteady : env.script.Steady 0 env.script.code.size) (h : m.Vetted env) :
    Upholds (fun _ _ => True) (fun _ m' => m'.Vetted env) (Work.step env m) := by
  refine Work.step_upholds (fun i q _ hat => h.effect hsteady hat) (fun _ _ _ => trivial)
    (fun _ _ => h) ?_ ?_
  · intro frame outer left _ hloops _
    have hframe := h.loops frame (by simp [hloops])
    refine .of_entry hframe.1 fun f hf => ?_
    rcases List.mem_cons.mp hf with rfl | hf
    · exact hframe
    · exact h.loops f (by simp [hloops, hf])
  · intro frame outer _ hloops _
    exact .of_entry (h.loops frame (by simp [hloops])).2 fun f hf =>
      h.loops f (by simp [hloops, hf])

-- Wherever a run is, all that has been checked in front of that place is on the stack.
theorem firstSteps_vetted (hsteady : env.script.Steady 0 env.script.code.size) (m : Machine)
    (inputs : List (String × Value)) (count : Nat) :
    Leaves (Vetted env) (Vetted env) (fun _ _ => True) (m.firstSteps env inputs count) := by
  refine execute_leaves (fun _ => Vetted env) ?_ fun left m₁ h₁ => ?_
  · refine (bindInputs_keeps _ env.registry inputs env.script.inputs).imp (fun _ _ _ => trivial)
      fun _ m' h => ?_
    have hloops : m'.loops = [] := h.loops
    exact .of_entry (h.pc ▸ .start) (by simp [hloops])
  · refine (h₁.step hsteady).weaken fun flow m' h => ?_
    split <;> exact h

end Machine

-- How many values an instruction passes to a member that it picks by its number.
def Instr.passes? (r : Registry) : Instr → Option Nat
  | .invoke id | .invokeStatic id => some (r.methodArity id)
  | .new id => some (r.constructorArity id)
  | .setProperty _ | .setStaticProperty _ => some 1
  | _ => none

-- The values that a call of host code is made with.
def HostCall.args : HostCall → List Value
  | .method _ _ args | .build _ args => args
  | .read _ _ => []
  | .write _ _ value => [value]

namespace Work

open Machine (Holds)

variable {env : RunEnv} {r : Registry} {m : Machine} {values : List Value} {n : Nat}

-- The values are those of the uppermost places of the stack, the last one of the top.
def Passes (m : Machine) (n : Nat) (values : List Value) : Prop :=
  ∀ k < n, ∃ c v, m.stack[n - 1 - k]? = some c ∧ m.refs.value? c = some v ∧ values[k]? = some v

theorem Passes.admits (h : Passes m n values) {ty : Ty} {k : Nat} (hk : k < n)
    (hholds : m.Holds r ty (n - 1 - k)) :
    ∃ v, values[k]? = some v ∧ ty.admits (r.typeOf v) = true := by
  obtain ⟨c, v, hc, hv, hvalue⟩ := h k hk
  obtain ⟨d, hd, hfits⟩ := hholds
  rw [hc] at hd
  cases hd
  exact ⟨v, hvalue, admits_of_fits hv hfits⟩

theorem toValue_finds (c : Cell) (m : Machine) :
    Upholds (fun _ _ => True) (fun v m' => m' = m ∧ m.refs.value? c = some v) (toValue c m) := by
  cases c with
  | text h =>
      simp only [toValue, bind, EStateM.bind, readRefs, References.text]
      cases hp : m.refs.get? h with
      | none => exact trivial
      | some payload =>
          cases payload with
          | text s => exact ⟨rfl, by simp [References.value?, hp]⟩
          | object o => exact trivial
  | object h =>
      simp only [toValue, bind, EStateM.bind, readRefs, References.object]
      cases hp : m.refs.get? h with
      | none => exact trivial
      | some payload =>
          cases payload with
          | text s => exact trivial
          | object o => exact ⟨rfl, by simp [References.value?, hp]⟩
  | _ => exact ⟨rfl, rfl⟩

theorem toValues_finds (cells : List Cell) (m : Machine) :
    Upholds (fun _ _ => True) (fun vs m' => m' = m ∧ cells.map m.refs.value? = vs.map some)
      (toValues cells m) := by
  induction cells with
  | nil => exact ⟨rfl, rfl⟩
  | cons c rest ih =>
      refine (toValue_finds c m).bind fun v m₁ h₁ => ?_
      obtain ⟨rfl, hv⟩ := h₁
      refine ih.bind fun vs m₂ h₂ => ?_
      obtain ⟨rfl, hvs⟩ := h₂
      exact ⟨rfl, by simp [hv, hvs]⟩

theorem popArgs_passes [HostHooks] (n : Nat) (m : Machine) :
    Upholds (fun _ _ => True) (fun vs _ => Passes m n vs) (popArgs n m) := by
  unfold popArgs popMany
  simp only [bind, EStateM.bind]
  by_cases hn : n ≤ m.stack.length
  · simp only [hn, if_true, attempt]
    have hvalues := toValues_finds (m.stack.take n).reverse { m with stack := m.stack.drop n }
    cases hx : toValues (m.stack.take n).reverse { m with stack := m.stack.drop n } with
    | error f m₁ =>
        simp only
        cases releaseAll (m.stack.take n).reverse m₁ <;> exact trivial
    | ok vs m₁ =>
        rw [hx] at hvalues
        obtain ⟨-, hvalues⟩ := hvalues
        have hpasses : Passes m n vs := by
          intro k hk
          have hcell := congrArg (·[k]?) hvalues
          have hlt : n - 1 - k < m.stack.length := by omega
          have hat : (m.stack.take n).reverse[k]? = m.stack[n - 1 - k]? := by
            rw [List.getElem?_reverse (by simp; omega), List.length_take, Nat.min_eq_left hn,
              List.getElem?_take_of_lt (by omega)]
          simp only [List.getElem?_map, hat, List.getElem?_eq_getElem hlt, Option.map_some] at hcell
          cases hv : vs[k]? with
          | none => simp [hv] at hcell
          | some v =>
              rw [hv] at hcell
              exact ⟨_, v, List.getElem?_eq_getElem hlt, Option.some.inj hcell, rfl⟩
        simp only
        cases releaseAll (m.stack.take n).reverse m₁ with
        | ok u m₂ => exact hpasses
        | error f m₂ => exact trivial
  · simp only [hn, if_false]
    exact trivial

theorem methodAt_finds (r : Registry) (id : Int32) (m : Machine) :
    Upholds (fun _ _ => True) (fun d m' => m' = m ∧ d.params.length = r.methodArity id)
      (methodAt r id m) := by
  unfold methodAt
  cases hd : r.methods[id.toUInt32.toNat]? with
  | none => exact trivial
  | some d => exact ⟨rfl, by simp [Registry.methodArity, hd]⟩

theorem constructorAt_finds (r : Registry) (id : Int32) (m : Machine) :
    Upholds (fun _ _ => True) (fun d m' => m' = m ∧ d.params.length = r.constructorArity id)
      (constructorAt r id m) := by
  unfold constructorAt
  cases hd : r.constructors[id.toUInt32.toNat]? with
  | none => exact trivial
  | some d => exact ⟨rfl, by simp [Registry.constructorArity, hd]⟩

theorem propertyAt_stays (r : Registry) (id : Int32) (m : Machine) :
    Upholds (fun _ _ => True) (fun _ m' => m' = m) (propertyAt r id m) := by
  unfold propertyAt
  cases r.properties[id.toUInt32.toNat]? with
  | none => exact trivial
  | some d => exact rfl

theorem setterOf_stays (d : PropertyDef) (m : Machine) :
    Upholds (fun _ _ => True) (fun _ m' => m' = m) (setterOf d m) := by
  unfold setterOf
  cases d.setter with
  | none => exact trivial
  | some set => exact rfl

theorem objectOf_stays (member : String) (c : Cell) (m : Machine) :
    Upholds (fun _ _ => True) (fun _ m' => m' = m) (objectOf member c m) := by
  cases c with
  | object h =>
      simp only [objectOf, readRefs]
      cases m.refs.object h with
      | error f => exact trivial
      | ok o => exact rfl
  | _ => exact trivial

theorem pop_finds (m : Machine) :
    Upholds (fun _ _ => True) (fun c m' => m.stack[0]? = some c ∧ m'.refs = m.refs) (pop m) := by
  unfold pop
  cases hstack : m.stack with
  | nil => exact trivial
  | cons c rest => exact ⟨rfl, rfl⟩

theorem passes_one {c : Cell} {v : Value} (hc : m.stack[0]? = some c)
    (hv : m.refs.value? c = some v) : Passes m 1 [v] := by
  intro k hk
  obtain rfl : k = 0 := by omega
  exact ⟨c, v, hc, hv, rfl⟩

-- A member that is picked by its number is called with what is on top of the stack.
theorem hostCall_passes [HostHooks] {i : Instr} (hi : i.passes? env.registry = some n)
    (m : Machine) :
    Upholds (fun _ _ => True) (fun call _ => ∀ x, call = some x → Passes m n x.args)
      (hostCall env i m) := by
  cases i with
  | invokeStatic id =>
      cases hi
      refine (methodAt_finds env.registry id m).bind fun d m₁ h₁ => ?_
      obtain ⟨rfl, hcount⟩ := h₁
      rw [hcount]
      refine (popArgs_passes _ m₁).bind fun vs m₂ h₂ => ?_
      rintro x ⟨⟩
      exact h₂
  | invoke id =>
      cases hi
      refine (methodAt_finds env.registry id m).bind fun d m₁ h₁ => ?_
      obtain ⟨rfl, hcount⟩ := h₁
      rw [hcount]
      refine (popArgs_passes _ m₁).bind fun vs m₂ h₂ => (pop_finds m₂).bind fun c m₃ _ =>
        (objectOf_stays d.name c m₃).bind fun o m₄ _ => ?_
      rintro x ⟨⟩
      exact h₂
  | new id =>
      cases hi
      refine (constructorAt_finds env.registry id m).bind fun d m₁ h₁ => ?_
      obtain ⟨rfl, hcount⟩ := h₁
      rw [hcount]
      refine (popArgs_passes _ m₁).bind fun vs m₂ h₂ => ?_
      rintro x ⟨⟩
      exact h₂
  | setProperty id =>
      cases hi
      refine (propertyAt_stays env.registry id m).bind fun d m₁ h₁ => ?_
      obtain rfl := h₁
      refine (setterOf_stays d m₁).bind fun set m₂ h₂ => ?_
      obtain rfl := h₂
      refine (pop_finds m₂).bind fun c m₃ h₃ => (pop_finds m₃).bind fun target m₄ h₄ =>
        (objectOf_stays d.name target m₄).bind fun o m₅ h₅ => ?_
      obtain rfl := h₅
      refine (toValue_finds c m₅).bind fun v m₆ h₆ => ?_
      rintro x ⟨⟩
      exact passes_one h₃.1 (by rw [← h₃.2, ← h₄.2, h₆.2])
  | setStaticProperty id =>
      cases hi
      refine (propertyAt_stays env.registry id m).bind fun d m₁ h₁ => ?_
      obtain rfl := h₁
      refine (setterOf_stays d m₁).bind fun set m₂ h₂ => ?_
      obtain rfl := h₂
      refine (pop_finds m₂).bind fun c m₃ h₃ => (toValue_finds c m₃).bind fun v m₄ h₄ => ?_
      rintro x ⟨⟩
      exact passes_one h₃.1 (by rw [← h₃.2, h₄.2])
  | _ => cases hi

end Work

-- The calls of the next step, if it is an instruction that passes values.
theorem Machine.passes_of_stepCalls [HostHooks] {env : RunEnv} {m : Machine} {i : Instr}
    {q n : Nat} (hat : env.script.fetch m.pc = .ok (i, q)) (hi : i.passes? env.registry = some n)
    {call : HostCall} (hcall : call ∈ m.stepCalls env) : Work.Passes m n call.args := by
  unfold stepCalls at hcall
  split at hcall
  · simp only [hat, callsOf] at hcall
    have hall := Work.hostCall_passes hi { m with pc := q }
    split at hcall
    · rename_i found m' hrun
      rw [hrun] at hall
      exact hall call (by simpa using hcall)
    · cases hcall
  · cases hcall

end HostScript
