import HostScript.Proofs.Machine.Inputs
import HostScript.Proofs.Machine.Reports
import HostScript.Proofs.Machine.Runs
import HostScript.Proofs.Machine.Simulation
import HostScript.Proofs.Machine.Worlds

namespace HostScript

-- The instructions that take a variable for one that never holds a text or an object.
def Instr.trusts : Instr → Bool
  | .loadLocNoRef _ | .setLocNoRef _ => true
  | _ => false

theorem View.isRef_start {m : Machine} {localsCount i : Nat} {x : Value}
    (hx : (View.start m localsCount).locals[i]? = some x) : x.isRef = false := by
  rw [View.start, Array.getElem?_replicate] at hx
  split at hx
  · cases hx
    rfl
  · cases hx

namespace Machine

-- The next instruction does so.
def Trusts (env : RunEnv) (m : Machine) : Prop :=
  m.pc < Work.rangeEnd env m ∧ ∃ i pc, env.script.fetch m.pc = .ok (i, pc) ∧ i.trusts = true

-- Every place that holds a handle is one of the references that the table counts for it.
structure Owned (m : Machine) : Prop where
  text : ∀ h, .text h ∈ m.stack ++ m.locals.toList → ∃ s, m.refs.get? h = some (.text s)
  object : ∀ h, .object h ∈ m.stack ++ m.locals.toList → ∃ o, m.refs.get? h = some (.object o)
  counted : ∀ h, m.refs.uses h = Cell.occurrences h (m.stack ++ m.locals.toList)

variable {env : RunEnv} {m m' : Machine} {v : View}

theorem Shows.isSome_value? (hs : m.Shows [] [] v) {c : Cell}
    (hc : c ∈ m.stack ++ m.locals.toList) : ∃ x, m.refs.value? c = some x := by
  have hall : (m.stack ++ m.locals.toList).map m.refs.value? =
      (v.stack ++ v.locals.toList).map some := by
    rw [List.map_append, List.map_append, hs.stack, hs.locals]
  have hmem := List.mem_map_of_mem (f := m.refs.value?) hc
  rw [hall] at hmem
  obtain ⟨x, -, hx⟩ := List.mem_map.mp hmem
  exact ⟨x, hx.symm⟩

theorem Shows.owned (hs : m.Shows [] [] v) : m.Owned where
  text h hc := by
    obtain ⟨x, hx⟩ := hs.isSome_value? hc
    simp only [References.value?] at hx
    split at hx
    · rename_i s hs
      exact ⟨s, hs⟩
    · cases hx
  object h hc := by
    obtain ⟨x, hx⟩ := hs.isSome_value? hc
    simp only [References.value?] at hx
    split at hx
    · rename_i o ho
      exact ⟨o, ho⟩
    · cases hx
  counted h := by
    rw [hs.counted h, Cell.occurrences_nil, Nat.zero_add, Cell.occurrences_append]

-- References are counted, and at most that the stack was not empty is reported.
def Counted (m : Machine) : Prop :=
  ∃ v, m.Shows [] [] v ∧ ∀ w ∈ v.warnings, w.code = .stackNotEmpty

-- How a run may fail whose references are counted: not because of a handle, and with everything
-- still counted unless the stack ran empty.
def FailsCounted (f : Fault) (m : Machine) : Prop :=
  f.code ≠ .invalidReference ∧ (f = .stackUnderflow ∨ m.Counted)

theorem Clean.counted (hm : m.Clean) : m.Counted := by
  obtain ⟨v, hs, hw⟩ := hm
  exact ⟨v, hs, by simp [hw]⟩

theorem not_invalidReference_of_exhausts {f : Fault} (h : f.exhausts = true) :
    f.code ≠ .invalidReference := by
  cases f <;> simp_all [Fault.exhausts, Fault.code]

theorem Shows.finds_of_not_trusts (hs : m.Shows [] [] v) (h : ¬m.Trusts env) : v.Finds env := by
  intro hlt i pc hfetch
  have hi : i.trusts = false := by
    rw [← Bool.not_eq_true]
    intro htrusts
    exact h ⟨by rw [Work.rangeEnd_eq hs, hs.pc]; exact hlt, i, pc, by rw [hs.pc]; exact hfetch,
      htrusts⟩
  cases i with
  | loadLocNoRef slot => cases hi
  | setLocNoRef slot => cases hi
  | _ => trivial

-- First for a host that does nothing when it is told of objects.
theorem Clean.step_idle (hm : m.Clean) (htrusts : ¬m.Trusts env) :
    Upholds FailsCounted (fun flow m' => if flow = .next then m'.Clean else m'.Counted)
      (Work.step env m) := by
  obtain ⟨v, hs, hw⟩ := hm
  have hagrees := Work.step_agrees hs (hs.finds_of_not_trusts htrusts)
  generalize Work.step env m = result at hagrees
  cases hstep : Plain.step env v with
  | ok flow v₁ =>
      rw [hstep] at hagrees
      have hnext : flow = .next → v₁.warnings = #[] := by
        intro hflow
        subst hflow
        rw [Plain.warnings_of_next hstep, hw]
      have hreported : ∀ w ∈ v₁.warnings, w.code = .stackNotEmpty := by
        intro w hmem
        cases flow with
        | next => simp [hnext rfl] at hmem
        | stop =>
            rcases Plain.warnings_of_stop hstep w hmem with hbefore | hcode
            · simp [hw] at hbefore
            · exact hcode
      cases hagrees with
      | ok hs₁ =>
          cases flow with
          | next => exact ⟨v₁, hs₁, hnext rfl⟩
          | stop => exact ⟨v₁, hs₁, hreported⟩
      | @exceeded f _ m₁ v₂ _ hexhausted hs₁ hw₁ =>
          have hcode := not_invalidReference_of_exhausts hexhausted.exhausts
          exact ⟨hcode, .inr ⟨v₂, hs₁, hw₁ ▸ hreported⟩⟩
  | error f v₁ =>
      rw [hstep] at hagrees
      obtain ⟨hwarnings, hcode⟩ := Plain.step_error hstep
      cases hagrees with
      | fault hs₁ =>
          have hclean : Clean _ := ⟨v₁, hs₁, hwarnings.trans hw⟩
          exact ⟨hcode, .inr hclean.counted⟩
      | underflow => exact ⟨hcode, .inl rfl⟩

-- An input takes the place of a value that needs no reference, or is refused.
theorem Shows.bindInput_counted (hs : m.Shows [] [] v) (r : Registry)
    (supplied : List (String × Value)) (name : String) (slot : InputSlot)
    (hold : ∀ x, v.locals[slot.slot]? = some x → x.isRef = false) :
    Upholds (fun f m' => f.code ≠ .invalidReference ∧ m' = m)
      (fun _ m' => m'.Shows [] []
        { v with locals := v.locals.setIfInBounds slot.slot (suppliedValue supplied name) })
      (Machine.bindInput r name slot (suppliedValue supplied name) m) := by
  cases hslot : v.locals[slot.slot]? with
  | some old =>
      rcases hs.bindInput r supplied name hslot (hold old hslot) with ⟨m₁, h₁, -, hs₁⟩ | ⟨f, h₁, hf⟩
      · rw [h₁]
        exact hs₁
      · rw [h₁]
        rcases hf with hf | ⟨hcode, -⟩
        · exact ⟨not_invalidReference_of_exhausts hf.exhausts, rfl⟩
        · exact ⟨by simp [hcode], rfl⟩
  | none =>
      rcases hs.getLocal slot.slot with ⟨-, hnone⟩ | ⟨c, x, hx, -⟩
      · unfold Machine.bindInput
        split
        · simp only [bind, EStateM.bind, Work.loadLocal, hnone]
          exact ⟨by simp [Fault.code], rfl⟩
        · exact ⟨by simp [Fault.code], rfl⟩
      · rw [hslot] at hx
        cases hx

-- With a variable of its own for each input no reference gets lost.
theorem Shows.bindInputs_counted (hs : m.Shows [] [] v) (hw : v.warnings = #[]) (r : Registry)
    (supplied : List (String × Value)) (table : List (String × InputSlot))
    (hnodup : (table.map fun entry => entry.2.slot).Nodup)
    (hslots : ∀ entry ∈ table, ∀ x, v.locals[entry.2.slot]? = some x → x.isRef = false) :
    Upholds FailsCounted (fun _ m' => m'.Clean) (Machine.bindInputs r supplied table m) := by
  induction table generalizing m v with
  | nil => exact ⟨v, hs, hw⟩
  | cons entry rest ih =>
      obtain ⟨name, slot⟩ := entry
      rw [List.map_cons, List.nodup_cons] at hnodup
      refine Upholds.bind (Q := fun _ m' => m'.Shows [] []
        { v with locals := v.locals.setIfInBounds slot.slot (suppliedValue supplied name) }) ?_ ?_
      · refine (hs.bindInput_counted r supplied name slot (hslots _ List.mem_cons_self)).imp ?_ ?_
        · rintro f m₁ ⟨hcode, rfl⟩
          exact ⟨hcode, .inr (Clean.counted ⟨v, hs, hw⟩)⟩
        · exact fun _ _ hs₁ => hs₁
      · intro _ m₁ hs₁
        refine ih hs₁ hw hnodup.2 fun e he x hx => ?_
        have hne : slot.slot ≠ e.2.slot := fun heq => hnodup.1 (List.mem_map.mpr ⟨e, he, heq.symm⟩)
        rw [Array.getElem?_setIfInBounds_ne hne] at hx
        exact hslots e (List.mem_cons_of_mem _ he) x hx

-- None of this is about what is outside.
theorem Clean.facing (hm : m.Clean) (o : Outside) : (m.facing o).Clean :=
  have ⟨v, hs, hw⟩ := hm
  ⟨{ v with world := o.world, printed := o.printed }, { hs with world := rfl, printed := rfl }, hw⟩

theorem Counted.facing (hm : m.Counted) (o : Outside) : (m.facing o).Counted :=
  have ⟨v, hs, hw⟩ := hm
  ⟨{ v with world := o.world, printed := o.printed }, { hs with world := rfl, printed := rfl }, hw⟩

theorem FailsCounted.facing {f : Fault} (hm : FailsCounted f m) (o : Outside) :
    FailsCounted f (m.facing o) :=
  hm.imp_right (.imp_right (·.facing o))

section

variable [HostHooks]

theorem Clean.step (hm : m.Clean) (htrusts : ¬m.Trusts env) :
    Upholds FailsCounted (fun flow m' => if flow = .next then m'.Clean else m'.Counted)
      (Work.step env m) := by
  obtain ⟨o, o', hstep⟩ := Work.step_worldly env m
  have hstep : Work.step env m = _ := hstep
  rw [hstep]
  refine Work.onMachine_upholds ((hm.facing o).step_idle htrusts) (fun f m' h => h.facing o')
    fun flow m' h => ?_
  cases flow with
  | next => exact Clean.facing h o'
  | stop => exact Counted.facing h o'

-- The first steps of a run trust no variable.
def Careful (env : RunEnv) (count : Nat) (m : Machine) : Prop :=
  ∀ k < count, ∀ m', runSteps env k m = (.outOfFuel, m') → ¬m'.Trusts env

theorem Clean.step_careful {left : Nat} (hm : m.Clean ∧ m.Careful env (left + 1)) :
    Upholds FailsCounted
      (fun flow m' => if flow = .next then m'.Clean ∧ m'.Careful env left else m'.Counted)
      (Work.step env m) := by
  obtain ⟨hclean, hcareful⟩ := hm
  have hone := hclean.step (hcareful 0 (Nat.succ_pos left) m rfl)
  cases hresult : Work.step env m with
  | error f m₁ =>
      rw [hresult] at hone
      exact hone
  | ok flow m₁ =>
      rw [hresult] at hone
      cases flow with
      | stop => exact hone
      | next =>
          refine ⟨hone, fun k hk m₂ hrun => ?_⟩
          exact hcareful (k + 1) (by omega) m₂ ((runSteps_next hresult).trans hrun)

-- A run of a rested machine that trusts no variable keeps its references counted.
theorem Rested.counted (hm : m.Rested) (inputs : List (String × Value)) (count : Nat)
    (hslots : (env.script.inputs.map fun entry => entry.2.slot).Nodup)
    (hcareful : ∀ k < count, ∀ m', m.firstSteps env inputs k = (.outOfFuel, m') → ¬m'.Trusts env) :
    Leaves Clean Counted FailsCounted (m.firstSteps env inputs count) := by
  have hs := hm.idle.prepare env.script.localsCount
  have hidle := hs.bindInputs_counted rfl env.registry inputs env.script.inputs hslots
    fun _ _ _ => View.isRef_start
  have hbound : Upholds FailsCounted (fun _ m' => m'.Clean)
      (bindInputs env.registry inputs env.script.inputs (m.prepare env.script.localsCount)) := by
    obtain ⟨⟨o, h⟩, -⟩ := bindInputs_worldless env.registry inputs env.script.inputs
      (m.prepare env.script.localsCount) m.outside
    have h : bindInputs env.registry inputs env.script.inputs _ = _ := h
    rw [h]
    exact Work.onMachine_upholds hidle (fun f m' hm' => hm'.facing o) fun _ m' hm' => hm'.facing o
  have hall : Leaves (fun m' => m'.Clean ∧ m'.Careful env 0) Counted FailsCounted
      (m.firstSteps env inputs count) := by
    refine execute_leaves (fun left m' => m'.Clean ∧ m'.Careful env left) ?_
      fun left m₁ h₁ => Clean.step_careful h₁
    cases hresult : Machine.bindInputs env.registry inputs env.script.inputs
        (m.prepare env.script.localsCount) with
    | error f m₁ =>
        rw [hresult] at hbound
        exact hbound
    | ok u m₁ =>
        rw [hresult] at hbound
        refine ⟨hbound, fun k hk m₂ hrun => hcareful k hk m₂ ?_⟩
        simp only [firstSteps, execute, hresult, hrun]
  generalize m.firstSteps env inputs count = outcome at hall
  obtain ⟨_ | f | _, m₁⟩ := outcome
  · exact hall
  · exact hall
  · exact hall.1

theorem Counted.reset_warnings (hm : m.Counted) :
    ∀ w ∈ m.reset.warnings, w.code = .stackNotEmpty := by
  obtain ⟨v, hs, hw⟩ := hm
  intro w hmem
  have hcode := Array.mem_map_of_mem (f := Warning.code) hmem
  rw [reset_codes, hs.reset_warnings, hs.warnings] at hcode
  obtain ⟨w', hmem', hcode'⟩ := Array.mem_map.mp hcode
  exact hcode'.symm.trans (hw w' hmem')

-- Whatever code is run with its inputs in different variables, and whatever the host makes of what it
-- is told, handles are counted exactly as long as no instruction trusts a variable. Then no handle is
-- found out of use, and unless the stack ran empty all are given back in the end.
theorem owned_of_never_trusting (hm : m.Rested) (env : RunEnv) (inputs : List (String × Value))
    (fuel : Nat) (hslots : (env.script.inputs.map fun entry => entry.2.slot).Nodup)
    (hcareful : ∀ k < fuel, ∀ m', m.firstSteps env inputs k = (.outOfFuel, m') → ¬m'.Trusts env) :
    (∀ k ≤ fuel, ∀ outcome m', m.firstSteps env inputs k = (outcome, m') →
      (∀ f, outcome ≠ .failed f) → m'.Owned) ∧
    ∀ outcome m', m.runInOrder env fuel inputs = (outcome, m') →
      (∀ f, outcome = .failed f → f.code ≠ .invalidReference) ∧
      (outcome ≠ .failed .stackUnderflow → ∀ w ∈ m'.warnings, w.code ≠ .referenceNotRemoved) := by
  refine ⟨fun k hk outcome m₁ hsteps hended => ?_, fun outcome m₁ hrun => ?_⟩
  · have hleaves := hm.counted inputs k hslots fun j hj => hcareful j (by omega)
    rw [hsteps] at hleaves
    cases outcome with
    | outOfFuel =>
        obtain ⟨v, hs, -⟩ : m₁.Clean := hleaves
        exact hs.owned
    | finished =>
        obtain ⟨v, hs, -⟩ : m₁.Counted := hleaves
        exact hs.owned
    | failed f => exact absurd rfl (hended f)
  · have hleaves := hm.counted inputs fuel hslots hcareful
    obtain ⟨returned, heq⟩ := runInOrder_eq env fuel inputs m
    rw [heq] at hrun
    obtain ⟨rfl, rfl⟩ := Prod.mk.inj hrun
    generalize m.firstSteps env inputs fuel = result at hleaves
    obtain ⟨outcome, m₂⟩ := result
    have hreset : m₂.Counted → ∀ w ∈ m₂.reset.warnings, w.code ≠ .referenceNotRemoved := by
      intro hcounted w hw
      simp [hcounted.reset_warnings w hw]
    cases outcome with
    | outOfFuel => exact ⟨by simp, fun _ => hreset (Clean.counted hleaves)⟩
    | finished => exact ⟨by simp, fun _ => hreset hleaves⟩
    | failed f =>
        obtain ⟨hcode, hunder⟩ : FailsCounted f m₂ := hleaves
        refine ⟨by simpa using hcode, fun hne => hreset ?_⟩
        rcases hunder with rfl | hcounted
        · exact absurd rfl hne
        · exact hcounted

end

theorem not_trusts_of_code
    (h : ∀ pc < env.script.code.size, ∀ i next, env.script.fetch pc = .ok (i, next) →
      i.trusts = false) : ¬m.Trusts env := by
  rintro ⟨-, i, next, hfetch, htrusts⟩
  by_cases hpc : m.pc < env.script.code.size
  · rw [h m.pc hpc i next hfetch] at htrusts
    cases htrusts
  · simp [CompiledScript.fetch, Array.getElem?_eq_none (Nat.le_of_not_lt hpc)] at hfetch

-- Joins an input to a text of its own, by way of a variable, and returns the result.
def joining : CompiledScript where
  name := "joining"
  code := #[6, 0, 0, 10, 1, 8, 0, 8, 1, 12, 54]
  strings := #["!"]
  localsCount := 2
  maxStack := 2
  inputs := [("word", ⟨.string, 0⟩)]

theorem trusts_joining :
    ∀ pc < joining.code.size, ∀ i next, joining.fetch pc = .ok (i, next) → i.trusts = false := by
  have hall : ∀ pc < joining.code.size,
      (joining.fetch pc).toOption.all (fun read => read.1.trusts == false) = true := by decide
  intro pc hpc i next hfetch
  simpa [hfetch, Except.toOption] using hall pc hpc

theorem owned_joining :
    ((Machine.new {} {}).runInOrder ⟨{}, joining⟩ 6 [("word", .text "hi")]).2.returned.text? =
      some "hi!" ∧
    (∀ k ≤ 6, ∀ outcome m', (Machine.new {} {}).firstSteps ⟨{}, joining⟩ [("word", .text "hi")] k =
      (outcome, m') → (∀ f, outcome ≠ .failed f) → m'.Owned) ∧
    ∀ outcome m', (Machine.new {} {}).runInOrder ⟨{}, joining⟩ 6 [("word", .text "hi")] = (outcome, m') →
      (∀ f, outcome = .failed f → f.code ≠ .invalidReference) ∧
      (outcome ≠ .failed .stackUnderflow → ∀ w ∈ m'.warnings, w.code ≠ .referenceNotRemoved) :=
  ⟨by decide +kernel,
    owned_of_never_trusting (.new {} {}) ⟨{}, joining⟩ [("word", .text "hi")] 6 (by decide)
      fun _ _ _ _ => not_trusts_of_code trusts_joining⟩

end Machine

end HostScript
