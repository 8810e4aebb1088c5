import HostScript.Proofs.Compile.Output
import HostScript.Proofs.Machine.Balance
import HostScript.Proofs.Machine.Blind
import HostScript.Proofs.Machine.WellFormed

namespace HostScript

theorem References.Leads.capacity {t t' : References} (h : t.Leads t') : t'.capacity = t.capacity := by
  have hallocate : ∀ {u u' : References} {p : Payload} {k : Nat}, u.allocate p = .ok (k, u') →
      u'.capacity = u.capacity := by
    intro u u' p k ha
    unfold References.allocate at ha
    split at ha
    · cases ha
      rfl
    · split at ha
      · cases ha
        rfl
      · cases ha
  have haddRef : ∀ {u u' : References} {k : Nat}, u.addRef k = .ok u' →
      u'.capacity = u.capacity := by
    intro u u' k ha
    unfold References.addRef at ha
    split at ha
    · cases ha
      rfl
    · cases ha
  induction h with
  | refl => rfl
  | insertText _ hop ih => exact (hallocate hop).trans ih
  | addRef _ hop ih => exact (haddRef hop).trans ih
  | @acquire u u' o k _ hop ih =>
      unfold References.acquire at hop
      split at hop
      · obtain ⟨t₁, hadd, ht₁⟩ := except_bind_ok.mp hop
        cases ht₁
        exact (haddRef hadd).trans ih
      · obtain ⟨⟨k₁, t₁⟩, hal, ht₁⟩ := except_bind_ok.mp hop
        cases ht₁
        exact (hallocate hal).trans ih
  | release _ hop ih =>
      unfold References.release at hop
      split at hop
      · split at hop
        · cases hop
          exact ih
        · cases hop
          exact (References.capacity_vacate _).trans ih
      · cases hop

namespace Machine

-- What a host sees of a run.
structure Report where
  outcome : Outcome
  printed : Array String
  warnings : Array Warning
  hooks : Array Hook
  returned : Value
  world : World

def report [HostHooks] (env : RunEnv) (fuel : Nat) (inputs : List (String × Value)) (m : Machine) :
    Report :=
  let (outcome, m) := m.runInOrder env fuel inputs
  ⟨outcome, m.printed, m.warnings, m.refs.hooks, m.returned, m.world⟩

variable {env : RunEnv} {m m' : Machine} {limits : Limits}

-- Runs do not change how large a machine is.
structure SameSize (m m' : Machine) : Prop where
  stackCapacity : m'.stackCapacity = m.stackCapacity
  locals : m'.locals.size = m.locals.size
  references : m'.refs.capacity = m.refs.capacity

theorem SameSize.trans {m₁ m₂ : Machine} (h₁ : m.SameSize m₁) (h₂ : m₁.SameSize m₂) :
    m.SameSize m₂ where
  stackCapacity := h₂.stackCapacity.trans h₁.stackCapacity
  locals := h₂.locals.trans h₁.locals
  references := h₂.references.trans h₁.references

theorem sameSize_step [HostHooks] (env : RunEnv) (m : Machine) :
    Upholds (fun _ => m.SameSize) (fun _ => m.SameSize) (Work.step env m) := by
  refine Work.step_upholds (fun i pc _ _ => ?_) (fun _ _ _ => ⟨rfl, rfl, rfl⟩)
    (fun _ _ => ⟨rfl, rfl, rfl⟩) (fun _ _ _ _ _ _ => ⟨rfl, rfl, rfl⟩)
    fun _ _ _ _ _ => ⟨rfl, rfl, rfl⟩
  exact (Work.effect_moves env i { m with pc }).imp
    (fun _ _ h => ⟨h.stackCapacity, h.locals, h.refs.capacity⟩)
    fun _ _ h => ⟨h.stackCapacity, h.locals, h.refs.capacity⟩

theorem sameSize_firstSteps [HostHooks] (env : RunEnv) (inputs : List (String × Value))
    (count : Nat) (m : Machine) :
    (m.prepare env.script.localsCount).SameSize (m.firstSteps env inputs count).2 := by
  have hall : Leaves (m.prepare env.script.localsCount).SameSize
      (m.prepare env.script.localsCount).SameSize
      (fun _ => (m.prepare env.script.localsCount).SameSize) (m.firstSteps env inputs count) := by
    refine execute_leaves (fun _ => (m.prepare env.script.localsCount).SameSize) ?_
      fun left m₁ h₁ => ?_
    · exact (bindInputs_keeps _ _ _ _).imp
        (fun _ _ h => ⟨h.stackCapacity, h.locals, h.refs.capacity⟩)
        fun _ _ h => ⟨h.stackCapacity, h.locals, h.refs.capacity⟩
    · refine (sameSize_step env m₁).imp (fun _ _ h => h₁.trans h) fun flow m₂ h => ?_
      split <;> exact h₁.trans h
  generalize m.firstSteps env inputs count = result at hall
  obtain ⟨_ | f | _, m₁⟩ := result <;> exact hall

theorem sameSize_reset [HostHooks] (m : Machine) : m.SameSize m.reset := by
  have hleads := (foldl_letGo_leads (m.stack.reverse ++ m.locals.toList)
    { m with stack := [], locals := m.locals.map fun _ => .null }).capacity
  obtain ⟨refs, told, h⟩ := foldl_letGo_eq (m.stack.reverse ++ m.locals.toList)
    { m with stack := [], locals := m.locals.map fun _ => .null }
  refine ⟨?_, by simp [locals_reset], hleads⟩
  simp only [reset, h]

-- A machine of these limits that is ready for the next run: it holds nothing, and may have more
-- variables than it was made with.
structure Vacant (limits : Limits) (m : Machine) : Prop where
  stackCapacity : m.stackCapacity = limits.stack
  locals : limits.locals ≤ m.locals.size
  refs : m.refs.forgetHooks = References.ofCapacity limits.references

theorem vacant_new (limits : Limits) (world : World) : (Machine.new limits world).Vacant limits :=
  ⟨rfl, by simp [Machine.new], rfl⟩

theorem Vacant.run [HostHooks] (h : m.Vacant limits) (env : RunEnv) (fuel : Nat)
    (inputs : List (String × Value)) : (m.run env fuel inputs).2.Vacant limits := by
  obtain ⟨entries, returned, runs, -, hrun⟩ := run_eq env fuel inputs m
  have hsize := (sameSize_firstSteps env entries fuel m).trans (sameSize_reset _)
  have hcapacity : m.refs.capacity = limits.references := congrArg References.capacity h.refs
  rw [hrun]
  refine ⟨hsize.stackCapacity.trans h.stackCapacity, ?_, ?_⟩
  · have hlocals : (m.firstSteps env entries fuel).2.reset.locals.size =
        max m.locals.size env.script.localsCount := by simpa [prepare] using hsize.locals
    have := h.locals
    simp only [hlocals]
    omega
  · have hempty : (m.firstSteps env entries fuel).2.reset.refs.forgetHooks =
        References.ofCapacity (m.firstSteps env entries fuel).2.reset.refs.capacity := rfl
    exact hempty.trans (congrArg References.ofCapacity (hsize.references.trans hcapacity))

-- More variables, all of them empty.
def wider (n : Nat) : Relocation where
  locals := fun locals => locals ++ Array.replicate n .null
  loops := id
  pc := id

def widen (n : Nat) (m : Machine) : Machine :=
  m.relocate (wider n)

theorem widen_locals (n : Nat) (m : Machine) :
    (m.widen n).locals = m.locals ++ Array.replicate n .null := rfl

-- A machine that was used is a new one with more variables, once it is ready for a script.
theorem Vacant.prepare (h : m.Vacant limits) (localsCount : Nat) :
    ∃ n, m.prepare localsCount = ((Machine.new limits m.world).prepare localsCount).widen n := by
  refine ⟨max m.locals.size localsCount - max limits.locals localsCount, ?_⟩
  have hlocals := h.locals
  have hsize : max m.locals.size localsCount = max limits.locals localsCount +
      (max m.locals.size localsCount - max limits.locals localsCount) := by omega
  have hrefs : m.refs.forgetHooks = (Machine.new limits m.world).refs.forgetHooks := h.refs
  simp only [Machine.prepare, widen, wider, relocate, hrefs, h.stackCapacity, id]
  simp only [Machine.new, Array.size_replicate, Array.replicate_append_replicate, ← hsize]

end Machine

namespace Work

open Machine (wider widen)

variable {m : Machine} {n : Nat}

theorem loadLocal_ok {slot : Nat} {c : Cell} {m' : Machine} (h : loadLocal slot m = .ok c m') :
    m' = m := by
  unfold loadLocal at h
  split at h <;> cases h
  rfl

theorem locals_of_pop {c : Cell} {m' : Machine} (h : pop m = .ok c m') : m'.locals = m.locals := by
  unfold pop at h
  split at h <;> cases h
  rfl

theorem loadLocal_wider {slot : Nat} (hslot : slot < m.locals.size) :
    Overlooks (widen n) (loadLocal slot) m := by
  have hget : (m.widen n).locals[slot]? = m.locals[slot]? := by
    rw [Machine.widen_locals, Array.getElem?_append_left hslot]
  simp only [Overlooks, loadLocal, hget]
  cases m.locals[slot]? <;> rfl

theorem storeLocal_wider {slot : Nat} (c : Cell) (hslot : slot < m.locals.size) :
    Overlooks (widen n) (storeLocal slot c) m := by
  refine (loadLocal_wider hslot).bind fun old m₁ h₁ => ?_
  obtain rfl := loadLocal_ok h₁
  have hset : (m₁.locals ++ Array.replicate n Cell.null).setIfInBounds slot c =
      m₁.locals.setIfInBounds slot c ++ Array.replicate n .null :=
    Array.setIfInBounds_append_left hslot
  simp only [Overlooks, modify, modifyGet, MonadStateOf.modifyGet, EStateM.modifyGet, bind,
    EStateM.bind, widen, Machine.relocate, wider, hset]
  rfl

theorem jump_wider (env : RunEnv) (target : Int32) : Overlooks (widen n) (jump env target) m := by
  simp only [Overlooks, jump, jumpTarget]
  split <;> rfl

theorem jumpIf_wider [HostHooks] (env : RunEnv) (on : Bool) (target : Int32) :
    Overlooks (widen n) (jumpIf env on target) m := by
  unfold jumpIf jumpTarget
  split
  · refine (Blind.calculates.pop (wider n) m).bind fun c m₁ _ => ?_
    cases c with
    | bool b =>
        dsimp only
        split <;> rfl
    | _ => exact Blind.reads.refuse _ rfl (wider n) m₁
  · rfl

theorem enterLoop_wider (env : RunEnv) (count : Nat) (length : Int32) :
    Overlooks (widen n) (enterLoop env count length) m := by
  simp only [Overlooks, enterLoop, bind, EStateM.bind, get, getThe, MonadStateOf.get, EStateM.get]
  have hpc : (m.widen n).pc = m.pc := rfl
  simp only [hpc]
  split
  · rfl
  · split <;> rfl

variable [HostHooks]

-- Instructions that name variables of their own script do not see that there are more.
theorem effect_wider (env : RunEnv) (i : Instr) (hvalid : i.Valid env m.locals.size m.pc) :
    Overlooks (widen n) (effect env i) m := by
  cases hi : i.isLocated with
  | false => exact effect_blind env hi (wider n) m
  | true =>
      cases i with
      | loadLoc slot =>
          refine (loadLocal_wider hvalid).bind fun c m₁ _ => ?_
          cases c with
          | text h => exact ((Blind.onRefs _).bind fun _ => .push _) (wider n) m₁
          | object h => exact ((Blind.onRefs _).bind fun _ => .push _) (wider n) m₁
          | _ => exact Blind.push _ (wider n) m₁
      | loadLocNoRef slot =>
          exact (loadLocal_wider hvalid).bind fun c m₁ _ => Blind.push c (wider n) m₁
      | setLoc slot =>
          refine (loadLocal_wider hvalid).bind fun _ m₁ h₁ => ?_
          obtain rfl := loadLocal_ok h₁
          refine (Blind.calculates.pop (wider n) m₁).bind fun c m₂ h₂ => ?_
          refine (storeLocal_wider c (by rw [locals_of_pop h₂]; exact hvalid)).bind fun old m₃ _ => ?_
          exact Blind.release old (wider n) m₃
      | setLocNoRef slot =>
          refine (loadLocal_wider hvalid).bind fun _ m₁ h₁ => ?_
          obtain rfl := loadLocal_ok h₁
          refine (Blind.calculates.pop (wider n) m₁).bind fun c m₂ h₂ => ?_
          exact (storeLocal_wider c (by rw [locals_of_pop h₂]; exact hvalid)).bind fun _ _ _ => rfl
      | jump target => exact jump_wider env target
      | jumpIf on target => exact jumpIf_wider env on target
      | loop count length => exact enterLoop_wider env _ length
      | loopNum length =>
          refine (Blind.calculates.pop (wider n) m).bind fun c m₁ _ => ?_
          cases c with
          | number x => exact enterLoop_wider env _ length
          | _ => exact Blind.reads.refuse _ rfl (wider n) m₁
      | _ => cases hi

theorem step_wider {env : RunEnv} (hwell : env.script.WellFormed env.registry)
    (hm : m.Aligned env) : Overlooks (widen n) (step env) m := by
  have hend : rangeEnd env (m.widen n) = rangeEnd env m := rfl
  have hpc : (m.widen n).pc = m.pc := rfl
  have hloops : (m.widen n).loops = m.loops := rfl
  simp only [Overlooks, step, bind, EStateM.bind, get, getThe, MonadStateOf.get, EStateM.get, hend, hpc,
    hloops]
  split
  · cases hfetch : env.script.fetch m.pc with
    | error f => rfl
    | ok next =>
        have hvalid := (hwell.valid m.pc next.1 next.2 hm.pc hfetch).mono hm.locals
        exact (effect_wider (m := { m with pc := next.2 }) env next.1 hvalid).bind fun _ _ _ => rfl
  · cases m.loops with
    | nil => rfl
    | cons frame outer =>
        obtain ⟨start, stop, left⟩ := frame
        cases left <;> rfl

end Work

namespace Machine

section

variable [HostHooks] {env : RunEnv} {m : Machine} {n : Nat}

theorem runSteps_widen (hwell : env.script.WellFormed env.registry) (fuel : Nat)
    (hm : m.Aligned env) : runSteps env fuel (m.widen n) =
      ((runSteps env fuel m).1, (runSteps env fuel m).2.widen n) := by
  induction fuel generalizing m with
  | zero => rfl
  | succ fuel ih =>
      have hstep : Work.step env (m.widen n) = Work.onMachine (widen n) (Work.step env m) :=
        Work.step_wider hwell hm
      have hnext := hm.step hwell
      simp only [runSteps, hstep]
      cases hresult : Work.step env m with
      | error f m₁ => rfl
      | ok flow m₁ =>
          rw [hresult] at hnext
          cases flow with
          | stop => rfl
          | next => exact ih hnext

theorem bindInput_widen (r : Registry) (name : String) {slot : InputSlot} (v : Value)
    (hslot : slot.slot < m.locals.size) :
    Work.Overlooks (widen n) (bindInput r name slot v) m := by
  unfold bindInput
  split
  · refine (Work.loadLocal_wider hslot).bind fun _ m₁ h₁ => ?_
    obtain rfl := Work.loadLocal_ok h₁
    refine (Work.Blind.ofValue v (wider n) m₁).bind fun c m₂ h₂ => ?_
    have hstill := Work.Calm.ofValue v m₁
    rw [h₂] at hstill
    exact (Work.storeLocal_wider c (by rw [hstill.locals]; exact hslot)).bind fun _ _ _ => rfl
  · rfl

theorem bindInputs_widen (r : Registry) (inputs : List (String × Value))
    (table : List (String × InputSlot)) (hslots : ∀ entry ∈ table, entry.2.slot < m.locals.size) :
    Work.Overlooks (widen n) (bindInputs r inputs table) m := by
  induction table generalizing m with
  | nil => rfl
  | cons entry rest ih =>
      refine (bindInput_widen r entry.1 _ (hslots entry List.mem_cons_self)).bind fun _ m₁ h₁ => ?_
      refine ih fun e he => ?_
      have hkeeps : Upholds (m.Stops 0 0 True True) (fun _ m₂ => m.Lowered 0 m₂)
          (bindInput r entry.1 entry.2 (suppliedValue inputs entry.1) m) :=
        (Lowered.refl m).bindInput r entry.1 _ fun _ => hslots entry List.mem_cons_self
      rw [h₁] at hkeeps
      rw [hkeeps.locals]
      exact hslots e (List.mem_cons_of_mem _ he)

theorem foldl_letGo_null (k : Nat) (m : Machine) : (List.replicate k .null).foldl letGo m = m := by
  induction k with
  | zero => rfl
  | succ k ih => exact ih

-- Empty variables have nothing to give back.
theorem reset_widen (m : Machine) : (m.widen n).reset = m.reset.widen n := by
  let cleared : Machine := { m with stack := [], locals := m.locals.map fun _ => .null }
  have hcleared : { m.widen n with stack := [], locals := (m.widen n).locals.map fun _ => .null } =
      cleared.widen n := by
    simp [cleared, widen, wider, relocate]
  have hheld : (m.widen n).stack.reverse ++ (m.widen n).locals.toList =
      (m.stack.reverse ++ m.locals.toList) ++ List.replicate n .null := by
    simp [widen, wider, relocate]
  have hunseen : Unseen (widen n) := unseen_relocate (wider n)
  simp only [reset, hheld, hcleared, List.foldl_append, foldl_letGo_null,
    hunseen.foldl_letGo]
  rfl

theorem execute_widen (hwell : env.script.WellFormed env.registry) (fuel : Nat)
    (inputs : List (String × Value)) (m : Machine) :
    execute env fuel inputs ((m.prepare env.script.localsCount).widen n) =
      ((m.firstSteps env inputs fuel).1, (m.firstSteps env inputs fuel).2.widen n) := by
  have hlocals : env.script.localsCount ≤ (m.prepare env.script.localsCount).locals.size := by
    simp [prepare]
  have hbind : Work.Overlooks (widen n) _ _ := bindInputs_widen env.registry inputs env.script.inputs
    fun entry he => Nat.lt_of_lt_of_le (hwell.inputs entry he) hlocals
  have hstart := firstSteps_aligned hwell m inputs 0
  simp only [Work.Overlooks] at hbind
  simp only [firstSteps, execute, hbind] at hstart ⊢
  cases hresult : bindInputs env.registry inputs env.script.inputs
      (m.prepare env.script.localsCount) with
  | error f m₁ => rfl
  | ok u m₁ =>
      rw [hresult] at hstart
      exact runSteps_widen hwell fuel hstart

-- Nothing that well-formed code shows depends on what the machine was used for.
theorem Vacant.report_eq (h : m.Vacant limits) (env : RunEnv)
    (hwell : env.script.WellFormed env.registry) (fuel : Nat) (inputs : List (String × Value)) :
    m.report env fuel inputs = (Machine.new limits m.world).report env fuel inputs := by
  obtain ⟨n, hn⟩ := h.prepare env.script.localsCount
  have hexecute := execute_widen (n := n) hwell fuel inputs (Machine.new limits m.world)
  simp only [report, Machine.runInOrder, hn, hexecute, reset_widen]
  simp only [firstSteps]
  cases (execute env fuel inputs ((Machine.new limits m.world).prepare env.script.localsCount)).1 <;> rfl

-- An earlier run, in whatever state the host was.
structure Earlier where
  script : CompiledScript
  inputs : List (String × Value)
  world : World
  fuel : Nat

-- A machine that was new and has run these scripts since.
def used (r : Registry) (limits : Limits) (history : List Earlier) : Machine :=
  history.foldl (fun m e => ({ m with world := e.world }.run ⟨r, e.script⟩ e.fuel e.inputs).2)
    (Machine.new limits .empty)

theorem vacant_used (r : Registry) (limits : Limits) (history : List Earlier) :
    (used r limits history).Vacant limits := by
  have hall : ∀ (rest : List Earlier) (m : Machine), m.Vacant limits →
      (rest.foldl (fun m e => ({ m with world := e.world }.run ⟨r, e.script⟩ e.fuel e.inputs).2)
        m).Vacant limits := by
    intro rest
    induction rest with
    | nil => exact fun m h => h
    | cons e rest ih =>
        intro m h
        have hworld : { m with world := e.world }.Vacant limits := ⟨h.stackCapacity, h.locals, h.refs⟩
        exact ih _ (hworld.run _ _ _)
  exact hall history _ (vacant_new limits .empty)

-- A compiled script cannot tell a machine on which any scripts were run before, however they ended,
-- from a new one: it ends the same way, prints, warns and tells its host the same, down to the
-- numbers of handles, and returns the same value.
theorem report_used {r : Registry} (hr : r.Built) {options : CompileOptions} {source : String}
    {s : CompiledScript} (hcompile : CompiledScript.compile r options source = .ok s)
    (limits : Limits) (history : List Earlier) (world : World) (fuel : Nat)
    (inputs : List (String × Value)) :
    { used r limits history with world }.report ⟨r, s⟩ fuel inputs =
      (Machine.new limits world).report ⟨r, s⟩ fuel inputs := by
  have hwell : s.WellFormed r := CompiledScript.wellFormed hr hcompile
  have hvacant := vacant_used r limits history
  have hworld : { used r limits history with world }.Vacant limits :=
    ⟨hvacant.stackCapacity, hvacant.locals, hvacant.refs⟩
  exact hworld.report_eq ⟨r, s⟩ hwell fuel inputs

end

-- Hides a text in a variable beyond the usual ones, leaves another one on the stack and stops at
-- something that is no instruction.
def spoiling : CompiledScript where
  name := "spoiling"
  code := #[6, 0, 0, 11, 90, 6, 0, 0, 255]
  strings := #["lost"]
  localsCount := 100
  maxStack := 1
  inputs := []

theorem report_used_spoiling : ∃ s, CompiledScript.compile .empty {} adding = .ok s ∧
    (used .empty {} [⟨spoiling, [], .empty, 9⟩]).locals.size = 100 ∧
    ∀ fuel, { used .empty {} [⟨spoiling, [], .empty, 9⟩] with world := .empty }.report
      ⟨.empty, s⟩ fuel [] = (Machine.new {} .empty).report ⟨.empty, s⟩ fuel [] := by
  have hcompiles : (CompiledScript.compile .empty {} adding).isOk = true := by decide +kernel
  cases hcompile : CompiledScript.compile .empty {} adding with
  | error d =>
      rw [hcompile] at hcompiles
      cases hcompiles
  | ok s =>
      exact ⟨s, rfl, by decide +kernel, fun fuel =>
        report_used .empty hcompile {} [⟨spoiling, [], .empty, 9⟩] .empty fuel []⟩

end Machine

end HostScript
