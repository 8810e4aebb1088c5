import HostScript.Proofs.Machine.View
import HostScript.Proofs.Semantics.Outcomes

namespace HostScript.Plain

-- Work that reports nothing. Where places show their values, nothing can be wrong with a handle.
def Quiet {α : Type} (x : Plain α) : Prop :=
  Relates (fun v v' : View => v'.warnings = v.warnings) (fun f : Fault => f.code ≠ .invalidReference) x

namespace Quiet

variable {α β : Type}

theorem pure (a : α) : Quiet (Pure.pure a : Plain α) :=
  Relates.pure (R := fun v v' : View => v'.warnings = v.warnings) (fun _ => rfl) a

theorem throw {f : Fault} (hf : f.code ≠ .invalidReference) :
    Quiet (MonadExcept.throw f : Plain α) :=
  fun _ => .throw ⟨rfl, hf⟩

theorem bind {x : Plain α} {f : α → Plain β} (hx : Quiet x) (hf : ∀ a, Quiet (f a)) :
    Quiet (x >>= f) :=
  Relates.bind (fun h₁ h₂ => h₂.trans h₁) hx hf

theorem code_of_usual {f : Fault} {strict : Bool} (h : f.usual strict = true) :
    f.code ≠ .invalidReference := by
  cases f <;> simp_all [Fault.usual, Fault.code]

theorem ofCalc {c : Calc α} {P : α → Prop} (hc : c.Gives false P) : Quiet (Plain.ofCalc c) := by
  intro v
  have h := hc v.outside
  simp only [Plain.ofCalc]
  cases hresult : c v.outside with
  | ok a o => rfl
  | error f o =>
      rw [hresult] at h
      exact ⟨rfl, code_of_usual h⟩

theorem push (x : Value) : Quiet (Plain.push x) := fun _ => rfl

theorem pop : Quiet Plain.pop := by
  intro v
  unfold Plain.pop
  cases v.stack with
  | nil => exact ⟨rfl, nofun⟩
  | cons x stack => rfl

theorem popMany (count : Nat) : Quiet (Plain.popMany count) := by
  intro v
  unfold Plain.popMany
  split
  · rfl
  · exact ⟨rfl, nofun⟩

theorem peek (depth : Nat) : Quiet (Plain.peek depth) := by
  intro v
  unfold Plain.peek
  cases v.stack[depth]? with
  | none => exact ⟨rfl, nofun⟩
  | some x => rfl

theorem loadLocal (slot : Nat) : Quiet (Plain.loadLocal slot) := by
  intro v
  unfold Plain.loadLocal
  cases v.locals[slot]? with
  | none => exact ⟨rfl, nofun⟩
  | some x => rfl

theorem storeLocal (slot : Nat) (x : Value) : Quiet (Plain.storeLocal slot x) := fun _ => rfl

theorem jumpTo (pc : Nat) : Quiet (Plain.jumpTo pc) := fun _ => rfl

theorem poolString (env : RunEnv) (index : UInt16) : Quiet (Plain.poolString env index) := by
  unfold Plain.poolString
  split
  · exact pure _
  · exact throw nofun

theorem jumpTarget (env : RunEnv) (target : Int32) : Quiet (Plain.jumpTarget env target) := by
  unfold Plain.jumpTarget
  split
  · exact pure _
  · exact throw nofun

theorem apply {f : Value → Calc Value} {P : Value → Prop} (hf : ∀ a, (f a).Gives false P) :
    Quiet (Plain.apply f) :=
  pop.bind fun a => (ofCalc (hf a)).bind push

theorem apply₂ {f : Value → Value → Calc Value} {P : Value → Prop}
    (hf : ∀ a b, (f a b).Gives false P) : Quiet (Plain.apply₂ f) :=
  pop.bind fun b => pop.bind fun a => (ofCalc (hf a b)).bind push

theorem checkAt (r : Registry) (expected : Ty) (depth : Nat) :
    Quiet (Plain.checkAt r expected depth) :=
  (peek depth).bind fun x => ofCalc (Calc.require_gives r expected x)

theorem enterLoop (env : RunEnv) (count : Nat) (length : Int32) :
    Quiet (Plain.enterLoop env count length) := by
  intro v
  unfold Plain.enterLoop
  simp only [Bind.bind, EStateM.bind, get, getThe, MonadStateOf.get, EStateM.get]
  split
  · exact ⟨rfl, nofun⟩
  · split <;> rfl

-- Only the end of a script may report that values were left on the stack.
theorem effect (env : RunEnv) {i : Instr} (hflow : i.flow = .next) : Quiet (Plain.effect env i) := by
  cases i with
  | nop => exact pure ()
  | pushNull => exact push _
  | pushBool b => exact push _
  | pushLong n => exact push _
  | pushDouble x => exact push _
  | pushString index => exact (poolString env index).bind fun s => push _
  | pop => exact pop.bind fun _ => pure ()
  | loadLoc slot => exact (loadLocal slot.toNat).bind push
  | loadLocNoRef slot => exact (loadLocal slot.toNat).bind push
  | setLoc slot => exact (loadLocal slot.toNat).bind fun _ => pop.bind (storeLocal slot.toNat)
  | setLocNoRef slot => exact (loadLocal slot.toNat).bind fun _ => pop.bind (storeLocal slot.toNat)
  | arith op => exact apply₂ (Calc.arith_gives op)
  | arithNum op => exact apply₂ (Calc.onNumbers_gives _)
  | order op => exact apply₂ (Calc.order_gives op)
  | orderNum op => exact apply₂ (Calc.onNumbers_gives _)
  | equals negated => exact apply₂ (Calc.equal_gives negated)
  | equalsNum negated => exact apply₂ (Calc.onNumbers_gives _)
  | neg => exact apply Calc.neg_gives
  | negNum => exact apply Calc.negNum_gives
  | not => exact apply Calc.not_gives
  | jump target => exact (jumpTarget env target).bind jumpTo
  | jumpIf on target =>
      refine (jumpTarget env target).bind fun t => pop.bind fun x =>
        (ofCalc (Calc.asBool_gives x)).bind fun b => ?_
      split
      · exact jumpTo t
      · exact pure ()
  | invoke id =>
      exact (ofCalc (Calc.methodAt_gives _ id)).bind fun d => (popMany _).bind fun args =>
        pop.bind fun target => (ofCalc (Calc.callMethod_gives _ d target args)).bind push
  | invokeStatic id =>
      exact (ofCalc (Calc.methodAt_gives _ id)).bind fun d => (popMany _).bind fun args =>
        (ofCalc (Calc.callStatic_gives _ d args)).bind push
  | invokeDynamic name argc =>
      exact (poolString env name).bind fun name => (popMany _).bind fun args =>
        pop.bind fun target =>
          (ofCalc (Calc.named_gives _ name (Calc.callNamed_gives _ name target args))).bind push
  | getProperty id =>
      exact (ofCalc (Calc.propertyAt_gives _ id)).bind fun d =>
        (ofCalc (Calc.getterOf_gives d)).bind fun get => apply (Calc.readProperty_gives _ d get)
  | setProperty id =>
      exact (ofCalc (Calc.propertyAt_gives _ id)).bind fun d =>
        (ofCalc (Calc.setterOf_gives d)).bind fun set => pop.bind fun x =>
          pop.bind fun target => ofCalc (Calc.writeProperty_gives d set target x)
  | getStaticProperty id =>
      exact (ofCalc (Calc.propertyAt_gives _ id)).bind fun d =>
        (ofCalc (Calc.getterOf_gives d)).bind fun get =>
          (ofCalc (Calc.readStatic_gives _ d get)).bind push
  | setStaticProperty id =>
      exact (ofCalc (Calc.propertyAt_gives _ id)).bind fun d =>
        (ofCalc (Calc.setterOf_gives d)).bind fun set => pop.bind fun x =>
          ofCalc (Calc.writeStatic_gives set x)
  | getDynamicProperty name =>
      exact (poolString env name).bind fun name =>
        apply fun target => Calc.named_gives _ name (Calc.readNamed_gives _ name target)
  | setDynamicProperty name =>
      exact (poolString env name).bind fun name => pop.bind fun x => pop.bind fun target =>
        ofCalc (Calc.writeNamed_gives _ name target x)
  | new id =>
      exact (ofCalc (Calc.constructorAt_gives _ id)).bind fun d => (popMany _).bind fun args =>
        (ofCalc (Calc.construct_gives d args)).bind push
  | checkType ty => exact checkAt _ _ _
  | peekCheckType ty depth => exact checkAt _ _ _
  | loop count length => exact enterLoop _ _ _
  | loopNum length =>
      exact pop.bind fun x => (ofCalc (Calc.asCount_gives x)).bind fun n => enterLoop _ _ _
  | ret => cases hflow
  | exit => cases hflow

end Quiet

variable {env : RunEnv} {v v' : View}

theorem warnings_of_next (h : step env v = .ok .next v') : v'.warnings = v.warnings := by
  unfold step at h
  split at h
  · split at h
    · rename_i i pc hfetch
      have hflow : i.flow = .next ∧ effect env i { v with pc } = .ok () v' := by
        simp only [EStateM.map] at h
        split at h
        · rename_i hresult
          injection h with hflow hview
          rw [← hview]
          exact ⟨hflow, hresult⟩
        · cases h
      have hquiet := Quiet.effect env hflow.1 { v with pc }
      rw [hflow.2] at hquiet
      exact hquiet
    · cases h
  · split at h
    · cases h
    · split at h <;> cases h <;> rfl

-- Code that cannot be read is reported as such.
theorem code_of_fetch {s : CompiledScript} {pc : Nat} {f : Fault} (h : s.fetch pc = .error f) :
    f.code = .invalidBytecode := by
  have hoperand : ∀ op pos, (s.operandFault op pos).code = .invalidBytecode := by
    intro op pos
    unfold CompiledScript.operandFault
    repeat' split
    all_goals rfl
  unfold CompiledScript.fetch at h
  split at h
  · cases h
    rfl
  · split at h
    · cases h
      rfl
    · split at h
      · cases h
      · cases h
        exact hoperand _ _

-- A fault adds no report.
theorem step_error {f : Fault} (h : step env v = .error f v') :
    v'.warnings = v.warnings ∧ f.code ≠ .invalidReference := by
  unfold step at h
  split at h
  · split at h
    · rename_i i pc hfetch
      have herror : effect env i { v with pc } = .error f v' := by
        simp only [EStateM.map] at h
        split at h
        · cases h
        · rename_i hresult
          cases h
          exact hresult
      have hquiet : i.flow = .next → v'.warnings = v.warnings ∧ f.code ≠ .invalidReference := by
        intro hflow
        have h := Quiet.effect env hflow { v with pc }
        rw [herror] at h
        exact h
      cases i with
      | ret =>
          -- Only an empty stack can keep a script from returning.
          simp only [effect, ret, bind, EStateM.bind, pop] at herror
          cases hstack : v.stack with
          | nil =>
              rw [hstack] at herror
              cases herror
              exact ⟨rfl, nofun⟩
          | cons x stack =>
              rw [hstack] at herror
              cases stack <;> cases herror
      | exit =>
          simp only [effect, unwind] at herror
          split at herror <;> cases herror
      | _ => exact hquiet rfl
    · rename_i hfetch
      cases h
      exact ⟨rfl, by simp [code_of_fetch hfetch]⟩
  · split at h
    · cases h
    · split at h <;> cases h

theorem warnings_of_error {f : Fault} (h : step env v = .error f v') : v'.warnings = v.warnings :=
  (step_error h).1

theorem unwind_ok {v₁ : View} (h : unwind v = .ok () v₁) :
    ∀ w ∈ v₁.warnings, w ∈ v.warnings ∨ w.code = .stackNotEmpty := by
  intro w hw
  unfold unwind at h
  split at h
  · cases h
    exact .inl hw
  · cases h
    rcases Array.mem_push.mp hw with hw | rfl
    · exact .inl hw
    · exact .inr rfl

-- A script that stops reports at most what it left on the stack.
theorem warnings_of_stop (h : step env v = .ok .stop v') :
    ∀ w ∈ v'.warnings, w ∈ v.warnings ∨ w.code = .stackNotEmpty := by
  unfold step at h
  split at h
  · split at h
    · rename_i i pc hfetch
      have hflow : i.flow = .stop ∧ effect env i { v with pc } = .ok () v' := by
        simp only [EStateM.map] at h
        split at h
        · rename_i hresult
          injection h with hflow hview
          rw [← hview]
          exact ⟨hflow, hresult⟩
        · cases h
      cases i with
      | ret =>
          have hret := hflow.2
          simp only [effect, ret, bind, EStateM.bind, pop] at hret
          cases hstack : v.stack with
          | nil =>
              rw [hstack] at hret
              cases hret
          | cons x stack =>
              rw [hstack] at hret
              have hadded := unwind_ok (v := { v with pc, stack, returned := x }) hret
              exact hadded
      | exit =>
          have hadded := unwind_ok (v := { v with pc }) hflow.2
          exact hadded
      | _ => cases hflow.1
    · cases h
  · split at h
    · cases h
      exact fun w hw => .inl hw
    · split at h <;> cases h

end HostScript.Plain
