import HostScript.Proofs.Machine.Shape

namespace HostScript

namespace Machine

section

variable {m m₁ : Machine} {n needs after : Nat} {valid quiet : Prop}

theorem Lowered.poolString (h : m.Lowered n m₁) {env : RunEnv} {index : UInt16}
    (hvalid : valid → index.toNat < env.script.strings.size) :
    Upholds (m.Stops needs after valid quiet) (fun _ m₂ => m.Lowered n m₂)
      (Work.poolString env index m₁) := by
  unfold Work.poolString
  cases hs : env.script.strings[index.toNat]? with
  | some s => exact h
  | none => exact h.invalid rfl fun hv => absurd (hvalid hv) (by simpa using hs)

theorem Lowered.methodAt (h : m.Lowered n m₁) {r : Registry} {id : Int32}
    (hvalid : valid → id.toUInt32.toNat < r.methods.size) :
    Upholds (m.Stops needs after valid quiet)
      (fun d m₂ => m.Lowered n m₂ ∧ d.params.length = r.methodArity id) (Work.methodAt r id m₁) := by
  unfold Work.methodAt
  cases hd : r.methods[id.toUInt32.toNat]? with
  | some d => exact ⟨h, by simp [Registry.methodArity, hd]⟩
  | none => exact h.invalid rfl fun hv => absurd (hvalid hv) (by simpa using hd)

theorem Lowered.propertyAt (h : m.Lowered n m₁) {r : Registry} {id : Int32}
    (hvalid : valid → id.toUInt32.toNat < r.properties.size) :
    Upholds (m.Stops needs after valid quiet) (fun _ m₂ => m.Lowered n m₂)
      (Work.propertyAt r id m₁) := by
  unfold Work.propertyAt
  cases hd : r.properties[id.toUInt32.toNat]? with
  | some d => exact h
  | none => exact h.invalid rfl fun hv => absurd (hvalid hv) (by simpa using hd)

theorem Lowered.constructorAt (h : m.Lowered n m₁) {r : Registry} {id : Int32}
    (hvalid : valid → id.toUInt32.toNat < r.constructors.size) :
    Upholds (m.Stops needs after valid quiet)
      (fun d m₂ => m.Lowered n m₂ ∧ d.params.length = r.constructorArity id)
      (Work.constructorAt r id m₁) := by
  unfold Work.constructorAt
  cases hd : r.constructors[id.toUInt32.toNat]? with
  | some d => exact ⟨h, by simp [Registry.constructorArity, hd]⟩
  | none => exact h.invalid rfl fun hv => absurd (hvalid hv) (by simpa using hd)

theorem Lowered.loadLocal (h : m.Lowered n m₁) {slot : Nat}
    (hvalid : valid → slot < m.locals.size) :
    Upholds (m.Stops needs after valid quiet) (fun _ m₂ => m.Lowered n m₂)
      (Work.loadLocal slot m₁) := by
  unfold Work.loadLocal
  split
  · exact h
  · rename_i hnone
    refine h.invalid rfl fun hv => ?_
    rw [Array.getElem?_eq_none_iff, h.locals] at hnone
    exact absurd (hvalid hv) (Nat.not_lt.mpr hnone)

theorem Lowered.storeLocal (h : m.Lowered n m₁) {slot : Nat} (c : Cell)
    (hvalid : valid → slot < m.locals.size) :
    Upholds (m.Stops needs after valid quiet) (fun _ m₂ => m.Lowered n m₂)
      (Work.storeLocal slot c m₁) := by
  refine (h.loadLocal hvalid).bind fun old m₂ h₂ => ?_
  exact { h₂ with locals := by simp [h₂.locals] }

theorem Lowered.jumpTarget (h : m.Lowered n m₁) {env : RunEnv} {target : Int32}
    (hvalid : valid → 0 ≤ target.toInt ∧ target.toInt ≤ env.script.code.size) :
    Upholds (m.Stops needs after valid quiet)
      (fun pc m₂ => m.Lowered n m₂ ∧ pc = target.toInt.toNat)
      (Work.jumpTarget env target m₁) := by
  unfold Work.jumpTarget
  split
  · exact ⟨h, rfl⟩
  · rename_i hout
    exact h.invalid rfl fun hv => hout (hvalid hv)

theorem Lowered.peek (h : m.Lowered n m₁) {depth : Nat} (hneeds : n + depth < needs) :
    Upholds (m.Stops needs after valid quiet) (fun _ m₂ => m.Lowered n m₂)
      (Work.peek depth m₁) := by
  unfold Work.peek
  split
  · exact h
  · rename_i hnone
    have hheight := h.height
    rw [List.getElem?_eq_none_iff] at hnone
    exact h.underflow (by omega)

variable [HostHooks]

-- Clears the stack, with a report unless it was empty.
theorem Lowered.unwind (h : m.Lowered n m₁) (hquiet : quiet → m.stack.length ≤ n) :
    Upholds (m.Stops needs after valid quiet) (fun _ m' => m.Shifts 0 quiet m')
      (Work.unwind m₁) := by
  have hheight := h.height
  simp only [Work.unwind, bind, EStateM.bind, get, getThe, MonadStateOf.get, EStateM.get]
  cases hstack : m₁.stack with
  | nil => exact h.shifts (by rw [hstack] at hheight; simp at hheight; omega)
  | cons c cells =>
      rw [hstack, List.length_cons] at hheight
      have hcleared := Work.Calm.reads.releaseAll (c :: cells).reverse
        { m₁ with stack := [], warnings := m₁.warnings.push (.stackNotEmpty (c :: cells).length) }
      refine hcleared.imp (fun f m₂ hs => ?_) fun _ m₂ hs => ?_
      · obtain ⟨hs, hf⟩ := hs
        exact
          { refs := h.refs.trans hs.refs
            height := by simp [hs.stack]
            locals := by rw [hs.locals]; exact h.locals
            stackCapacity := hs.stackCapacity.trans h.stackCapacity
            warnings := fun hq => absurd (hquiet hq) (by omega)
            structural := fun hstructural => by
              cases f <;> simp_all [Fault.incidental, Fault.structural]
            underflow := fun hu => by subst hu; cases hf
            overflow := fun k ho => by subst ho; cases hf }
      · exact
          { refs := h.refs.trans hs.refs
            height := by simp [hs.stack]
            locals := by rw [hs.locals]; exact h.locals
            stackCapacity := hs.stackCapacity.trans h.stackCapacity
            loops := hs.loops.trans h.loops
            pc := hs.pc.trans h.pc
            warnings := fun hq => absurd (hquiet hq) (by omega) }

end

end Machine

namespace Work

open Machine (Lowered)

section

variable {env : RunEnv} {m : Machine} {after : Nat} {valid quiet : Prop}

theorem setLocNoRef_shifts {slot : UInt8} (hvalid : valid → slot.toNat < m.locals.size)
    (hafter : m.stack.length - 1 = after) :
    Upholds (m.Stops 1 after valid quiet) (fun _ m' => m.Shifts after quiet m')
      (setLocNoRef slot m) := by
  refine ((Lowered.refl m).loadLocal hvalid).bind fun _ m₁ h₁ =>
    (h₁.pop (by omega)).bind fun c m₂ h₂ => (h₂.storeLocal c hvalid).bind fun old m₃ h₃ => ?_
  exact h₃.shifts (by omega)

theorem jump_keeps {target : Int32}
    (hvalid : valid → 0 ≤ target.toInt ∧ target.toInt ≤ env.script.code.size) :
    Upholds (m.Stops 0 m.stack.length valid quiet)
      (fun _ m' => m.Keeps m.stack.length quiet m' ∧ (Instr.jump target).Continues m m')
      (jump env target m) := by
  refine ((Lowered.refl m).jumpTarget hvalid).bind fun pc m₁ h₁ => ?_
  obtain ⟨h₁, rfl⟩ := h₁
  exact ⟨{ (h₁.shifts rfl).toKeeps with }, rfl, h₁.loops⟩

theorem enterLoop_keeps {m₁ : Machine} {n needs count : Nat} {length : Int32}
    (h : m.Lowered n m₁) (hafter : m.stack.length - n = after)
    (hvalid : valid → 0 ≤ length.toInt ∧ m.pc + length.toInt.toNat ≤ env.script.code.size) :
    Upholds (m.Stops needs after valid quiet)
      (fun _ m' => m.Keeps after quiet m' ∧ (Instr.loopNum length).Continues m m')
      (enterLoop env count length m₁) := by
  have hkeeps : m.Keeps after quiet m₁ := (h.shifts hafter).toKeeps
  simp only [enterLoop, bind, EStateM.bind, get, getThe, MonadStateOf.get, EStateM.get]
  split
  · rename_i hbad
    refine h.invalid rfl fun hv => ?_
    have := hvalid hv
    have hpc := h.pc
    simp only [Bool.or_eq_true, decide_eq_true_eq] at hbad
    omega
  · split
    · exact ⟨{ hkeeps with }, .inl ⟨by simp [h.pc], h.loops⟩⟩
    · exact ⟨{ hkeeps with }, .inr ⟨h.pc, count - 1, by simp [h.loops, h.pc]⟩⟩

variable [HostHooks]

theorem binary_shifts {f : Cell → Cell → Work Cell} (hf : ∀ a b, (f a b).Calm)
    (hafter : m.stack.length - 1 = after) :
    Upholds (m.Stops 2 after valid quiet) (fun _ m' => m.Shifts after quiet m') (binary f m) := by
  refine ((Lowered.refl m).pop (by omega)).bind fun b m₁ h₁ =>
    (h₁.pop (by omega)).bind fun a m₂ h₂ => ?_
  have hheight := h₂.height
  exact h₂.attempt₂ (hf a b) (Calm.release a) (Calm.release b) fun c m₃ h₃ => h₃.push c (by omega)

theorem binaryNum_shifts (f : Float → Float → Cell) (hafter : m.stack.length - 1 = after) :
    Upholds (m.Stops 2 after valid quiet) (fun _ m' => m.Shifts after quiet m')
      (binaryNum f m) := by
  refine ((Lowered.refl m).pop (by omega)).bind fun b m₁ h₁ =>
    (h₁.pop (by omega)).bind fun a m₂ h₂ => ?_
  have hheight := h₂.height
  split
  · exact h₂.push _ (by omega)
  · exact (h₂.calm (Calm.release _)).bind fun _ _ h₃ => h₃.refuse _ rfl

-- An operator that refuses what it does not fit.
theorem unary_shifts {f : Cell → Work Unit} (hafter : m.stack.length = after)
    (hf : ∀ c, (∃ d, f c = push d) ∨ ∃ fault, f c = (do release c; throw fault) ∧
      fault.incidental = true) :
    Upholds (m.Stops 1 after valid quiet) (fun _ m' => m.Shifts after quiet m')
      ((pop >>= f) m) := by
  refine ((Lowered.refl m).pop (by omega)).bind fun c m₁ h₁ => ?_
  have hheight := h₁.height
  rcases hf c with ⟨d, hd⟩ | ⟨fault, hd, hfault⟩
  · rw [hd]
    exact h₁.push d (by omega)
  · rw [hd]
    exact h₁.refuse c hfault

theorem neg_shifts (hafter : m.stack.length = after) :
    Upholds (m.Stops 1 after valid quiet) (fun _ m' => m.Shifts after quiet m') (neg m) := by
  refine unary_shifts hafter fun c => ?_
  cases c with
  | number x => exact .inl ⟨_, rfl⟩
  | _ => exact .inr ⟨_, rfl, rfl⟩

theorem negNum_shifts (hafter : m.stack.length = after) :
    Upholds (m.Stops 1 after valid quiet) (fun _ m' => m.Shifts after quiet m') (negNum m) := by
  refine unary_shifts hafter fun c => ?_
  cases c with
  | number x => exact .inl ⟨_, rfl⟩
  | _ => exact .inr ⟨_, rfl, rfl⟩

theorem not_shifts (hafter : m.stack.length = after) :
    Upholds (m.Stops 1 after valid quiet) (fun _ m' => m.Shifts after quiet m') (not m) := by
  refine unary_shifts hafter fun c => ?_
  cases c with
  | bool b => exact .inl ⟨_, rfl⟩
  | _ => exact .inr ⟨_, rfl, rfl⟩

theorem loadLoc_shifts {slot : UInt8} (hvalid : valid → slot.toNat < m.locals.size)
    (hafter : m.stack.length + 1 = after) :
    Upholds (m.Stops 0 after valid quiet) (fun _ m' => m.Shifts after quiet m')
      (loadLoc slot m) := by
  refine ((Lowered.refl m).loadLocal hvalid).bind fun c m₁ h₁ => ?_
  cases c.handle? with
  | some h => exact (h₁.calm (Calm.addRef h)).bind fun _ m₂ h₂ => h₂.push c (by omega)
  | none => exact h₁.push c (by omega)

theorem setLoc_shifts {slot : UInt8} (hvalid : valid → slot.toNat < m.locals.size)
    (hafter : m.stack.length - 1 = after) :
    Upholds (m.Stops 1 after valid quiet) (fun _ m' => m.Shifts after quiet m')
      (setLoc slot m) := by
  refine ((Lowered.refl m).loadLocal hvalid).bind fun _ m₁ h₁ =>
    (h₁.pop (by omega)).bind fun c m₂ h₂ => (h₂.storeLocal c hvalid).bind fun old m₃ h₃ => ?_
  exact (h₃.calm (Calm.release old)).weaken fun _ _ h₄ => h₄.shifts (by omega)

theorem invokeStatic_shifts {r : Registry} {id : Int32}
    (hvalid : valid → id.toUInt32.toNat < r.methods.size)
    (hafter : m.stack.length - r.methodArity id + 1 = after) :
    Upholds (m.Stops (r.methodArity id) after valid quiet) (fun _ m' => m.Shifts after quiet m')
      (invokeStatic r id m) := by
  refine ((Lowered.refl m).methodAt hvalid).bind fun d m₁ h₁ => ?_
  obtain ⟨h₁, harity⟩ := h₁
  refine (h₁.popArgs (by omega)).bind fun args m₂ h₂ => ?_
  exact (h₂.calm (Calm.host _)).bind fun v m₃ h₃ => h₃.pushResult r _ _ v (by omega)

theorem invoke_shifts {r : Registry} {id : Int32}
    (hvalid : valid → id.toUInt32.toNat < r.methods.size)
    (hafter : m.stack.length - r.methodArity id = after) :
    Upholds (m.Stops (r.methodArity id + 1) after valid quiet)
      (fun _ m' => m.Shifts after quiet m') (invoke r id m) := by
  refine ((Lowered.refl m).methodAt hvalid).bind fun d m₁ h₁ => ?_
  obtain ⟨h₁, harity⟩ := h₁
  refine (h₁.popArgs (by omega)).bind fun args m₂ h₂ => (h₂.pop (by omega)).bind
    fun target m₃ h₃ => ?_
  have hheight := h₃.height
  exact h₃.attempt (Calm.reads.bind (Calm.reads.objectOf _ _) fun o => Calm.host _) (Calm.release target)
    fun v m₄ h₄ => h₄.pushResult r _ _ v (by omega)

theorem invokeDynamic_shifts {name argc : UInt16}
    (hvalid : valid → name.toNat < env.script.strings.size)
    (hafter : m.stack.length - argc.toNat = after) :
    Upholds (m.Stops (argc.toNat + 1) after valid quiet) (fun _ m' => m.Shifts after quiet m')
      (invokeDynamic env name argc m) := by
  refine ((Lowered.refl m).poolString hvalid).bind fun member m₁ h₁ =>
    (h₁.popMany (by omega)).bind fun args m₂ h₂ => (h₂.pop (by omega)).bind fun target m₃ h₃ => ?_
  have hheight := h₃.height
  exact h₃.attempt₂ (Calm.reads.callNamed env.registry member target args) (Calm.reads.releaseAll args)
    (Calm.release target) fun a m₄ h₄ => h₄.pushResult env.registry a.1 member a.2 (by omega)

theorem getProperty_shifts {r : Registry} {id : Int32}
    (hvalid : valid → id.toUInt32.toNat < r.properties.size) (hafter : m.stack.length = after) :
    Upholds (m.Stops 1 after valid quiet) (fun _ m' => m.Shifts after quiet m')
      (getProperty r id m) := by
  refine ((Lowered.refl m).propertyAt hvalid).bind fun d m₁ h₁ =>
    (h₁.calm (Calm.reads.getterOf d)).bind fun get m₂ h₂ => (h₂.pop (by omega)).bind
      fun target m₃ h₃ => ?_
  have hheight := h₃.height
  exact h₃.attempt (Calm.reads.bind (Calm.reads.objectOf _ _) fun o => Calm.host _) (Calm.release target)
    fun v m₄ h₄ => h₄.pushResult r _ _ v (by omega)

theorem getStaticProperty_shifts {r : Registry} {id : Int32}
    (hvalid : valid → id.toUInt32.toNat < r.properties.size)
    (hafter : m.stack.length + 1 = after) :
    Upholds (m.Stops 0 after valid quiet) (fun _ m' => m.Shifts after quiet m')
      (getStaticProperty r id m) := by
  refine ((Lowered.refl m).propertyAt hvalid).bind fun d m₁ h₁ =>
    (h₁.calm (Calm.reads.getterOf d)).bind fun get m₂ h₂ => ?_
  exact (h₂.calm (Calm.host _)).bind fun v m₃ h₃ => h₃.pushResult r _ _ v (by omega)

theorem setProperty_shifts {r : Registry} {id : Int32}
    (hvalid : valid → id.toUInt32.toNat < r.properties.size)
    (hafter : m.stack.length - 2 = after) :
    Upholds (m.Stops 2 after valid quiet) (fun _ m' => m.Shifts after quiet m')
      (setProperty r id m) := by
  refine ((Lowered.refl m).propertyAt hvalid).bind fun d m₁ h₁ =>
    (h₁.calm (Calm.reads.setterOf d)).bind fun set m₂ h₂ => (h₂.pop (by omega)).bind fun c m₃ h₃ =>
      (h₃.pop (by omega)).bind fun target m₄ h₄ => ?_
  have hx : Calm (do
      let o ← objectOf d.name target
      let v ← toValue c
      host (set (some o) v)) :=
    Calm.reads.bind (Calm.reads.objectOf _ _) fun o => Calm.reads.bind (Calm.reads.toValue c) fun v => Calm.host _
  exact (h₄.attempt_settle₂ hx (Calm.release c) (Calm.release target)).weaken
    fun _ _ h₅ => h₅.shifts (by omega)

theorem setStaticProperty_shifts {r : Registry} {id : Int32}
    (hvalid : valid → id.toUInt32.toNat < r.properties.size)
    (hafter : m.stack.length - 1 = after) :
    Upholds (m.Stops 1 after valid quiet) (fun _ m' => m.Shifts after quiet m')
      (setStaticProperty r id m) := by
  refine ((Lowered.refl m).propertyAt hvalid).bind fun d m₁ h₁ =>
    (h₁.calm (Calm.reads.setterOf d)).bind fun set m₂ h₂ => (h₂.pop (by omega)).bind fun c m₃ h₃ => ?_
  have hx : Calm (do
      let v ← toValue c
      host (set none v)) := Calm.reads.bind (Calm.reads.toValue c) fun v => Calm.host _
  exact (h₃.attempt_settle hx (Calm.release c)).weaken fun _ _ h₄ => h₄.shifts (by omega)

theorem getDynamicProperty_shifts {name : UInt16}
    (hvalid : valid → name.toNat < env.script.strings.size) (hafter : m.stack.length = after) :
    Upholds (m.Stops 1 after valid quiet) (fun _ m' => m.Shifts after quiet m')
      (getDynamicProperty env name m) := by
  refine ((Lowered.refl m).poolString hvalid).bind fun member m₁ h₁ =>
    (h₁.pop (by omega)).bind fun target m₂ h₂ => ?_
  have hheight := h₂.height
  exact h₂.attempt (Calm.reads.readNamed env.registry member target) (Calm.release target)
    fun a m₃ h₃ => h₃.pushResult env.registry a.1 member a.2 (by omega)

theorem setDynamicProperty_shifts {name : UInt16}
    (hvalid : valid → name.toNat < env.script.strings.size)
    (hafter : m.stack.length - 2 = after) :
    Upholds (m.Stops 2 after valid quiet) (fun _ m' => m.Shifts after quiet m')
      (setDynamicProperty env name m) := by
  refine ((Lowered.refl m).poolString hvalid).bind fun member m₁ h₁ =>
    (h₁.pop (by omega)).bind fun c m₂ h₂ => (h₂.pop (by omega)).bind fun target m₃ h₃ => ?_
  exact (h₃.attempt_settle₂ (Calm.reads.writeNamed env.registry member target c) (Calm.release c)
    (Calm.release target)).weaken fun _ _ h₄ => h₄.shifts (by omega)

theorem construct_shifts {r : Registry} {id : Int32}
    (hvalid : valid → id.toUInt32.toNat < r.constructors.size)
    (hafter : m.stack.length - r.constructorArity id + 1 = after) :
    Upholds (m.Stops (r.constructorArity id) after valid quiet)
      (fun _ m' => m.Shifts after quiet m') (construct r id m) := by
  refine ((Lowered.refl m).constructorAt hvalid).bind fun d m₁ h₁ => ?_
  obtain ⟨h₁, harity⟩ := h₁
  refine (h₁.popArgs (by omega)).bind fun args m₂ h₂ => (h₂.calm (Calm.host _)).bind
    fun o m₃ h₃ => (h₃.calm (Calm.acquire o)).bind fun h m₄ h₄ => ?_
  exact h₄.push _ (by omega)

theorem checkAt_shifts (r : Registry) (expected : Ty) (depth : Nat)
    (hafter : m.stack.length = after) :
    Upholds (m.Stops (depth + 1) after valid quiet) (fun _ m' => m.Shifts after quiet m')
      (checkAt r expected depth m) := by
  refine ((Lowered.refl m).peek (by omega)).bind fun c m₁ h₁ =>
    (h₁.calm (Calm.reads.typeOf r c)).bind fun actual m₂ h₂ => ?_
  split
  · exact h₂.shifts (by omega)
  · exact h₂.incidental rfl

theorem ret_shifts (hquiet : quiet → m.stack.length ≤ 1) :
    Upholds (m.Stops 1 0 valid quiet) (fun _ m' => m.Shifts 0 quiet m') (ret m) := by
  refine ((Lowered.refl m).pop (by omega)).bind fun c m₁ h₁ => ?_
  refine h₁.attempt (Calm.reads.toValue c) (Calm.release c) fun v m₂ h₂ => ?_
  have h₃ : m.Lowered 1 { m₂ with returned := v } := { h₂ with }
  exact h₃.unwind hquiet

theorem jumpIf_keeps {on : Bool} {target : Int32}
    (hvalid : valid → 0 ≤ target.toInt ∧ target.toInt ≤ env.script.code.size) :
    Upholds (m.Stops 1 (m.stack.length - 1) valid quiet)
      (fun _ m' => m.Keeps (m.stack.length - 1) quiet m' ∧
        (Instr.jumpIf on target).Continues m m')
      (jumpIf env on target m) := by
  refine ((Lowered.refl m).jumpTarget hvalid).bind fun pc m₁ h₁ => ?_
  obtain ⟨h₁, rfl⟩ := h₁
  refine (h₁.pop (by omega)).bind fun c m₂ h₂ => ?_
  have hshifts : m.Shifts (m.stack.length - 1) quiet m₂ := h₂.shifts (by omega)
  cases c with
  | bool b =>
      dsimp only
      split
      · exact ⟨{ hshifts.toKeeps with }, .inr rfl, h₂.loops⟩
      · exact ⟨hshifts.toKeeps, .inl h₂.pc, h₂.loops⟩
  | _ => exact h₂.refuse _ rfl

theorem enterLoopNum_keeps {length : Int32}
    (hvalid : valid → 0 ≤ length.toInt ∧ m.pc + length.toInt.toNat ≤ env.script.code.size) :
    Upholds (m.Stops 1 (m.stack.length - 1) valid quiet)
      (fun _ m' => m.Keeps (m.stack.length - 1) quiet m' ∧
        (Instr.loopNum length).Continues m m')
      (enterLoopNum env length m) := by
  refine ((Lowered.refl m).pop (by omega)).bind fun c m₁ h₁ => ?_
  cases c with
  | number x => exact enterLoop_keeps h₁ (by omega) hvalid
  | _ => exact h₁.refuse _ rfl

end

end Work

-- What an instruction does to the stack, to the variables and to where the run goes on, and what it
-- leaves alone.
structure Instr.Moves (env : RunEnv) (m : Machine) (i : Instr) (m' : Machine) : Prop
    extends m.Keeps (i.after env.registry m.stack.length) (i.Quiet env.registry m.stack.length) m'
    where
  continues : i.Continues m m'

-- What a fault of an instruction may be, and what it leaves.
def Instr.Fails (env : RunEnv) (m : Machine) (i : Instr) : Fault → Machine → Prop :=
  m.Stops (i.needs env.registry) (i.after env.registry m.stack.length)
    (i.Valid env m.locals.size m.pc) (i.Quiet env.registry m.stack.length)

namespace Work

open Machine (Lowered)

-- Instructions that do not say where to go on lead to the next one.
theorem moves_of_shifts {env : RunEnv} {m : Machine} {i : Instr}
    {result : EStateM.Result Fault Machine Unit}
    (hcontinues : ∀ m' : Machine, m'.pc = m.pc ∧ m'.loops = m.loops → i.Continues m m')
    (h : Upholds (i.Fails env m) (fun _ m' => m.Shifts (i.after env.registry m.stack.length)
      (i.Quiet env.registry m.stack.length) m') result) :
    Upholds (i.Fails env m) (fun _ m' => i.Moves env m m') result :=
  h.weaken fun _ m' hs => ⟨hs.toKeeps, hcontinues m' ⟨hs.pc, hs.loops⟩⟩

variable [HostHooks]

theorem effect_moves (env : RunEnv) (i : Instr) (m : Machine) :
    Upholds (i.Fails env m) (fun _ m' => i.Moves env m m') (effect env i m) := by
  have hstart := Lowered.refl m
  cases i with
  | nop => exact moves_of_shifts (fun _ h => h) (hstart.shifts rfl)
  | pushNull => exact moves_of_shifts (fun _ h => h) (hstart.push _ rfl)
  | pushBool b => exact moves_of_shifts (fun _ h => h) (hstart.push _ rfl)
  | pushLong k => exact moves_of_shifts (fun _ h => h) (hstart.push _ rfl)
  | pushDouble x => exact moves_of_shifts (fun _ h => h) (hstart.push _ rfl)
  | pushString index =>
      exact moves_of_shifts (fun _ h => h) <| (hstart.poolString id).bind fun s m₁ h₁ =>
        (h₁.calm (Calm.insertText s)).bind fun h m₂ h₂ => h₂.push _ rfl
  | pop =>
      exact moves_of_shifts (fun _ h => h) <| (hstart.pop (Nat.lt_add_one 0)).bind fun c m₁ h₁ =>
        (h₁.calm (Calm.release c)).weaken fun _ _ h₂ => h₂.shifts rfl
  | loadLoc slot => exact moves_of_shifts (fun _ h => h) (loadLoc_shifts id rfl)
  | loadLocNoRef slot =>
      exact moves_of_shifts (fun _ h => h) <| (hstart.loadLocal id).bind fun c m₁ h₁ =>
        h₁.push c rfl
  | setLoc slot => exact moves_of_shifts (fun _ h => h) (setLoc_shifts id rfl)
  | setLocNoRef slot => exact moves_of_shifts (fun _ h => h) (setLocNoRef_shifts id rfl)
  | arith op => exact moves_of_shifts (fun _ h => h) <|
      binary_shifts (Calm.reads.arithResult Calm.insertText op) rfl
  | arithNum op => exact moves_of_shifts (fun _ h => h) (binaryNum_shifts _ rfl)
  | order op => exact moves_of_shifts (fun _ h => h) (binary_shifts (Calm.reads.orderResult op) rfl)
  | orderNum op => exact moves_of_shifts (fun _ h => h) (binaryNum_shifts _ rfl)
  | equals negated =>
      exact moves_of_shifts (fun _ h => h) (binary_shifts (Calm.reads.equalResult negated) rfl)
  | equalsNum negated => exact moves_of_shifts (fun _ h => h) (binaryNum_shifts _ rfl)
  | neg => exact moves_of_shifts (fun _ h => h) (neg_shifts rfl)
  | negNum => exact moves_of_shifts (fun _ h => h) (negNum_shifts rfl)
  | not => exact moves_of_shifts (fun _ h => h) (not_shifts rfl)
  | jump target => exact (jump_keeps id).weaken fun _ _ h => ⟨h.1, h.2⟩
  | jumpIf on target => exact (jumpIf_keeps id).weaken fun _ _ h => ⟨h.1, h.2⟩
  | invoke id => exact moves_of_shifts (fun _ h => h) (invoke_shifts (fun h => h) rfl)
  | invokeStatic id => exact moves_of_shifts (fun _ h => h) (invokeStatic_shifts (fun h => h) rfl)
  | invokeDynamic name argc => exact moves_of_shifts (fun _ h => h) (invokeDynamic_shifts id rfl)
  | getProperty id => exact moves_of_shifts (fun _ h => h) (getProperty_shifts (fun h => h) rfl)
  | setProperty id => exact moves_of_shifts (fun _ h => h) (setProperty_shifts (fun h => h) rfl)
  | getStaticProperty id =>
      exact moves_of_shifts (fun _ h => h) (getStaticProperty_shifts (fun h => h) rfl)
  | setStaticProperty id =>
      exact moves_of_shifts (fun _ h => h) (setStaticProperty_shifts (fun h => h) rfl)
  | getDynamicProperty name =>
      exact moves_of_shifts (fun _ h => h) (getDynamicProperty_shifts id rfl)
  | setDynamicProperty name =>
      exact moves_of_shifts (fun _ h => h) (setDynamicProperty_shifts id rfl)
  | new id => exact moves_of_shifts (fun _ h => h) (construct_shifts (fun h => h) rfl)
  | checkType ty => exact moves_of_shifts (fun _ h => h) (checkAt_shifts _ ty 0 rfl)
  | peekCheckType ty depth =>
      exact moves_of_shifts (fun _ h => h) (checkAt_shifts _ ty depth.toNat rfl)
  | loop count length => exact (enterLoop_keeps hstart rfl id).weaken fun _ _ h => ⟨h.1, h.2⟩
  | loopNum length => exact (enterLoopNum_keeps id).weaken fun _ _ h => ⟨h.1, h.2⟩
  | ret =>
      exact moves_of_shifts (fun _ h => h) (ret_shifts fun hq => hq.resolve_left (by simp [Instr.flow]))
  | exit =>
      exact moves_of_shifts (fun _ h => h)
        (hstart.unwind fun hq => hq.resolve_left (by simp [Instr.flow]))

end Work

namespace Machine

variable [HostHooks]

-- Inputs only fill variables. One that is not there is the only fault of the script.
theorem Lowered.bindInput {m m₁ : Machine} {needs after : Nat} {valid quiet : Prop}
    (h : m.Lowered 0 m₁) (r : Registry) (name : String) {slot : InputSlot} (v : Value)
    (hvalid : valid → slot.slot < m.locals.size) :
    Upholds (m.Stops needs after valid quiet) (fun _ m₂ => m.Lowered 0 m₂)
      (Machine.bindInput r name slot v m₁) := by
  unfold Machine.bindInput
  split
  · refine (h.loadLocal hvalid).bind fun _ m₂ h₂ => (h₂.calm (Work.Calm.ofValue v)).bind
      fun c m₃ h₃ => (h₃.storeLocal c hvalid).bind fun _ m₄ h₄ => ?_
    exact h₄
  · exact h.incidental rfl

theorem bindInputs_keeps (m : Machine) (r : Registry) (supplied : List (String × Value))
    (table : List (String × InputSlot)) :
    Upholds (m.Stops 0 0 (∀ entry ∈ table, entry.2.slot < m.locals.size) True)
      (fun _ m' => m.Lowered 0 m') (Machine.bindInputs r supplied table m) := by
  have hall : ∀ (rest : List (String × InputSlot)) m₁, m.Lowered 0 m₁ →
      (∀ entry ∈ rest, entry ∈ table) →
      Upholds (m.Stops 0 0 (∀ entry ∈ table, entry.2.slot < m.locals.size) True)
        (fun _ m' => m.Lowered 0 m') (Machine.bindInputs r supplied rest m₁) := by
    intro rest
    induction rest with
    | nil => exact fun m₁ h₁ _ => h₁
    | cons entry rest ih =>
        intro m₁ h₁ hmem
        have hslot := hmem entry List.mem_cons_self
        exact (h₁.bindInput r entry.1 _ fun hv => hv entry hslot).bind fun _ m₂ h₂ =>
          ih m₂ h₂ fun e he => hmem e (List.mem_cons_of_mem _ he)
  exact hall table m (.refl m) fun _ he => he

end Machine

end HostScript
