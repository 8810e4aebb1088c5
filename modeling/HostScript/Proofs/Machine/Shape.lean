import HostScript.Proofs.Machine.Composition
import HostScript.Proofs.References.Hooks

namespace HostScript

-- The number of arguments of a member that is found by its number.
def Registry.methodArity (r : Registry) (id : Int32) : Nat :=
  (r.methods[id.toUInt32.toNat]?.map (·.params.length)).getD 0

def Registry.constructorArity (r : Registry) (id : Int32) : Nat :=
  (r.constructors[id.toUInt32.toNat]?.map (·.params.length)).getD 0

namespace Instr

-- How many values an instruction must find on the stack.
def needs (r : Registry) : Instr → Nat
  | .pop | .setLoc _ | .setLocNoRef _ | .neg | .negNum | .not | .jumpIf _ _ | .getProperty _
  | .setStaticProperty _ | .getDynamicProperty _ | .checkType _ | .loopNum _ | .ret => 1
  | .arith _ | .arithNum _ | .order _ | .orderNum _ | .equals _ | .equalsNum _ | .setProperty _
  | .setDynamicProperty _ => 2
  | .invoke id => r.methodArity id + 1
  | .invokeStatic id => r.methodArity id
  | .invokeDynamic _ argc => argc.toNat + 1
  | .new id => r.constructorArity id
  | .peekCheckType _ depth => depth.toNat + 1
  | _ => 0

-- How high the stack is afterwards.
def after (r : Registry) (height : Nat) : Instr → Nat
  | .pushNull | .pushBool _ | .pushLong _ | .pushDouble _ | .pushString _ | .loadLoc _
  | .loadLocNoRef _ | .getStaticProperty _ => height + 1
  | .pop | .setLoc _ | .setLocNoRef _ | .jumpIf _ _ | .setStaticProperty _ | .loopNum _
  | .arith _ | .arithNum _ | .order _ | .orderNum _ | .equals _ | .equalsNum _ => height - 1
  | .setProperty _ | .setDynamicProperty _ => height - 2
  | .invoke id => height - r.methodArity id
  | .invokeStatic id => height - r.methodArity id + 1
  | .invokeDynamic _ argc => height - argc.toNat
  | .new id => height - r.constructorArity id + 1
  | .ret | .exit => 0
  | _ => height

-- What an instruction names is there: in the pool, among so many variables, in the registry, or in
-- the code behind `pc`.
def Valid (env : RunEnv) (locals pc : Nat) : Instr → Prop
  | .pushString index | .invokeDynamic index _ | .getDynamicProperty index
  | .setDynamicProperty index => index.toNat < env.script.strings.size
  | .loadLoc slot | .loadLocNoRef slot | .setLoc slot | .setLocNoRef slot => slot.toNat < locals
  | .jump target | .jumpIf _ target => 0 ≤ target.toInt ∧ target.toInt ≤ env.script.code.size
  | .invoke id | .invokeStatic id => id.toUInt32.toNat < env.registry.methods.size
  | .getProperty id | .setProperty id | .getStaticProperty id | .setStaticProperty id =>
    id.toUInt32.toNat < env.registry.properties.size
  | .new id => id.toUInt32.toNat < env.registry.constructors.size
  | .loop _ length | .loopNum length =>
    0 ≤ length.toInt ∧ pc + length.toInt.toNat ≤ env.script.code.size
  | _ => True

-- Where a run goes on.
def Continues (m m' : Machine) : Instr → Prop
  | .jump target => m'.pc = target.toInt.toNat ∧ m'.loops = m.loops
  | .jumpIf _ target => (m'.pc = m.pc ∨ m'.pc = target.toInt.toNat) ∧ m'.loops = m.loops
  | .loop _ length | .loopNum length =>
    (m'.pc = m.pc + length.toInt.toNat ∧ m'.loops = m.loops) ∨
    (m'.pc = m.pc ∧ ∃ left, m'.loops = ⟨m.pc, m.pc + length.toInt.toNat, left⟩ :: m.loops)
  | _ => m'.pc = m.pc ∧ m'.loops = m.loops

-- Only a script that stops with more on the stack than it takes reports that.
def Quiet (r : Registry) (height : Nat) (i : Instr) : Prop :=
  i.flow = .next ∨ height ≤ i.needs r

end Instr

namespace Machine

-- Only the reference table and what belongs to the host differ.
structure Still (m m' : Machine) : Prop where
  refs : m.refs.Leads m'.refs
  stack : m'.stack = m.stack
  locals : m'.locals = m.locals
  stackCapacity : m'.stackCapacity = m.stackCapacity
  loops : m'.loops = m.loops
  pc : m'.pc = m.pc
  warnings : m'.warnings = m.warnings

theorem Still.refl (m : Machine) : m.Still m :=
  ⟨.refl, rfl, rfl, rfl, rfl, rfl, rfl⟩

theorem Still.trans {m m₁ m₂ : Machine} (h₁ : m.Still m₁) (h₂ : m₁.Still m₂) : m.Still m₂ where
  refs := h₁.refs.trans h₂.refs
  stack := h₂.stack.trans h₁.stack
  locals := h₂.locals.trans h₁.locals
  stackCapacity := h₂.stackCapacity.trans h₁.stackCapacity
  loops := h₂.loops.trans h₁.loops
  pc := h₂.pc.trans h₁.pc
  warnings := h₂.warnings.trans h₁.warnings

end Machine

namespace Work

-- Work that touches nothing but references and the host, and fails incidentally at most.
def Calm {α : Type} (x : Work α) : Prop :=
  Relates Machine.Still (fun f : Fault => f.incidental = true) x

namespace Calm

variable {α : Type}

theorem readRefs {f : References → Except Fault α}
    (herror : ∀ t e, f t = .error e → e.incidental = true) : Calm (Work.readRefs f) := by
  intro m
  unfold Work.readRefs
  cases hresult : f m.refs with
  | ok a => exact .refl m
  | error e => exact ⟨.refl m, herror _ _ hresult⟩

theorem incidental_allocate {t : References} {p : Payload} {f : Fault}
    (h : t.allocate p = .error f) : f.incidental = true := by
  rw [(References.allocate_error h).1]
  rfl

theorem incidental_addRef {t : References} {k : Nat} {f : Fault} (h : t.addRef k = .error f) :
    f.incidental = true := by
  unfold References.addRef at h
  split at h
  · cases h
  · cases h
    rfl

theorem host (x : HostM α) : Calm (Work.host x) := by
  intro m
  simp only [Work.host]
  cases (x m.world).result with
  | ok a => exact ⟨.refl, rfl, rfl, rfl, rfl, rfl, rfl⟩
  | error e => exact ⟨⟨.refl, rfl, rfl, rfl, rfl, rfl, rfl⟩, rfl⟩

variable [HostHooks]

theorem onRefs {f : References → Except Fault (α × References)}
    (hok : ∀ t a t', f t = .ok (a, t') → t.Leads t')
    (herror : ∀ t e, f t = .error e → e.incidental = true) : Calm (Work.onRefs f) := by
  intro m
  unfold Work.onRefs
  cases hresult : f m.refs with
  | ok r => exact ⟨hok _ _ _ hresult, rfl, rfl, rfl, rfl, rfl, rfl⟩
  | error e => exact ⟨.refl m, herror _ _ hresult⟩

theorem insertText (s : String) : Calm (Work.onRefs (·.insertText s)) :=
  onRefs (fun _ _ _ h => .insertText .refl h) fun _ _ h => incidental_allocate h

theorem acquire (o : ObjectRef) : Calm (Work.onRefs (·.acquire o)) := by
  refine onRefs (fun _ _ _ h => .acquire .refl h) fun t f h => ?_
  unfold References.acquire at h
  split at h
  · rename_i k _
    cases hadd : t.addRef k with
    | ok u =>
        rw [hadd] at h
        cases h
    | error e =>
        rw [hadd] at h
        cases h
        exact incidental_addRef hadd
  · cases hal : t.allocate (.object o) with
    | ok r =>
        rw [hal] at h
        cases h
    | error e =>
        rw [hal] at h
        cases h
        exact incidental_allocate hal

theorem addRef (k : Nat) : Calm (Work.onRefs fun t => do return ((), ← t.addRef k)) := by
  refine onRefs (fun t a t' h => ?_) fun t f h => ?_
  · obtain ⟨u, hadd, hu⟩ := except_bind_ok.mp h
    obtain ⟨-, rfl⟩ := Prod.mk.inj (Except.ok.inj hu)
    exact .addRef .refl hadd
  · cases hadd : t.addRef k with
    | ok u =>
        rw [hadd] at h
        cases h
    | error e =>
        rw [hadd] at h
        cases h
        exact incidental_addRef hadd

theorem release (c : Cell) : Calm (Work.release c) := by
  unfold Work.release
  split
  · rename_i k _
    refine onRefs (fun t a t' h => ?_) fun t f h => ?_
    · obtain ⟨u, hrelease, hu⟩ := except_bind_ok.mp h
      obtain ⟨-, rfl⟩ := Prod.mk.inj (Except.ok.inj hu)
      exact .release .refl hrelease
    · unfold References.release at h
      split at h
      · split at h <;> cases h
      · cases h
        rfl
  · exact fun m => .refl m

theorem reads : Reads Calm where
  pure := .pure .refl
  throw hf m := .throw ⟨.refl m, hf⟩
  bind := .bind .trans
  text h := readRefs fun t e he => by
    unfold References.text at he
    split at he <;> cases he
    rfl
  object h := readRefs fun t e he => by
    unfold References.object at he
    split at he <;> cases he
    rfl
  typeOf r c m := by
    cases c with
    | object h =>
        simp only [Work.typeOf, Bind.bind, EStateM.bind, get, getThe, MonadStateOf.get, EStateM.get]
        cases m.refs.get? h with
        | none => exact .refl m
        | some payload => cases payload <;> exact .refl m
    | _ => exact .refl m
  shown v m := .refl m
  host := host
  release := release

theorem ofValue (v : Value) : Calm (Work.ofValue v) := by
  cases v with
  | text s => exact reads.bind (insertText s) fun h => reads.pure _
  | object o => exact reads.bind (acquire o) fun h => reads.pure _
  | _ => exact reads.pure _

end Calm

end Work

namespace Machine

-- The same with `n` values less on the stack.
structure Lowered (m : Machine) (n : Nat) (m' : Machine) : Prop where
  refs : m.refs.Leads m'.refs
  height : m'.stack.length + n = m.stack.length
  locals : m'.locals.size = m.locals.size
  stackCapacity : m'.stackCapacity = m.stackCapacity
  loops : m'.loops = m.loops
  pc : m'.pc = m.pc
  warnings : m'.warnings = m.warnings

-- What a fault may be, of an instruction that needs so many values and would leave the stack so
-- high, and what it leaves.
structure Stops (m : Machine) (needs after : Nat) (valid quiet : Prop) (f : Fault) (m' : Machine) :
    Prop where
  refs : m.refs.Leads m'.refs
  height : m'.stack.length ≤ m.stack.length
  locals : m'.locals.size = m.locals.size
  stackCapacity : m'.stackCapacity = m.stackCapacity
  warnings : quiet → m'.warnings = m.warnings
  structural : f.structural = true → ¬valid
  underflow : f = .stackUnderflow → m.stack.length < needs
  overflow : ∀ capacity, f = .stackOverflow capacity → m.stackCapacity < after

-- The stack is so high afterwards, and there are as many variables.
structure Keeps (m : Machine) (after : Nat) (quiet : Prop) (m' : Machine) : Prop where
  refs : m.refs.Leads m'.refs
  height : m'.stack.length = after
  locals : m'.locals.size = m.locals.size
  stackCapacity : m'.stackCapacity = m.stackCapacity
  warnings : quiet → m'.warnings = m.warnings

-- The run goes on with the next instruction, too.
structure Shifts (m : Machine) (after : Nat) (quiet : Prop) (m' : Machine) : Prop
    extends Keeps m after quiet m' where
  loops : m'.loops = m.loops
  pc : m'.pc = m.pc

theorem Lowered.refl (m : Machine) : m.Lowered 0 m :=
  ⟨.refl, rfl, rfl, rfl, rfl, rfl, rfl⟩

section

variable {α β : Type} {m m₁ : Machine} {n needs after : Nat} {valid quiet : Prop}
  {R : β → Machine → Prop}

theorem Lowered.still {m₂ : Machine} (h : m.Lowered n m₁) (hs : m₁.Still m₂) : m.Lowered n m₂ where
  refs := h.refs.trans hs.refs
  height := by rw [hs.stack, h.height]
  locals := by rw [hs.locals, h.locals]
  stackCapacity := hs.stackCapacity.trans h.stackCapacity
  loops := hs.loops.trans h.loops
  pc := hs.pc.trans h.pc
  warnings := hs.warnings.trans h.warnings

theorem Lowered.shifts (h : m.Lowered n m₁) (hafter : m.stack.length - n = after) :
    m.Shifts after quiet m₁ where
  refs := h.refs
  height := by have := h.height; omega
  locals := h.locals
  stackCapacity := h.stackCapacity
  loops := h.loops
  pc := h.pc
  warnings _ := h.warnings

theorem Lowered.incidental (h : m.Lowered n m₁) {f : Fault} (hf : f.incidental = true) :
    m.Stops needs after valid quiet f m₁ where
  refs := h.refs
  height := by have := h.height; omega
  locals := h.locals
  stackCapacity := h.stackCapacity
  warnings _ := h.warnings
  structural hs := by cases f <;> simp_all [Fault.incidental, Fault.structural]
  underflow hu := by subst hu; cases hf
  overflow k ho := by subst ho; cases hf

theorem Lowered.underflow (h : m.Lowered n m₁) (hneeds : m.stack.length < needs) :
    m.Stops needs after valid quiet .stackUnderflow m₁ where
  refs := h.refs
  height := by have := h.height; omega
  locals := h.locals
  stackCapacity := h.stackCapacity
  warnings _ := h.warnings
  structural hs := by cases hs
  underflow _ := hneeds
  overflow k ho := by cases ho

theorem Lowered.overflow (h : m.Lowered n m₁) {k : Nat} (hafter : m.stackCapacity < after) :
    m.Stops needs after valid quiet (.stackOverflow k) m₁ where
  refs := h.refs
  height := by have := h.height; omega
  locals := h.locals
  stackCapacity := h.stackCapacity
  warnings _ := h.warnings
  structural hs := by cases hs
  underflow hu := by cases hu
  overflow _ _ := hafter

theorem Lowered.invalid (h : m.Lowered n m₁) {f : Fault} (hf : f.structural = true)
    (hvalid : ¬valid) : m.Stops needs after valid quiet f m₁ where
  refs := h.refs
  height := by have := h.height; omega
  locals := h.locals
  stackCapacity := h.stackCapacity
  warnings _ := h.warnings
  structural _ := hvalid
  underflow hu := by subst hu; cases hf
  overflow k ho := by subst ho; cases hf

theorem Lowered.calm {x : Work α} (h : m.Lowered n m₁) (hx : x.Calm) :
    Upholds (m.Stops needs after valid quiet) (fun _ m₂ => m.Lowered n m₂) (x m₁) :=
  (hx m₁).imp (fun _ _ hf => (h.still hf.1).incidental hf.2) fun _ _ hs => h.still hs

theorem Lowered.pop (h : m.Lowered n m₁) (hneeds : n < needs) :
    Upholds (m.Stops needs after valid quiet) (fun _ m₂ => m.Lowered (n + 1) m₂)
      (Work.pop m₁) := by
  unfold Work.pop
  have hheight := h.height
  cases hstack : m₁.stack with
  | nil =>
      rw [hstack] at hheight
      exact h.underflow (by simp only [List.length_nil] at hheight; omega)
  | cons c stack =>
      rw [hstack] at hheight
      exact { h with height := by simp only [List.length_cons] at hheight; simp only; omega }

theorem Lowered.popMany (h : m.Lowered n m₁) {count : Nat} (hneeds : n + count ≤ needs) :
    Upholds (m.Stops needs after valid quiet) (fun _ m₂ => m.Lowered (n + count) m₂)
      (Work.popMany count m₁) := by
  unfold Work.popMany
  have hheight := h.height
  split
  · exact { h with height := by simp only [List.length_drop]; omega }
  · exact h.underflow (by omega)

-- What is taken off the stack is given back before a fault is passed on.
theorem Lowered.attempt {x : Work α} {give : Work Unit} {rest : α → Work β} (h : m.Lowered n m₁)
    (hx : x.Calm) (hgive : give.Calm)
    (hrest : ∀ a m₂, m.Lowered n m₂ → Upholds (m.Stops needs after valid quiet) R (rest a m₂)) :
    Upholds (m.Stops needs after valid quiet) R ((do
      let outcome ← Work.attempt x
      give
      let a ← Work.settle outcome
      rest a) m₁) := by
  have hone := hx m₁
  have hgiven : ∀ {m₂ : Machine}, m₁.Still m₂ →
      Upholds (m.Stops needs after valid quiet) (fun _ m₃ => m.Lowered n m₃) (give m₂) :=
    fun hs => (h.still hs).calm hgive
  simp only [bind, EStateM.bind, Work.attempt]
  cases hresult : x m₁ with
  | ok a m₂ =>
      rw [hresult] at hone
      have htwo := hgiven hone
      simp only
      cases hresult₂ : give m₂ with
      | ok u m₃ =>
          rw [hresult₂] at htwo
          exact hrest a m₃ htwo
      | error f m₃ =>
          rw [hresult₂] at htwo
          exact htwo
  | error f m₂ =>
      rw [hresult] at hone
      have htwo := hgiven hone.1
      simp only
      cases hresult₂ : give m₂ with
      | ok u m₃ =>
          rw [hresult₂] at htwo
          exact htwo.incidental hone.2
      | error g m₃ =>
          rw [hresult₂] at htwo
          exact htwo

theorem Lowered.attempt_settle {x : Work α} {give : Work Unit} (h : m.Lowered n m₁)
    (hx : x.Calm) (hgive : give.Calm) :
    Upholds (m.Stops needs after valid quiet) (fun _ m₂ => m.Lowered n m₂) ((do
      let outcome ← Work.attempt x
      give
      Work.settle outcome) m₁) := by
  have hpure : ∀ (a : α) m₂, m.Lowered n m₂ → Upholds (m.Stops needs after valid quiet)
      (fun _ m₃ => m.Lowered n m₃) ((pure a : Work α) m₂) := fun _ _ h₂ => h₂
  simpa only [bind_pure] using h.attempt hx hgive hpure

theorem Lowered.attempt₂ {x : Work α} {give₁ give₂ : Work Unit} {rest : α → Work β}
    (h : m.Lowered n m₁) (hx : x.Calm) (hgive₁ : give₁.Calm) (hgive₂ : give₂.Calm)
    (hrest : ∀ a m₂, m.Lowered n m₂ → Upholds (m.Stops needs after valid quiet) R (rest a m₂)) :
    Upholds (m.Stops needs after valid quiet) R ((do
      let outcome ← Work.attempt x
      give₁
      give₂
      let a ← Work.settle outcome
      rest a) m₁) := by
  simpa only [bind_assoc] using h.attempt hx (Work.Calm.reads.bind hgive₁ fun _ => hgive₂) hrest

theorem Lowered.attempt_settle₂ {x : Work α} {give₁ give₂ : Work Unit} (h : m.Lowered n m₁)
    (hx : x.Calm) (hgive₁ : give₁.Calm) (hgive₂ : give₂.Calm) :
    Upholds (m.Stops needs after valid quiet) (fun _ m₂ => m.Lowered n m₂) ((do
      let outcome ← Work.attempt x
      give₁
      give₂
      Work.settle outcome) m₁) := by
  have hpure : ∀ (a : α) m₂, m.Lowered n m₂ → Upholds (m.Stops needs after valid quiet)
      (fun _ m₃ => m.Lowered n m₃) ((pure a : Work α) m₂) := fun _ _ h₂ => h₂
  simpa only [bind_pure] using h.attempt₂ hx hgive₁ hgive₂ hpure

variable [HostHooks]

theorem Lowered.push (h : m.Lowered n m₁) (c : Cell) (hafter : m.stack.length - n + 1 = after) :
    Upholds (m.Stops needs after valid quiet) (fun _ m' => m.Shifts after quiet m')
      (Work.push c m₁) := by
  have hheight := h.height
  have hcap := h.stackCapacity
  simp only [Work.push, bind, EStateM.bind, get, getThe, MonadStateOf.get, EStateM.get]
  split
  · exact
      { refs := h.refs
        height := by simp only [List.length_cons]; omega
        locals := h.locals
        stackCapacity := hcap
        loops := h.loops
        pc := h.pc
        warnings := fun _ => h.warnings }
  · have hgiven : Upholds (m.Stops needs after valid quiet) (fun _ m₂ => m.Lowered n m₂)
        (Work.release c m₁) := h.calm (Work.Calm.release c)
    simp only [EStateM.bind]
    cases hresult : Work.release c m₁ with
    | ok u m₂ =>
        rw [hresult] at hgiven
        exact Lowered.overflow hgiven (by omega)
    | error f m₂ =>
        rw [hresult] at hgiven
        exact hgiven

theorem Lowered.pushResult (h : m.Lowered n m₁) (r : Registry) (declared : Ty) (member : String)
    (v : Value) (hafter : m.stack.length - n + 1 = after) :
    Upholds (m.Stops needs after valid quiet) (fun _ m' => m.Shifts after quiet m')
      (Work.pushResult r declared member v m₁) := by
  unfold Work.pushResult
  split
  · exact h.push .null hafter
  · split
    · exact (h.calm (Work.Calm.ofValue v)).bind fun c m₂ h₂ => h₂.push c hafter
    · exact h.incidental rfl

-- A value that does not fit is given back.
theorem Lowered.refuse (h : m.Lowered n m₁) (c : Cell) {f : Fault} (hf : f.incidental = true) :
    Upholds (m.Stops needs after valid quiet) R
      ((do Work.release c; throw f : Work β) m₁) :=
  (h.calm (Work.Calm.release c)).bind fun _ _ h₂ => h₂.incidental hf

theorem Lowered.popArgs (h : m.Lowered n m₁) {count : Nat} (hneeds : n + count ≤ needs) :
    Upholds (m.Stops needs after valid quiet) (fun _ m₂ => m.Lowered (n + count) m₂)
      (Work.popArgs count m₁) := by
  exact (h.popMany hneeds).bind fun cells _ h₂ =>
    h₂.attempt_settle (Work.Calm.reads.toValues cells) (Work.Calm.reads.releaseAll cells)

end

end Machine

end HostScript
