import HostScript.Proofs.Levels.Mirror

namespace HostScript

namespace Instr

-- Instructions that name nothing in the pool of texts.
def namesNoText : Instr → Bool
  | .pushString _ | .invokeDynamic _ _ | .getDynamicProperty _ | .setDynamicProperty _ => false
  | _ => true

end Instr

-- Two instructions that do the same in the two layouts, wherever the runs are. Texts may have
-- different numbers in their pools.
inductive Levels.Twin (T : Levels) : Instr → Instr → Prop
  | same {i : Instr} : i.isLocated = false → i.namesNoText = true → Twin T i i
  | pushString {s : String} {a b : UInt16} : T.slow.Text a s → T.fast.Text b s →
      Twin T (.pushString a) (.pushString b)
  | getDynamicProperty {s : String} {a b : UInt16} : T.slow.Text a s → T.fast.Text b s →
      Twin T (.getDynamicProperty a) (.getDynamicProperty b)
  | setDynamicProperty {s : String} {a b : UInt16} : T.slow.Text a s → T.fast.Text b s →
      Twin T (.setDynamicProperty a) (.setDynamicProperty b)
  | invokeDynamic {s : String} {a b argc : UInt16} : T.slow.Text a s → T.fast.Text b s →
      Twin T (.invokeDynamic a argc) (.invokeDynamic b argc)

theorem Levels.env_registry (T : Levels) : T.fast.env.registry = T.slow.env.registry :=
  T.registry

theorem poolString_of_text {L : Layout} {a : UInt16} {s : String} (h : L.Text a s) :
    Work.poolString L.env a = pure s := by
  have h : L.env.script.strings[a.toNat]? = some s := h
  simp only [Work.poolString, h]

namespace Levels.Twin

variable {T : Levels} {i₀ i₁ : Instr}

theorem flow_eq (h : T.Twin i₀ i₁) : i₁.flow = i₀.flow := by
  cases h <;> rfl

variable [HostHooks]

theorem effect_eq (h : T.Twin i₀ i₁) : Work.effect T.fast.env i₁ = Work.effect T.slow.env i₀ := by
  cases h with
  | same hlocated hnames =>
      cases i₀ with
      | pushString | invokeDynamic | getDynamicProperty | setDynamicProperty => cases hnames
      | loadLoc | loadLocNoRef | setLoc | setLocNoRef | jump | jumpIf | loop | loopNum => cases hlocated
      | invoke | invokeStatic | getProperty | setProperty | getStaticProperty | setStaticProperty
      | new | checkType | peekCheckType => simp only [Work.effect, T.env_registry]
      | _ => rfl
  | pushString h₀ h₁ => simp only [Work.effect, poolString_of_text h₀, poolString_of_text h₁]
  | getDynamicProperty h₀ h₁ =>
      simp only [Work.effect, Work.getDynamicProperty, poolString_of_text h₀, poolString_of_text h₁,
        T.env_registry]
  | setDynamicProperty h₀ h₁ =>
      simp only [Work.effect, Work.setDynamicProperty, poolString_of_text h₀, poolString_of_text h₁,
        T.env_registry]
  | invokeDynamic h₀ h₁ =>
      simp only [Work.effect, Work.invokeDynamic, poolString_of_text h₀, poolString_of_text h₁,
        T.env_registry]

theorem hostCall_eq (h : T.Twin i₀ i₁) :
    Work.hostCall T.fast.env i₁ = Work.hostCall T.slow.env i₀ := by
  cases h with
  | same _ hnames =>
      cases i₀ with
      | invokeDynamic | getDynamicProperty | setDynamicProperty => cases hnames
      | invoke | invokeStatic | getProperty | setProperty | getStaticProperty | setStaticProperty
      | new => simp only [Work.hostCall, T.env_registry]
      | _ => rfl
  | pushString h₀ h₁ => rfl
  | getDynamicProperty h₀ h₁ =>
      simp only [Work.hostCall, poolString_of_text h₀, poolString_of_text h₁, T.env_registry]
  | setDynamicProperty h₀ h₁ =>
      simp only [Work.hostCall, poolString_of_text h₀, poolString_of_text h₁, T.env_registry]
  | invokeDynamic h₀ h₁ =>
      simp only [Work.hostCall, poolString_of_text h₀, poolString_of_text h₁, T.env_registry]

theorem blind (h : T.Twin i₀ i₁) : Work.Blind (Work.effect T.slow.env i₀) := by
  refine Work.effect_blind _ ?_
  cases h with
  | same hlocated _ => exact hlocated
  | _ => rfl

end Levels.Twin

-- The calls of an instruction do not depend on where it is.
theorem Machine.callsOf_standing [HostHooks] (env : RunEnv) (i : Instr) (m : Machine)
    (locals : Array Cell) (loops : List LoopFrame) (pc : Nat) :
    Machine.callsOf env i (m.standing locals loops pc) = Machine.callsOf env i m := by
  have hblind : Work.Blind (Work.hostCall env i) := Work.Blind.calculates.hostCall env i
  rw [Machine.callsOf, hblind.standing, Machine.callsOf]
  cases Work.hostCall env i m <;> rfl

namespace Levels.Twin

variable [HostHooks] {T : Levels} {i₀ i₁ : Instr}

theorem calls_eq (h : T.Twin i₀ i₁) (m : Machine) (l₀ l₁ : Array Cell) (loops : List LoopFrame)
    (q₀ q₁ : Nat) : Machine.callsOf T.slow.env i₀ (m.standing l₀ [] q₀) =
      Machine.callsOf T.fast.env i₁ (m.standing l₁ loops q₁) := by
  rw [Machine.callsOf_standing, Machine.callsOf_standing, Machine.callsOf, Machine.callsOf,
    h.hostCall_eq]

-- What one run does, the other one does too.
theorem effect_standing (h : T.Twin i₀ i₁) {m m₀' : Machine} {l₀ : Array Cell} {q₀ : Nat}
    (l₁ : Array Cell) (loops : List LoopFrame) (q₁ : Nat)
    (heffect : Work.effect T.slow.env i₀ (m.standing l₀ [] q₀) = .ok () m₀') :
    ∃ m' : Machine, Work.effect T.slow.env i₀ m = .ok () m' ∧ m₀' = m'.standing l₀ [] q₀ ∧
      Work.effect T.fast.env i₁ (m.standing l₁ loops q₁) = .ok () (m'.standing l₁ loops q₁) := by
  rw [h.blind.standing] at heffect
  rw [h.effect_eq, h.blind.standing]
  cases hresult : Work.effect T.slow.env i₀ m with
  | ok u m' =>
      rw [hresult] at heffect
      cases heffect
      exact ⟨m', rfl, rfl, rfl⟩
  | error f m' =>
      rw [hresult] at heffect
      cases heffect

end Levels.Twin

theorem Layout.At.lt_size {L : Layout} {i : Instr} {p q : Nat} (h : L.At p i q) :
    p < L.script.code.size :=
  CompiledScript.lt_size_of_fetch h

namespace Work

variable {L : Layout} {t : Int32} {target : Nat}

theorem jumpTarget_of_goes (h : L.Goes t target) : jumpTarget L.env t = pure target := by
  obtain ⟨ht, hsize⟩ := h
  have hin : 0 ≤ t.toInt ∧ t.toInt ≤ L.env.script.code.size := by
    rw [ht]
    exact ⟨Int.natCast_nonneg _, Int.ofNat_le.mpr hsize⟩
  rw [jumpTarget, if_pos hin, ht]
  rfl

variable [HostHooks]

-- Putting the value of a variable on the stack, with one reference more where that is counted.
def borrow (holdsRef : Bool) (c : Cell) : Work Unit :=
  match holdsRef, c.handle? with
  | true, some h => do
    onRefs fun t => do return ((), ← t.addRef h)
    push c
  | _, _ => push c

-- Giving up the old value of a variable.
def giveUp (holdsRef : Bool) (old : Cell) : Work Unit :=
  if holdsRef then release old else pure ()

theorem borrow_blind (holdsRef : Bool) (c : Cell) : Blind (borrow holdsRef c) := by
  unfold borrow
  split
  · exact (Blind.onRefs _).bind fun _ => .push c
  · exact .push c

theorem giveUp_blind (holdsRef : Bool) (old : Cell) : Blind (giveUp holdsRef old) := by
  cases holdsRef with
  | false => exact .pure ()
  | true => exact .release old

variable {env : RunEnv} {holdsRef : Bool} {slot : UInt8} {m m' : Machine}

theorem effect_load {c : Cell} (h : m.locals[slot.toNat]? = some c) :
    effect env (Layout.loadInstr holdsRef slot) m = borrow holdsRef c m := by
  cases holdsRef with
  | false =>
      simp only [Layout.loadInstr, Bool.false_eq_true, if_false, effect, borrow, bind, EStateM.bind,
        loadLocal, h]
  | true =>
      simp only [Layout.loadInstr, if_true, effect, loadLoc, borrow, bind, EStateM.bind, loadLocal, h]
      cases c.handle? <;> rfl

theorem loaded {u : Unit} (h : effect env (Layout.loadInstr holdsRef slot) m = .ok u m') :
    ∃ c, m.locals[slot.toNat]? = some c := by
  cases hc : m.locals[slot.toNat]? with
  | some c => exact ⟨c, rfl⟩
  | none =>
      cases holdsRef <;>
        simp [Layout.loadInstr, effect, loadLoc, bind, EStateM.bind, loadLocal, hc] at h

theorem effect_store {old c : Cell} {stack : List Cell} (hold : m.locals[slot.toNat]? = some old)
    (hstack : m.stack = c :: stack) : effect env (Layout.storeInstr holdsRef slot) m =
      giveUp holdsRef old { m with stack, locals := m.locals.setIfInBounds slot.toNat c } := by
  cases holdsRef with
  | false =>
      simp only [Layout.storeInstr, Bool.false_eq_true, if_false, effect, setLocNoRef, giveUp, bind,
        EStateM.bind, loadLocal, pop, storeLocal, hold, hstack]
      rfl
  | true =>
      simp only [Layout.storeInstr, if_true, effect, setLoc, giveUp, bind,
        EStateM.bind, loadLocal, pop, storeLocal, hold, hstack]
      rfl

theorem stored {u : Unit} (h : effect env (Layout.storeInstr holdsRef slot) m = .ok u m') :
    ∃ old c stack, m.locals[slot.toNat]? = some old ∧ m.stack = c :: stack := by
  cases hold : m.locals[slot.toNat]? with
  | none =>
      cases holdsRef <;>
        simp [Layout.storeInstr, effect, setLoc, setLocNoRef, bind, EStateM.bind, loadLocal, hold] at h
  | some old =>
      cases hstack : m.stack with
      | cons c stack => exact ⟨old, c, stack, rfl, rfl⟩
      | nil =>
          cases holdsRef <;> simp [Layout.storeInstr, effect, setLoc, setLocNoRef, bind, EStateM.bind,
            loadLocal, pop, hold, hstack] at h

theorem refuse_ne_ok {α : Type} {c : Cell} {f : Fault} {a : α} :
    (do release c; throw f : Work α) m ≠ .ok a m' := by
  simp only [bind, EStateM.bind]
  cases release c m <;> exact nofun

theorem pushed {c : Cell} {u : Unit} (h : push c m = .ok u m') :
    m' = { m with stack := c :: m.stack } := by
  rw [push_eq] at h
  split at h
  · cases h
    rfl
  · exact absurd h refuse_ne_ok

theorem effect_jump (h : L.Goes t target) :
    effect L.env (.jump t) m = .ok () { m with pc := target } := by
  simp only [effect, jump, jumpTarget_of_goes h]
  rfl

-- What a jump does that depends on the value on top.
theorem effect_jumpIf {on b : Bool} {stack : List Cell} (h : L.Goes t target)
    (hstack : m.stack = .bool b :: stack) : effect L.env (.jumpIf on t) m =
      .ok () { m with stack, pc := if b = on then target else m.pc } := by
  simp only [effect, jumpIf, jumpTarget_of_goes h]
  simp only [pure, EStateM.pure, bind, EStateM.bind, pop, hstack]
  by_cases hb : b = on
  · simp only [hb, if_true]
    rfl
  · simp only [hb, if_false]
    rfl

theorem jumped {on : Bool} {u : Unit} (h : L.Goes t target)
    (heffect : effect L.env (.jumpIf on t) m = .ok u m') : ∃ b stack, m.stack = .bool b :: stack := by
  simp only [effect, jumpIf, jumpTarget_of_goes h] at heffect
  simp only [pure, EStateM.pure, bind, EStateM.bind, pop] at heffect
  cases hstack : m.stack with
  | nil => simp [hstack] at heffect
  | cons c stack =>
      cases c with
      | bool b => exact ⟨b, stack, rfl⟩
      | _ =>
          rw [hstack] at heffect
          exact absurd heffect refuse_ne_ok

end Work

namespace Levels

variable [HostHooks] {T : Levels} {n : Nat} {m : Machine} {l₀ l₁ : Array Cell} {loops : List LoopFrame}
  {p₀ p₁ q₀ q₁ : Nat}

-- Both runs at an instruction that does the same wherever they are.
theorem Twin.mirrors {i₀ i₁ : Instr} (h : T.Twin i₀ i₁) (h₀ : T.slow.At p₀ i₀ q₀)
    (h₁ : T.fast.At p₁ i₁ q₁) (hq : q₁ ≤ T.fast.rangeEnd loops) (hflow : i₀.flow = .next)
    (hnext : ∀ m' : Machine, Work.effect T.slow.env i₀ m = .ok () m' →
      T.Mirrors n (m'.standing l₀ [] q₀) (m'.standing l₁ loops q₁)) :
    T.Mirrors (n + 1) (m.standing l₀ [] p₀) (m.standing l₁ loops p₁) := by
  refine Mirrors.both h₀ h₁ rfl rfl h₀.lt_size (Nat.lt_of_lt_of_le h₁.lt hq) hflow
    (h.flow_eq.trans hflow) (h.calls_eq m l₀ l₁ loops q₀ q₁) fun m₀' heffect => ?_
  obtain ⟨m', hm, hm₀, hm₁⟩ := h.effect_standing (m := m) l₁ loops q₁ heffect
  exact ⟨_, hm₁, hm₀ ▸ hnext m' hm⟩

-- Both runs at an instruction that ends the script.
theorem Twin.stops {i : Instr} (h : T.Twin i i) (h₀ : T.slow.At p₀ i q₀) (h₁ : T.fast.At p₁ i q₁)
    (hq : q₁ ≤ T.fast.rangeEnd loops) (hflow : i.flow = .stop) :
    T.Mirrors n (m.standing l₀ [] p₀) (m.standing l₁ loops p₁) := by
  refine Mirrors.stop h₀ h₁ rfl rfl h₀.lt_size (Nat.lt_of_lt_of_le h₁.lt hq) hflow hflow
    (h.calls_eq m l₀ l₁ loops q₀ q₁) fun m₀' heffect => ?_
  obtain ⟨m', -, rfl, hm₁⟩ := h.effect_standing l₁ loops q₁ heffect
  exact ⟨_, hm₁, rfl, rfl, rfl⟩

-- Both runs jump. Jumps back cost the slow run a step.
theorem jump_mirrors {t₀ t₁ : Nat} (h₀ : T.slow.Jump p₀ q₀ t₀) (h₁ : T.fast.Jump p₁ q₁ t₁)
    (hq : q₁ ≤ T.fast.rangeEnd loops)
    (hnext : T.Mirrors n (m.standing l₀ [] t₀) (m.standing l₁ loops t₁)) :
    T.Mirrors (n + 1) (m.standing l₀ [] p₀) (m.standing l₁ loops p₁) := by
  obtain ⟨a, hat₀, hgoes₀⟩ := h₀
  obtain ⟨b, hat₁, hgoes₁⟩ := h₁
  refine Mirrors.both hat₀ hat₁ rfl rfl hat₀.lt_size (Nat.lt_of_lt_of_le hat₁.lt hq) rfl rfl rfl
    fun m₀' heffect => ?_
  rw [Work.effect_jump hgoes₀] at heffect
  cases heffect
  exact ⟨_, Work.effect_jump hgoes₁, hnext⟩

theorem jumpIf_mirrors {on : Bool} {t₀ t₁ : Nat} (h₀ : T.slow.JumpIf on p₀ q₀ t₀)
    (h₁ : T.fast.JumpIf on p₁ q₁ t₁) (hq : q₁ ≤ T.fast.rangeEnd loops)
    (hthere : ∀ m' : Machine, T.Mirrors n (m'.standing l₀ [] t₀) (m'.standing l₁ loops t₁))
    (hnext : ∀ m' : Machine, T.Mirrors n (m'.standing l₀ [] q₀) (m'.standing l₁ loops q₁)) :
    T.Mirrors n (m.standing l₀ [] p₀) (m.standing l₁ loops p₁) := by
  obtain ⟨a, hat₀, hgoes₀⟩ := h₀
  obtain ⟨b, hat₁, hgoes₁⟩ := h₁
  refine Mirrors.mono (Mirrors.both hat₀ hat₁ rfl rfl hat₀.lt_size
    (Nat.lt_of_lt_of_le hat₁.lt hq) rfl rfl rfl fun m₀' heffect => ?_) (Nat.le_succ n)
  obtain ⟨c, stack, hstack⟩ := Work.jumped hgoes₀ heffect
  rw [Work.effect_jumpIf hgoes₀ hstack] at heffect
  cases heffect
  refine ⟨_, Work.effect_jumpIf hgoes₁ hstack, ?_⟩
  by_cases hc : c = on
  · simp only [hc, if_true]
    exact hthere { m with stack }
  · simp only [hc, if_false]
    exact hnext { m with stack }

-- Both runs do the same work, which does not depend on where they are, once their variables have
-- been seen to.
theorem Mirrors.alike {i₀ i₁ : Instr} (h₀ : T.slow.At p₀ i₀ q₀) (h₁ : T.fast.At p₁ i₁ q₁)
    (hq : q₁ ≤ T.fast.rangeEnd loops) (hflow₀ : i₀.flow = .next) (hflow₁ : i₁.flow = .next)
    (hcalls : ∀ m, Machine.callsOf T.slow.env i₀ m = [])
    (hcalls₁ : ∀ m, Machine.callsOf T.fast.env i₁ m = [])
    (heffect : ∀ m₀', Work.effect T.slow.env i₀ (m.standing l₀ [] q₀) = .ok () m₀' →
      ∃ (x : Work Unit) (mx : Machine) (l₀' l₁' : Array Cell), Work.Blind x ∧
        Work.effect T.slow.env i₀ (m.standing l₀ [] q₀) = x (mx.standing l₀' [] q₀) ∧
        Work.effect T.fast.env i₁ (m.standing l₁ loops q₁) = x (mx.standing l₁' loops q₁) ∧
        ∀ m' : Machine, T.Mirrors n (m'.standing l₀' [] q₀) (m'.standing l₁' loops q₁)) :
    T.Mirrors n (m.standing l₀ [] p₀) (m.standing l₁ loops p₁) := by
  refine Mirrors.mono (Mirrors.both h₀ h₁ rfl rfl h₀.lt_size (Nat.lt_of_lt_of_le h₁.lt hq) hflow₀
    hflow₁ ((hcalls _).trans (hcalls₁ _).symm) fun m₀' hrun => ?_) (Nat.le_succ n)
  obtain ⟨x, mx, l₀', l₁', hx, hslow, hfast, hnext⟩ := heffect m₀' hrun
  have hfast' : Work.effect T.fast.env i₁ { m.standing l₁ loops p₁ with pc := q₁ } =
      x (mx.standing l₁' loops q₁) := hfast
  have hrun' : x (mx.standing l₀' [] q₀) = .ok () m₀' := hslow.symm.trans hrun
  rw [hfast', hx.standing]
  rw [hx.standing] at hrun'
  cases hresult : x mx with
  | error f m' =>
      rw [hresult] at hrun'
      cases hrun'
  | ok u m' =>
      rw [hresult] at hrun'
      cases hrun'
      exact ⟨_, rfl, hnext m'⟩

-- Both runs read a variable that holds the same.
theorem load_mirrors {holdsRef : Bool} {s₀ s₁ : UInt8}
    (h₀ : T.slow.At p₀ (Layout.loadInstr holdsRef s₀) q₀)
    (h₁ : T.fast.At p₁ (Layout.loadInstr holdsRef s₁) q₁) (hq : q₁ ≤ T.fast.rangeEnd loops)
    (hsame : l₁[s₁.toNat]? = l₀[s₀.toNat]?)
    (hnext : ∀ m' : Machine, T.Mirrors n (m'.standing l₀ [] q₀) (m'.standing l₁ loops q₁)) :
    T.Mirrors n (m.standing l₀ [] p₀) (m.standing l₁ loops p₁) := by
  refine Mirrors.alike h₀ h₁ hq (by cases holdsRef <;> rfl) (by cases holdsRef <;> rfl)
    (by cases holdsRef <;> exact fun _ => rfl) (by cases holdsRef <;> exact fun _ => rfl)
    fun m₀' hrun => ?_
  obtain ⟨c, hc⟩ := Work.loaded hrun
  exact ⟨Work.borrow holdsRef c, m, l₀, l₁, Work.borrow_blind holdsRef c, Work.effect_load hc,
    Work.effect_load (hsame.trans hc), hnext⟩

-- Both runs write the same into a variable whose old value is given up in the same way.
theorem store_mirrors {holdsRef : Bool} {s₀ s₁ : UInt8}
    (h₀ : T.slow.At p₀ (Layout.storeInstr holdsRef s₀) q₀)
    (h₁ : T.fast.At p₁ (Layout.storeInstr holdsRef s₁) q₁) (hq : q₁ ≤ T.fast.rangeEnd loops)
    (hold : ∀ old, l₀[s₀.toNat]? = some old → ∃ old₁, l₁[s₁.toNat]? = some old₁ ∧
      (holdsRef = true → old₁ = old))
    (hnext : ∀ (m' : Machine) (c : Cell), m.stack.head? = some c → s₀.toNat < l₀.size →
      s₁.toNat < l₁.size → T.Mirrors n (m'.standing (l₀.setIfInBounds s₀.toNat c) [] q₀)
        (m'.standing (l₁.setIfInBounds s₁.toNat c) loops q₁)) :
    T.Mirrors n (m.standing l₀ [] p₀) (m.standing l₁ loops p₁) := by
  refine Mirrors.alike h₀ h₁ hq (by cases holdsRef <;> rfl) (by cases holdsRef <;> rfl)
    (by cases holdsRef <;> exact fun _ => rfl) (by cases holdsRef <;> exact fun _ => rfl)
    fun m₀' hrun => ?_
  obtain ⟨old, c, stack, hold₀, hstack⟩ := Work.stored hrun
  obtain ⟨old₁, hold₁, hsame⟩ := hold old hold₀
  have hgive : Work.giveUp holdsRef old₁ = Work.giveUp holdsRef old := by
    cases holdsRef with
    | false => rfl
    | true => rw [hsame rfl]
  refine ⟨Work.giveUp holdsRef old, { m with stack }, _, _, Work.giveUp_blind holdsRef old,
    Work.effect_store hold₀ hstack, ?_, fun m' => hnext m' c ?_ ?_ ?_⟩
  · rw [← hgive]
    exact Work.effect_store hold₁ hstack
  · rw [show m.stack = c :: stack from hstack, List.head?_cons]
  · exact (Array.getElem?_eq_some_iff.mp hold₀).1
  · exact (Array.getElem?_eq_some_iff.mp hold₁).1

end Levels

end HostScript
