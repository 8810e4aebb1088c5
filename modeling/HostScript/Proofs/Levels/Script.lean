import HostScript.Proofs.Compile.Stack
import HostScript.Proofs.Levels.Agreement
import HostScript.Proofs.Machine.Cycle
import HostScript.Proofs.Machine.Runs

namespace HostScript

open CompiledScript

-- Two lines for one input in the tables of the two layouts.
structure Levels.SameInput (T : Levels) (entry₀ entry₁ : String × InputSlot) : Prop where
  name : entry₁.1 = entry₀.1
  ty : entry₁.2.ty = entry₀.2.ty
  plain : PlainName entry₀.1
  slot₀ : T.slow.slots[entry₀.2.slot]? = some entry₀.1
  slot₁ : T.fast.slots[entry₁.2.slot]? = some entry₀.1

namespace Levels

variable {T : Levels}

theorem sameInputs_putSorted {name : String} {slot₀ slot₁ : InputSlot}
    {table₀ table₁ : List (String × InputSlot)} (h : T.SameInput (name, slot₀) (name, slot₁))
    (hrest : List.Forall₂ T.SameInput table₀ table₁) :
    List.Forall₂ T.SameInput (putSorted name slot₀ table₀) (putSorted name slot₁ table₁) := by
  induction hrest with
  | nil => exact .cons h .nil
  | @cons other₀ other₁ rest₀ rest₁ hother hrest ih =>
      obtain ⟨name₀, other₀⟩ := other₀
      obtain ⟨name₁, other₁⟩ := other₁
      obtain rfl : name₁ = name₀ := hother.name
      simp only [putSorted]
      split
      · rename_i hname
        exact .cons (hname ▸ h) hrest
      · split
        · exact .cons h (.cons hother hrest)
        · exact .cons hother ih

-- The tables name the same inputs in the same order.
theorem sameInputs_inputTable {inputs : List InputVar} {table₀ table₁ : List (String × InputSlot)}
    (hnames : ∀ v ∈ inputs, PlainName v.name) (h₀ : inputTable T.slow.slots inputs = .ok table₀)
    (h₁ : inputTable T.fast.slots inputs = .ok table₁) :
    List.Forall₂ T.SameInput table₀ table₁ := by
  induction inputs generalizing table₀ table₁ with
  | nil =>
      cases h₀
      cases h₁
      exact .nil
  | cons v rest ih =>
      simp only [inputTable] at h₀ h₁
      cases hi₀ : T.slow.slots.idxOf? v.name with
      | none =>
          rw [hi₀] at h₀
          cases h₀
      | some i₀ =>
          cases hi₁ : T.fast.slots.idxOf? v.name with
          | none =>
              rw [hi₁] at h₁
              cases h₁
          | some i₁ =>
              rw [hi₀] at h₀
              rw [hi₁] at h₁
              obtain ⟨others₀, hothers₀, h₀⟩ := except_bind_ok.mp h₀
              obtain ⟨others₁, hothers₁, h₁⟩ := except_bind_ok.mp h₁
              cases h₀
              cases h₁
              obtain ⟨hlt₀, hname₀, -⟩ := List.idxOf?_eq_some_iff.mp hi₀
              obtain ⟨hlt₁, hname₁, -⟩ := List.idxOf?_eq_some_iff.mp hi₁
              refine sameInputs_putSorted ⟨rfl, rfl, hnames v (by simp), ?_, ?_⟩
                (ih (fun w hw => hnames w (by simp [hw])) hothers₀ hothers₁)
              · rw [List.getElem?_eq_getElem hlt₀, hname₀]
              · rw [List.getElem?_eq_getElem hlt₁, hname₁]

end Levels

namespace Machine

variable [HostHooks] {r : Registry} {name : String} {v : Value} {m m₀ : Machine} {l₀ l₁ : Array Cell}
  {slot₀ slot₁ : InputSlot}

-- An input that one run binds is bound in the other one, too.
theorem bindInput_standing (hty : slot₁.ty = slot₀.ty) (hlt₁ : slot₁.slot < l₁.size)
    (h : bindInput r name slot₀ v (m.standing l₀ [] 0) = .ok () m₀) :
    ∃ (m' : Machine) (c : Cell), slot₀.slot < l₀.size ∧
      m₀ = m'.standing (l₀.setIfInBounds slot₀.slot c) [] 0 ∧
      bindInput r name slot₁ v (m.standing l₁ [] 0) =
        .ok () (m'.standing (l₁.setIfInBounds slot₁.slot c) [] 0) := by
  have hlocal₁ := Array.getElem?_eq_getElem hlt₁
  simp only [bindInput, hty] at h ⊢
  split at h
  · rename_i hadmits
    rw [if_pos hadmits]
    simp only [bind, EStateM.bind, Work.loadLocal] at h ⊢
    cases hlocal₀ : l₀[slot₀.slot]? with
    | none => simp [standing, hlocal₀] at h
    | some old =>
        have hat₀ : ∀ m' : Machine, (m'.standing l₀ [] 0).locals[slot₀.slot]? = some old :=
          fun _ => hlocal₀
        have hat₁ : ∀ m' : Machine, (m'.standing l₁ [] 0).locals[slot₁.slot]? = some l₁[slot₁.slot] :=
          fun _ => hlocal₁
        simp only [hat₀, hat₁, (Work.Blind.ofValue v).standing] at h ⊢
        cases hvalue : Work.ofValue v m with
        | error f m' => simp [hvalue, Work.onMachine] at h
        | ok c m' =>
            simp only [hvalue, Work.onMachine, Work.storeLocal, bind, EStateM.bind, Work.loadLocal,
              hat₀, hat₁] at h ⊢
            cases h
            exact ⟨m', c, (Array.getElem?_eq_some_iff.mp hlocal₀).1, rfl, rfl⟩
  · cases h

end Machine

theorem Layout.slot_ofNat {L : Layout} {name : String} {i : Nat} (hroom : L.slots.length ≤ 256)
    (h : L.slots[i]? = some name) : L.Slot name (UInt8.ofNat i) ∧ (UInt8.ofNat i).toNat = i := by
  have hlt := (List.getElem?_eq_some_iff.mp h).1
  have hsame : (UInt8.ofNat i).toNat = i := UInt8.toNat_ofNat_of_lt (Nat.lt_of_lt_of_le hlt hroom)
  refine ⟨?_, hsame⟩
  rw [Layout.Slot, hsame]
  exact h

namespace Levels

variable {T : Levels} {r : Registry} {supplied : List (String × Value)} {m m₀ : Machine}
  {l₀ l₁ : Array Cell}

-- Before the inputs are bound all variables are null.
theorem alike_null {n₀ n₁ : Nat} (h₀ : T.slow.slots.length ≤ n₀) (h₁ : T.fast.slots.length ≤ n₁) :
    T.Alike 0 0 (Array.replicate n₀ .null) (Array.replicate n₁ .null) where
  named := by
    intro name s₀ s₁ _ hs₀ hs₁
    have hlt₀ := Layout.slot_lt hs₀
    have hlt₁ := Layout.slot_lt hs₁
    rw [Array.getElem?_replicate, Array.getElem?_replicate, if_pos (by omega), if_pos (by omega)]
  room := by
    rw [Array.size_replicate]
    exact h₁
  vacant₀ := by
    intro j s c _ _ hc
    rw [Array.getElem?_replicate] at hc
    split at hc
    · cases hc
      rfl
    · cases hc
  vacant₁ := by
    intro j s c _ _ hc
    rw [Array.getElem?_replicate] at hc
    split at hc
    · cases hc
      rfl
    · cases hc

variable [HostHooks]

-- All inputs are bound in both runs, or the slow one ends there.
theorem bindInputs_standing {table₀ table₁ : List (String × InputSlot)}
    (htables : List.Forall₂ T.SameInput table₀ table₁) (hroom₀ : T.slow.slots.length ≤ 256)
    (hroom₁ : T.fast.slots.length ≤ 256) (halike : T.Alike 0 0 l₀ l₁)
    (h : Machine.bindInputs r supplied table₀ (m.standing l₀ [] 0) = .ok () m₀) :
    ∃ (m' : Machine) (l₀' l₁' : Array Cell), T.Alike 0 0 l₀' l₁' ∧ m₀ = m'.standing l₀' [] 0 ∧
      Machine.bindInputs r supplied table₁ (m.standing l₁ [] 0) = .ok () (m'.standing l₁' [] 0) := by
  induction htables generalizing m l₀ l₁ with
  | nil =>
      cases h
      exact ⟨m, l₀, l₁, halike, rfl, rfl⟩
  | @cons entry₀ entry₁ rest₀ rest₁ hentry hrest ih =>
      obtain ⟨name₀, slot₀⟩ := entry₀
      obtain ⟨name₁, slot₁⟩ := entry₁
      obtain rfl : name₁ = name₀ := hentry.name
      obtain ⟨hs₀, hn₀⟩ := Layout.slot_ofNat hroom₀ hentry.slot₀
      obtain ⟨hs₁, hn₁⟩ := Layout.slot_ofNat hroom₁ hentry.slot₁
      have hlt₁ : slot₁.slot < l₁.size :=
        Nat.lt_of_lt_of_le (List.getElem?_eq_some_iff.mp hentry.slot₁).1 halike.room
      simp only [Machine.bindInputs, bind, EStateM.bind] at h ⊢
      cases hbind : Machine.bindInput r name₁ slot₀ (Machine.suppliedValue supplied name₁)
          (m.standing l₀ [] 0) with
      | error f m' => simp [hbind] at h
      | ok u m' =>
          obtain ⟨m₂, c, hlt₀, rfl, hbind₁⟩ := Machine.bindInput_standing hentry.ty hlt₁ hbind
          rw [hbind] at h
          rw [hbind₁]
          refine ih ?_ h
          rw [← hn₀] at hlt₀ ⊢
          rw [← hn₁] at hlt₁ ⊢
          exact (halike.assign hentry.plain hs₀ hs₁ hlt₀ hlt₁ c).alike

-- Both runs go through the whole script in the same way.
theorem script_mirrors {script : Script} {inputs : List InputVar} {n : Nat}
    (hplain : Stmt.AllPlain script) (h₀ : T.slow.Carries inputs script)
    (h₁ : T.fast.Carries inputs script) (halike : T.Alike 0 0 l₀ l₁) :
    T.Mirrors n (m.standing l₀ [] 0) (m.standing l₁ [] 0) := by
  obtain ⟨q₀, k₀, hcode₀, hat₀⟩ := h₀.code
  obtain ⟨q₁, k₁, hcode₁, hat₁⟩ := h₁.code
  refine (Runs.stmts T script hplain hcode₀ hcode₁).go halike (Nat.le_of_lt hat₁.lt)
    (fun m' l₀' l₁' _ => ?_) fun _ _ _ _ _ _ he => by cases he
  exact (Twin.same rfl rfl).stops hat₀ hat₁ (Nat.le_refl _) rfl

end Levels

namespace Machine

-- The calls of the host in the first `count` steps of a run.
def firstCalls [HostHooks] (env : RunEnv) (inputs : List (String × Value)) (count : Nat) (m : Machine) :
    List HostCall :=
  match bindInputs env.registry inputs env.script.inputs (m.prepare env.script.localsCount) with
  | .ok _ m => m.hostCalls env count
  | .error _ _ => []

-- A counted loop of the script with these variables counts up to the given number.
def CountsTo (slots : List String) (m : Machine) (x : Float) : Prop :=
  ∃ slot k : Nat, slots[slot]? = some (hiddenName "limit" k) ∧ m.locals[slot]? = some (.number x)

theorem run_finished_iff [HostHooks] {env : RunEnv} {fuel : Nat} {inputs : List (String × Value)}
    {m m' : Machine} : m.runInOrder env fuel inputs = (.finished, m') ↔
      ∃ m₁, m.firstSteps env inputs fuel = (.finished, m₁) ∧ m' = m₁.reset := by
  simp only [runInOrder, firstSteps]
  generalize (m.prepare env.script.localsCount).execute env fuel inputs = result
  obtain ⟨outcome, m₁⟩ := result
  cases outcome <;> simp [eq_comm]

end Machine

namespace Levels

variable [HostHooks] {T : Levels} {script : Script} {inputs : List InputVar}
  {supplied : List (String × Value)} {m m₀ : Machine} {fuel : Nat}

-- A run that the slow script finishes is finished by the fast one.
theorem exists_run (hplain : Stmt.AllPlain script) (hnames : ∀ v ∈ inputs, PlainName v.name)
    (h₀ : T.slow.Carries inputs script) (h₁ : T.fast.Carries inputs script)
    (hrun : m.firstSteps T.slow.env supplied fuel = (.finished, m₀))
    (hcounts : ∀ k m' x, m.firstSteps T.slow.env supplied k = (.outOfFuel, m') →
      m'.CountsTo T.slow.slots x → Number.Countable x) :
    ∃ fuel' m₁, m.firstSteps T.fast.env supplied fuel' = (.finished, m₁) ∧ m₀.SameEnd m₁ ∧
      m.firstCalls T.fast.env supplied fuel' = m.firstCalls T.slow.env supplied fuel := by
  simp only [Machine.firstSteps, Machine.execute, Machine.firstCalls] at hrun hcounts ⊢
  have hempty : T.Alike 0 0 (Array.replicate (max m.locals.size T.slow.script.localsCount) .null)
      (Array.replicate (max m.locals.size T.fast.script.localsCount) .null) :=
    alike_null (h₀.size ▸ Nat.le_max_right _ _) (h₁.size ▸ Nat.le_max_right _ _)
  cases hbind₀ : Machine.bindInputs T.slow.env.registry supplied T.slow.env.script.inputs
      (m.prepare T.slow.env.script.localsCount) with
  | error f m' => simp [hbind₀] at hrun
  | ok _ ready₀ =>
      have hbind : Machine.bindInputs T.slow.env.registry supplied T.slow.script.inputs
          ((m.prepare 0).standing (Array.replicate (max m.locals.size T.slow.script.localsCount) .null)
            [] 0) = .ok () ready₀ := hbind₀
      obtain ⟨ready, l₀, l₁, halike, rfl, hbind₁⟩ := bindInputs_standing
        (sameInputs_inputTable hnames h₀.inputs h₁.inputs) h₀.room h₁.room hempty hbind
      rw [← T.env_registry] at hbind₁
      have hbind₁' : Machine.bindInputs T.fast.env.registry supplied T.fast.env.script.inputs
        (m.prepare T.fast.env.script.localsCount) = .ok () (ready.standing l₁ [] 0) := hbind₁
      simp only [hbind₀, hbind₁'] at hrun hcounts ⊢
      obtain ⟨k, hhalts⟩ := Halts.of_runSteps hrun fun k m' hreach slot j x hslot hx =>
        hcounts k m' x hreach ⟨slot, j, hslot, hx⟩
      obtain ⟨fuel', m₁, hhalts₁, hsame⟩ :=
        script_mirrors hplain h₀ h₁ halike k _ _ (Nat.le_refl k) hhalts
      exact ⟨fuel', m₁, hhalts₁.runSteps.1, hsame, hhalts₁.runSteps.2⟩

end Levels

-- A value that can be counted up to, if it is a number.
def Cell.countable : Cell → Bool
  | .number x => x.isNaN || decide (x ≤ 9007199254740992)
  | _ => true

namespace Machine

-- Whether a run finishes in so many steps without a number that is too large to be counted up to.
def passes (env : RunEnv) : Nat → Machine → Bool
  | 0, _ => false
  | fuel + 1, m =>
    m.locals.all Cell.countable &&
    match Work.step env m with
    | .ok .next m => passes env fuel m
    | .ok .stop _ => true
    | .error _ _ => false

section

variable {env : RunEnv} {fuel k : Nat} {m m' : Machine}

theorem passes_finishes (h : m.passes env fuel = true) :
    ∃ m', runSteps env fuel m = (.finished, m') := by
  induction fuel generalizing m with
  | zero => cases h
  | succ fuel ih =>
      simp only [passes, Bool.and_eq_true] at h
      cases hstep : Work.step env m with
      | error f m₁ => simp [hstep] at h
      | ok flow m₁ =>
          cases flow with
          | stop => exact ⟨m₁, by simp only [runSteps, hstep]⟩
          | next =>
              rw [runSteps_next hstep]
              rw [hstep] at h
              exact ih h.2

theorem passes_countable (h : m.passes env fuel = true)
    (hreach : runSteps env k m = (.outOfFuel, m')) : m'.locals.all Cell.countable = true := by
  induction fuel generalizing k m with
  | zero => cases h
  | succ fuel ih =>
      simp only [passes, Bool.and_eq_true] at h
      cases k with
      | zero =>
          cases hreach
          exact h.1
      | succ k =>
          cases hstep : Work.step env m with
          | error f m₁ => simp [hstep] at h
          | ok flow m₁ =>
              cases flow with
              | stop => simp [runSteps, hstep] at hreach
              | next =>
                  rw [runSteps_next hstep] at hreach
                  rw [hstep] at h
                  exact ih h.2 hreach

theorem CountsTo.countable {slots : List String} {x : Float} (h : m.CountsTo slots x)
    (hall : m.locals.all Cell.countable = true) : Number.Countable x := by
  obtain ⟨slot, k, -, hx⟩ := h
  obtain ⟨hlt, hx⟩ := Array.getElem?_eq_some_iff.mp hx
  have hcell := Array.all_eq_true.mp hall slot hlt
  rw [hx] at hcell
  simpa [Cell.countable, Number.Countable] using hcell

end

end Machine

namespace CompiledScript

-- The names of the variables of a source text, in the order of their places.
def slotNamesOf (r : Registry) (options : CompileOptions) (source : String) : List String :=
  match Script.analyze r options.imports source with
  | .ok (script, analysis) => slotNames r options script analysis
  | .error _ => []

variable {r : Registry} {options : CompileOptions} {source : String} {slow fast : CompiledScript}

-- What a source text does does not depend on the optimization level, as long as its counted loops
-- count no further than numbers can be counted exactly. The host may act on what scripts hold. What
-- it makes of the cleaning up at the very end is left out, unless it does nothing.
theorem levels_agree [HostHooks] {level : Nat} (hr : r.Built)
    (hslow : compile r { options with level := 0 } source = .ok slow)
    (hfast : compile r { options with level } source = .ok fast)
    {m m₀ : Machine} {inputs : List (String × Value)} {fuel : Nat}
    (hrun : m.runInOrder ⟨r, slow⟩ fuel inputs = (.finished, m₀))
    (hcounts : ∀ k m' x, m.firstSteps ⟨r, slow⟩ inputs k = (.outOfFuel, m') →
      m'.CountsTo (slotNamesOf r { options with level := 0 } source) x → Number.Countable x) :
    ∃ fuel' m₁, m.runInOrder ⟨r, fast⟩ fuel' inputs = (.finished, m₁) ∧ m₁.printed = m₀.printed ∧
      m₁.returned = m₀.returned ∧
      (m.firstSteps ⟨r, fast⟩ inputs fuel').2.world = (m.firstSteps ⟨r, slow⟩ inputs fuel).2.world ∧
      ((∀ hook w, HostHooks.tell hook w = w) → m₁.world = m₀.world) ∧
      m.firstCalls ⟨r, fast⟩ inputs fuel' = m.firstCalls ⟨r, slow⟩ inputs fuel := by
  obtain ⟨⟨checked, analysis⟩, hanalyze, hgenerate₀⟩ := except_bind_ok.mp hslow
  obtain ⟨⟨checked', analysis'⟩, hanalyze', hgenerate₁⟩ := except_bind_ok.mp hfast
  cases hanalyze.symm.trans hanalyze'
  obtain ⟨parsed, hparse, hcheck⟩ := except_bind_ok.mp hanalyze
  obtain ⟨hsound, hnames⟩ := Script.sound_of_check hr.numbered (Script.plain_of_parse hparse) hcheck
  have h₀ := generate_lays hsound.plain hnames hgenerate₀
  have h₁ := generate_lays hsound.plain hnames hgenerate₁
  have hanalyze₀ : Script.analyze r options.imports source = .ok (checked, analysis) := hanalyze
  simp only [slotNamesOf, hanalyze₀] at hcounts
  obtain ⟨m₀', hsteps, rfl⟩ := Machine.run_finished_iff.mp hrun
  obtain ⟨fuel', m₁, hsteps₁, hsame, hcalls⟩ :=
    Levels.exists_run (T := ⟨⟨slow, r, analysis.symbols, 0, _⟩, ⟨fast, r, analysis.symbols, level, _⟩,
      rfl, rfl, rfl, h₀.nodup, h₁.nodup⟩) hsound.plain hnames h₀ h₁ hsteps hcounts
  obtain ⟨hreturned₀, hprinted₀⟩ := m₀'.reset_spec
  obtain ⟨hreturned₁, hprinted₁⟩ := m₁.reset_spec
  refine ⟨fuel', m₁.reset, Machine.run_finished_iff.mpr ⟨m₁, hsteps₁, rfl⟩, ?_, ?_, ?_,
    fun hhooks => ?_, hcalls⟩
  · rw [hprinted₀, hprinted₁, hsame.printed]
  · rw [hreturned₀, hreturned₁, hsame.returned]
  · have hsteps₁ : m.firstSteps ⟨r, fast⟩ inputs fuel' = (.finished, m₁) := hsteps₁
    rw [hsteps, hsteps₁]
    exact hsame.world
  · rw [Machine.world_reset hhooks, Machine.world_reset hhooks, hsame.world]

-- A loop that is left early, in one with a fractional number of rounds.
def doubling : String :=
  "var [x] = 1\nloop [1.5]\nloop [3]\nif [x] > 1\nbreak\nend\nvar [x] = [x] * 2\nend\nend\nreturn [x]"

def small : Machine :=
  Machine.new { stack := 4, references := 1, locals := 4 } {}

theorem doubling_agrees : ∃ slow fast m₀, compile .empty { level := 0 } doubling = .ok slow ∧
    compile .empty { level := 1 } doubling = .ok fast ∧
    small.runInOrder ⟨.empty, slow⟩ 100 [] = (.finished, m₀) ∧
    (∀ k m' x, small.firstSteps ⟨.empty, slow⟩ [] k = (.outOfFuel, m') →
      m'.CountsTo (slotNamesOf .empty { level := 0 } doubling) x → Number.Countable x) ∧
    ∃ fuel' m₁, small.runInOrder ⟨.empty, fast⟩ fuel' [] = (.finished, m₁) ∧
      m₁.printed = m₀.printed ∧ m₁.returned = m₀.returned ∧
      (small.firstSteps ⟨.empty, fast⟩ [] fuel').2.world =
        (small.firstSteps ⟨.empty, slow⟩ [] 100).2.world ∧
      ((∀ hook w, HostHooks.tell hook w = w) → m₁.world = m₀.world) ∧
      small.firstCalls ⟨.empty, fast⟩ [] fuel' =
        small.firstCalls ⟨.empty, slow⟩ [] 100 := by
  have hslow : (compile .empty { level := 0 } doubling).toOption.map (fun s =>
      (small.prepare s.localsCount).passes ⟨.empty, s⟩ 100 && s.inputs.isEmpty) =
        some true := by
    decide +kernel
  have hfast : (compile .empty { level := 1 } doubling).isOk = true := by decide +kernel
  cases hcompile₀ : compile .empty { level := 0 } doubling with
  | error d =>
      rw [hcompile₀] at hslow
      cases hslow
  | ok slow =>
      cases hcompile₁ : compile .empty { level := 1 } doubling with
      | error d =>
          rw [hcompile₁] at hfast
          cases hfast
      | ok fast =>
          rw [hcompile₀] at hslow
          obtain ⟨hpasses, hempty⟩ := Bool.and_eq_true_iff.mp (Option.some.inj hslow)
          have hsteps : ∀ k, small.firstSteps ⟨.empty, slow⟩ [] k =
              (small.prepare slow.localsCount).runSteps ⟨.empty, slow⟩ k := fun k => by
            simp only [Machine.firstSteps, Machine.execute, List.isEmpty_iff.mp hempty]
            rfl
          obtain ⟨m₀, hrun⟩ := Machine.passes_finishes hpasses
          have hrun := Machine.run_finished_iff.mpr ⟨m₀, (hsteps 100).trans hrun, rfl⟩
          have hcounts : ∀ k m' x, small.firstSteps ⟨.empty, slow⟩ [] k = (.outOfFuel, m') →
              m'.CountsTo (slotNamesOf .empty { level := 0 } doubling) x → Number.Countable x :=
            fun k m' x hreach hx =>
              hx.countable (Machine.passes_countable hpasses ((hsteps k).symm.trans hreach))
          exact ⟨slow, fast, m₀.reset, rfl, rfl, hrun, hcounts,
            @levels_agree .empty {} doubling slow fast _ 1 .empty hcompile₀ hcompile₁ _ _ [] 100 hrun
              hcounts⟩

end CompiledScript

end HostScript
