import HostScript.Proofs.Code.Generic
import HostScript.Proofs.Machine.History
import HostScript.Proofs.References.Spare

namespace HostScript

-- What kind of fault a run ended with, if any.
def Outcome.code? : Outcome → Option Fault.Code
  | .failed f => some f.code
  | _ => none

namespace Machine

-- The second machine differs from the first by one text at most, in a position that is not in use
-- in the first one.
inductive Leaks (m : Machine) : Machine → Prop
  | alike {t : References} : m.refs.Alike t → Leaks m { m with refs := t }
  | spare {k : Nat} {s : String} {t : References} : m.refs.Spare k s t → Leaks m { m with refs := t }

variable {m m' : Machine}

section

variable [HostHooks]

theorem letGo_none {c : Cell} (hc : c.handle? = none) (m : Machine) : m.letGo c = m := by
  simp only [letGo, Work.release, hc]
  rfl

theorem letGo_some {c : Cell} {h : Nat} (hc : c.handle? = some h) (m : Machine) :
    m.letGo c = match m.refs.release h with
      | .ok refs => { m with refs, world := HostHooks.tellAll (refs.toldSince m.refs) m.world }
      | .error _ => m := by
  simp only [letGo, Work.release, hc, Work.onRefs, bind, Except.bind]
  cases m.refs.release h <;> rfl

theorem Leaks.letGo (h : m.Leaks m') (c : Cell) : (m.letGo c).Leaks (m'.letGo c) := by
  cases hc : c.handle? with
  | none =>
      rw [letGo_none hc, letGo_none hc]
      exact h
  | some j =>
      rw [letGo_some hc, letGo_some hc]
      cases h with
      | alike ha =>
          rcases ha.release j with ⟨hu, hu'⟩ | ⟨u, u', hu, hu', hnext⟩
          · simp only [hu, hu']
            exact .alike ha
          · simp only [hu, hu', References.toldSince_congr ha.hooks hnext.hooks]
            exact .alike (m := { m with refs := u, world := _ }) hnext
      | @spare k s t hs =>
          by_cases hj : j = k
          · subst hj
            obtain ⟨hu, u', hu', hnext⟩ := hs.release_self
            simp only [hu, hu', References.toldSince_same (hnext.hooks.trans hs.hooks.symm)]
            exact .alike hnext
          · rcases hs.release hj with ⟨hu, hu'⟩ | ⟨u, u', hu, hu', hnext⟩
            · simp only [hu, hu']
              exact .spare hs
            · simp only [hu, hu', References.toldSince_congr hs.hooks hnext.hooks]
              exact .spare (m := { m with refs := u, world := _ }) hnext

theorem Leaks.foldl_letGo (h : m.Leaks m') (cells : List Cell) :
    (cells.foldl Machine.letGo m).Leaks (cells.foldl Machine.letGo m') := by
  induction cells generalizing m m' with
  | nil => exact h
  | cons c cells ih => exact ih (h.letGo c)

end

-- One of the lists has a warning more, about a text.
def OneMoreText (ws ws' : Array Warning) : Prop :=
  ∃ before after k s, ws = before ++ after ∧ ws' = before ++ #[.textLeft k s] ++ after

section

variable [HostHooks]

-- What cleaning up ends with: whatever is still held is reported and dropped.
def drained (m : Machine) : Machine :=
  let world := HostHooks.tellAll (m.refs.drain.2.toldSince m.refs) m.world
  { m with
    refs := m.refs.drain.2
    world
    warnings := m.warnings ++ (m.refs.leftovers.map (leftoverWarning world)).toArray }

theorem reset_eq_drained (m : Machine) : m.reset =
    ((m.stack.reverse ++ m.locals.toList).foldl Machine.letGo
      { m with stack := [], locals := m.locals.map fun _ => .null }).drained := rfl

theorem Leaks.drained (h : m.Leaks m') : m'.drained.refs.hooks = m.drained.refs.hooks ∧
    m'.drained.world = m.drained.world ∧
    (m'.drained.warnings = m.drained.warnings ∨
      OneMoreText m.drained.warnings m'.drained.warnings) := by
  cases h with
  | @alike t ha =>
      have hhooks : t.drain.2.hooks = m.refs.drain.2.hooks := by
        simp [References.drain, ha.leftovers, ha.hooks]
      have htold := References.toldSince_congr ha.hooks hhooks
      exact ⟨hhooks, by simp only [Machine.drained, htold],
        .inl (by simp only [Machine.drained, htold, ha.leftovers])⟩
  | @spare k s t hs =>
      obtain ⟨before, after, hleft, hleft'⟩ := hs.leftovers
      have hhooks : t.drain.2.hooks = m.refs.drain.2.hooks := by
        simp [References.drain, hleft, hleft', hs.hooks]
      have htold := References.toldSince_congr hs.hooks hhooks
      refine ⟨hhooks, by simp only [Machine.drained, htold], .inr ?_⟩
      refine ⟨m.warnings ++ (before.map (leftoverWarning m.drained.world)).toArray,
        (after.map (leftoverWarning m.drained.world)).toArray, k, s, ?_, ?_⟩
      · simp [Machine.drained, hleft]
      · simp [Machine.drained, hleft', htold, leftoverWarning]

-- After cleaning up, all that remains of the difference is a warning.
theorem Leaks.reset (h : m.Leaks m') : m'.reset.refs.hooks = m.reset.refs.hooks ∧
    m'.reset.world = m.reset.world ∧
    (m'.reset.warnings = m.reset.warnings ∨
      OneMoreText m.reset.warnings m'.reset.warnings) := by
  have hheld : m'.stack.reverse ++ m'.locals.toList = m.stack.reverse ++ m.locals.toList := by
    cases h <;> rfl
  have hcleared : { m with stack := [], locals := m.locals.map fun _ => .null }.Leaks
      { m' with stack := [], locals := m'.locals.map fun _ => .null } := by
    cases h with
    | alike ha => exact .alike ha
    | spare hs => exact .spare hs
  rw [reset_eq_drained, reset_eq_drained, hheld]
  exact (hcleared.foldl_letGo _).drained

end

end Machine

namespace Work

-- What an instruction for numbers does, beside what the one for all kinds of values does: the same,
-- unless it fails because the code is at fault. One that fails because of a handle may leave a text
-- less behind.
inductive Matches {α : Type} :
    EStateM.Result Fault Machine α → EStateM.Result Fault Machine α → Prop
  | same {result : EStateM.Result Fault Machine α} : Matches result result
  | illegal {f : Fault} {m : Machine} {result : EStateM.Result Fault Machine α} :
      f.code = .invalidBytecode → Matches (.error f m) result
  | leak {h : Nat} {m m' : Machine} : m.Leaks m' →
      Matches (.error (.deadHandle h) m) (.error (.deadHandle h) m')

variable {m : Machine} {a b c : Cell}

-- Operators either leave the machine alone, or put a new text in a position that neither operand
-- holds.
def Modest (x : Work Cell) (a b : Cell) (m : Machine) : Prop :=
  (∃ result, attempt x m = .ok result m) ∨
  ∃ c k s t, x m = .ok c { m with refs := t } ∧ m.refs.Spare k s t ∧ a.handle? ≠ some k ∧
    b.handle? ≠ some k

-- Only a handle in use has a text to show.
theorem display_cases (c : Cell) (m : Machine) : (∃ f, display c m = .error f m) ∨
    ∃ s, display c m = .ok s m ∧ ∀ k, c.handle? = some k → m.refs.find? k ≠ none := by
  have hvalue : (∃ f, toValue c m = .error f m) ∨
      ∃ v, toValue c m = .ok v m ∧ ∀ k, c.handle? = some k → m.refs.find? k ≠ none := by
    cases c with
    | null => exact .inr ⟨_, rfl, by simp [Cell.handle?]⟩
    | number x => exact .inr ⟨_, rfl, by simp [Cell.handle?]⟩
    | bool b => exact .inr ⟨_, rfl, by simp [Cell.handle?]⟩
    | text h =>
        simp only [toValue, bind, EStateM.bind, readRefs]
        cases hread : m.refs.text h with
        | error f => exact .inl ⟨f, rfl⟩
        | ok s =>
            refine .inr ⟨.text s, rfl, fun k hk hnone => ?_⟩
            cases hk
            simp [References.text, References.get?, hnone] at hread
    | object h =>
        simp only [toValue, bind, EStateM.bind, readRefs]
        cases hread : m.refs.object h with
        | error f => exact .inl ⟨f, rfl⟩
        | ok o =>
            refine .inr ⟨.object o, rfl, fun k hk hnone => ?_⟩
            cases hk
            simp [References.object, References.get?, hnone] at hread
  rcases hvalue with ⟨f, hf⟩ | ⟨v, hv, hlive⟩
  · exact .inl ⟨f, by simp [display, bind, EStateM.bind, hf]⟩
  · exact .inr ⟨m.world.display v, by simp [display, bind, EStateM.bind, hv, get, getThe,
      MonadStateOf.get, EStateM.get, pure, EStateM.pure], hlive⟩

theorem Modest.throw (f : Fault) : Modest (MonadExcept.throw f) a b m :=
  .inl ⟨.error f, rfl⟩

theorem orderResult_modest (op : Order) : Modest (orderResult op a b) a b m := by
  unfold orderResult
  split
  · exact .inl ⟨_, rfl⟩
  · exact .throw _

theorem equalResult_modest (negated : Bool) : Modest (equalResult negated a b) a b m := by
  unfold equalResult
  split
  · exact .inl ⟨_, rfl⟩
  · exact .inl ⟨_, rfl⟩
  · exact .inl ⟨_, rfl⟩
  · rename_i h k
    split
    · exact .inl ⟨_, rfl⟩
    · refine .inl ?_
      simp only [attempt, bind, EStateM.bind, readRefs]
      cases m.refs.text h with
      | error f => exact ⟨_, rfl⟩
      | ok s =>
          dsimp only
          cases m.refs.text k <;> exact ⟨_, rfl⟩
  · exact .inl ⟨_, rfl⟩
  · exact .inl ⟨_, rfl⟩

variable [HostHooks]

theorem release_spare {k : Nat} {s : String} {t : References} (hs : m.refs.Spare k s t)
    (hc : c.handle? ≠ some k) :
    (∃ h, release c m = .error (.deadHandle h) m ∧
      release c { m with refs := t } = .error (.deadHandle h) { m with refs := t }) ∨
    ∃ u u' world, release c m = .ok () { m with refs := u, world } ∧
      release c { m with refs := t } = .ok () { m with refs := u', world } ∧ u.Spare k s u' := by
  unfold release
  cases hh : c.handle? with
  | none => exact .inr ⟨m.refs, t, m.world, rfl, rfl, hs⟩
  | some h =>
      have hne : h ≠ k := by
        rintro rfl
        exact hc hh
      rcases hs.release hne with ⟨hu, hu'⟩ | ⟨u, u', hu, hu', hnext⟩
      · refine .inl ⟨h, ?_, ?_⟩
        · simp [onRefs, hu, bind, Except.bind]
        · simp [onRefs, hu', bind, Except.bind]
      · refine .inr ⟨u, u', HostHooks.tellAll (u.toldSince m.refs) m.world, ?_, ?_, hnext⟩
        · simp [onRefs, hu, bind, Except.bind, pure, Except.pure]
        · simp [onRefs, hu', References.toldSince_congr hs.hooks hnext.hooks, bind, Except.bind, pure,
            Except.pure]

-- The operands are given back in the same order by both kinds of operators.
theorem refused_matches {x : Work Cell} (hx : Modest x a b m) :
    Matches ((do release a; release b; throw .notNumbers : Work Unit) m)
      ((do
        let result ← attempt x
        release a
        release b
        push (← settle result)) m) := by
  rcases hx with ⟨result, hresult⟩ | ⟨c, k, s, t, hx, hspare, ha, hb⟩
  · simp only [bind, EStateM.bind, hresult]
    cases release a m with
    | error f m₁ => exact .same
    | ok _ m₁ =>
        cases hlast : release b m₁ with
        | error f m₂ =>
            simp only [hlast]
            exact .same
        | ok _ m₂ =>
            simp only [hlast]
            exact .illegal rfl
  · simp only [bind, EStateM.bind, attempt, hx]
    rcases release_spare hspare ha with ⟨h, hfirst, hfirst'⟩ | ⟨u, u', world, hfirst, hfirst', hspare'⟩
    · simp only [hfirst, hfirst']
      exact .leak (.spare hspare)
    · simp only [hfirst, hfirst']
      rcases release_spare (m := { m with refs := u, world }) hspare' hb with
        ⟨h, hlast, hlast'⟩ | ⟨v, v', world', hlast, hlast', -⟩
      · simp only [hlast, hlast']
        exact .leak (.spare (m := { m with refs := u, world }) hspare')
      · simp only [hlast]
        exact .illegal rfl

theorem binary_matches {f : Float → Float → Cell} {g : Cell → Cell → Work Cell}
    (hnumbers : ∀ x y, g (.number x) (.number y) = pure (f x y))
    (hothers : ∀ a b m', m'.refs = m.refs → (∀ x y, (a, b) ≠ (.number x, .number y)) →
      Modest (g a b) a b m') :
    Matches (binaryNum f m) (binary g m) := by
  cases hstack : m.stack with
  | nil =>
      simp only [binaryNum, binary, bind, EStateM.bind, pop, hstack]
      exact .same
  | cons b below =>
      cases below with
      | nil =>
          simp only [binaryNum, binary, bind, EStateM.bind, pop, hstack]
          exact .same
      | cons a rest =>
          simp only [binaryNum, binary, bind, EStateM.bind, pop, hstack]
          by_cases hboth : ∃ x y, (a, b) = (.number x, .number y)
          · obtain ⟨x, y, hxy⟩ := hboth
            cases hxy
            simp only [hnumbers]
            exact .same
          · have hother : ∀ x y, (a, b) ≠ (.number x, .number y) := fun x y h => hboth ⟨x, y, h⟩
            have hmatch := refused_matches (hothers a b { m with stack := rest } rfl hother)
            split
            · rename_i x y
              exact absurd rfl (hother x y)
            · exact hmatch

theorem concat_modest (hs : m.refs.Sound) : Modest (concat a b) a b m := by
  rcases display_cases a m with ⟨f, hf⟩ | ⟨s, hs₁, hlive⟩
  · exact .inl ⟨.error f, by simp [attempt, concat, bind, EStateM.bind, hf]⟩
  rcases display_cases b m with ⟨f, hf⟩ | ⟨s', hs₂, hlive'⟩
  · exact .inl ⟨.error f, by simp [attempt, concat, bind, EStateM.bind, hs₁, hf]⟩
  cases hinsert : m.refs.insertText (s ++ s') with
  | error f =>
      exact .inl ⟨.error f, by simp [attempt, concat, bind, EStateM.bind, hs₁, hs₂, onRefs, hinsert]⟩
  | ok inserted =>
      obtain ⟨k, t⟩ := inserted
      have hspare := References.spare_of_insertText hs hinsert
      refine .inr ⟨.text k, k, s ++ s', t, ?_, hspare, fun ha => hlive k ha hspare.empty,
        fun hb => hlive' k hb hspare.empty⟩
      simp [concat, bind, EStateM.bind, hs₁, hs₂, onRefs, hinsert, pure, EStateM.pure,
        References.toldSince_same hspare.hooks, HostHooks.tellAll]

theorem arithResult_modest (op : Arith) (hs : m.refs.Sound) : Modest (arithResult op a b) a b m := by
  have hjoin : Modest (if op = .add then concat a b
      else MonadExcept.throw (.badOperands op.symbol a.kindName b.kindName)) a b m := by
    split
    · exact concat_modest hs
    · exact .throw _
  unfold arithResult
  split
  · exact .inl ⟨_, rfl⟩
  · exact hjoin
  · exact hjoin
  · exact .throw _

theorem neg_matches : Matches (negNum m) (neg m) := by
  simp only [negNum, neg, bind, EStateM.bind]
  cases pop m with
  | error f m₁ => exact .same
  | ok c m₁ =>
      have hrefuse : ∀ f, Matches ((do release c; throw .notANumber : Work Unit) m₁)
          ((do release c; throw f : Work Unit) m₁) := by
        intro f
        simp only [bind, EStateM.bind]
        cases release c m₁ with
        | error g m₂ => exact .same
        | ok _ m₂ => exact .illegal rfl
      cases c with
      | number x => exact .same
      | _ => exact hrefuse _

theorem effect_matches (env : RunEnv) (i : Instr) (hs : m.refs.Sound) :
    Matches (effect env i m) (effect env i.generic m) := by
  cases i with
  | arithNum op =>
      refine binary_matches (fun x y => rfl) fun a b m' hm' _ => arithResult_modest op (hm' ▸ hs)
  | orderNum op => exact binary_matches (fun x y => rfl) fun a b m' _ _ => orderResult_modest op
  | equalsNum negated =>
      exact binary_matches (fun x y => rfl) fun a b m' _ _ => equalResult_modest negated
  | negNum => exact neg_matches
  | _ => exact .same

-- Instructions see the texts and the length of the code only.
theorem effect_congr (r : Registry) (s s' : CompiledScript) (hstrings : s'.strings = s.strings)
    (hsize : s'.code.size = s.code.size) (i : Instr) : effect ⟨r, s'⟩ i = effect ⟨r, s⟩ i := by
  cases i with
  | pushString | invokeDynamic | getDynamicProperty | setDynamicProperty =>
      simp only [effect, invokeDynamic, getDynamicProperty, setDynamicProperty, poolString, hstrings]
  | jump | jumpIf => simp only [effect, jump, jumpIf, jumpTarget, hsize]
  | loop | loopNum => simp only [effect, enterLoopNum, enterLoop, hsize]
  | _ => rfl

end Work

namespace CompiledScript

theorem code_operandFault (s : CompiledScript) (op : Opcode) (pos : Nat) :
    (s.operandFault op pos).code = .invalidBytecode := by
  unfold operandFault
  split
  · split <;> rfl
  · split <;> rfl
  · split
    · split <;> rfl
    · rfl
  · rfl

theorem code_of_fetch {s : CompiledScript} {pc : Nat} {f : Fault} (h : s.fetch pc = .error f) :
    f.code = .invalidBytecode := by
  unfold fetch at h
  split at h
  · cases h
    rfl
  · split at h
    · cases h
      rfl
    · split at h
      · cases h
      · cases h
        exact s.code_operandFault _ _

end CompiledScript

namespace Machine

section

variable {r : Registry} {s : CompiledScript} {m : Machine}

-- A run that is between two instructions, and so are the ends of the loops it is in.
structure Between (s : CompiledScript) (m : Machine) : Prop where
  pc : s.Whole 0 m.pc
  loops : ∀ frame ∈ m.loops, s.Whole 0 frame.start ∧ s.Whole 0 frame.stop

theorem Between.continues (hs : s.Framed) (h : m.Between s) {i : Instr} {q : Nat}
    (hat : s.fetch m.pc = .ok (i, q)) {m' : Machine} (hi : i.Continues { m with pc := q } m') :
    m'.Between s := by
  have hnext : s.Whole 0 q := h.pc.append (.one hat trivial)
  have hsame : m'.pc = q ∧ m'.loops = m.loops → m'.Between s := fun hm =>
    ⟨hm.1 ▸ hnext, hm.2 ▸ h.loops⟩
  have hjump : ∀ t, i.target? = some t → m'.pc = t.toNat → m'.loops = m.loops → m'.Between s :=
    fun t ht hpc hloops => ⟨hpc ▸ hs.jumps m.pc i q t h.pc hat ht, hloops ▸ h.loops⟩
  have hloop : ∀ l : Int, i.bodyLength? = some l →
      (m'.pc = q + l.toNat ∧ m'.loops = m.loops) ∨
      (m'.pc = q ∧ ∃ left, m'.loops = ⟨q, q + l.toNat, left⟩ :: m.loops) → m'.Between s := by
    intro l hl hm
    have hend := hs.bodies m.pc i q l h.pc hat hl
    rcases hm with ⟨hpc, hloops⟩ | ⟨hpc, left, hloops⟩
    · exact ⟨hpc ▸ hend, hloops ▸ h.loops⟩
    · refine ⟨hpc ▸ hnext, fun frame hf => ?_⟩
      rw [hloops] at hf
      rcases List.mem_cons.mp hf with rfl | hf
      · exact ⟨hnext, hend⟩
      · exact h.loops frame hf
  cases i with
  | jump t => exact hjump _ rfl hi.1 hi.2
  | jumpIf on t =>
      rcases hi.1 with hpc | hpc
      · exact hsame ⟨hpc, hi.2⟩
      · exact hjump _ rfl hpc hi.2
  | loop count length => exact hloop _ rfl hi
  | loopNum length => exact hloop _ rfl hi
  | _ => exact hsame hi

variable [HostHooks]

theorem Between.step (hs : s.Framed) (h : m.Between s) :
    Upholds (fun _ _ => True) (fun _ m' => m'.Between s) (Work.step ⟨r, s⟩ m) := by
  refine Work.step_upholds (fun i q _ hat => ?_) (fun _ _ _ => trivial) (fun _ _ => h) ?_ ?_
  · exact (Work.effect_moves ⟨r, s⟩ i { m with pc := q }).imp (fun _ _ _ => trivial)
      fun _ m' hm => h.continues hs hat hm.continues
  · intro frame outer left _ hloops _
    have hframe := h.loops frame (by simp [hloops])
    refine ⟨hframe.1, fun f hf => ?_⟩
    rcases List.mem_cons.mp hf with rfl | hf
    · exact hframe
    · exact h.loops f (by simp [hloops, hf])
  · intro frame outer _ hloops _
    have hframe := h.loops frame (by simp [hloops])
    exact ⟨hframe.2, fun f hf => h.loops f (by simp [hloops, hf])⟩

theorem step_matches (h : m.Between s) (hrefs : m.refs.Sound) :
    Work.Matches (Work.step ⟨r, s⟩ m) (Work.step ⟨r, s.generic⟩ m) := by
  have hend : Work.rangeEnd ⟨r, s.generic⟩ m = Work.rangeEnd ⟨r, s⟩ m := by
    simp only [Work.rangeEnd, s.size_generic]
  by_cases hlt : m.pc < Work.rangeEnd ⟨r, s⟩ m
  · cases hat : s.fetch m.pc with
    | error f =>
        simp only [Work.step, bind, EStateM.bind, get, getThe, MonadStateOf.get, EStateM.get, hlt,
          if_true, hat]
        exact .illegal (CompiledScript.code_of_fetch hat)
    | ok next =>
        obtain ⟨i, q⟩ := next
        have hone := Work.effect_matches (m := { m with pc := q }) ⟨r, s⟩ i hrefs
        have hgeneric : Work.effect ⟨r, s.generic⟩ i.generic = Work.effect ⟨r, s⟩ i.generic :=
          Work.effect_congr r s s.generic rfl s.size_generic i.generic
        rw [Work.step_of_fetch hlt hat, Work.step_of_fetch (hend.symm ▸ hlt)
          (CompiledScript.fetch_generic h.pc hat), hgeneric, Instr.flow_generic]
        simp only [bind, EStateM.bind]
        generalize Work.effect ⟨r, s⟩ i { m with pc := q } = result at hone ⊢
        generalize Work.effect ⟨r, s⟩ i.generic { m with pc := q } = result' at hone ⊢
        cases hone with
        | same => exact .same
        | illegal hf => exact .illegal hf
        | leak hm => exact .leak hm
  · simp only [Work.step, bind, EStateM.bind, get, getThe, MonadStateOf.get, EStateM.get, hend, hlt,
      if_false]
    exact .same

-- How a run with instructions for numbers compares to one without: it fails because its code is at
-- fault, or both end the same way and leave the same, but for a text when a handle is at fault.
def Parallel : Outcome × Machine → Outcome × Machine → Prop
  | (outcome, m), (outcome', m') =>
    (∃ f, outcome = .failed f ∧ f.code = .invalidBytecode) ∨
    (outcome' = outcome ∧ (m' = m ∨ (∃ h, outcome = .failed (.deadHandle h)) ∧ m.Leaks m'))

theorem runSteps_parallel (hs : s.Framed) (h : m.Between s) (hrefs : m.refs.Told) (fuel : Nat) :
    Parallel (runSteps ⟨r, s⟩ fuel m) (runSteps ⟨r, s.generic⟩ fuel m) := by
  induction fuel generalizing m with
  | zero => exact .inr ⟨rfl, .inl rfl⟩
  | succ fuel ih =>
      have hmatch := step_matches (r := r) h hrefs.sound
      have hbetween := h.step (r := r) hs
      have hleads := Work.step_leads ⟨r, s⟩ m
      simp only [runSteps]
      generalize Work.step ⟨r, s⟩ m = result at hmatch hbetween hleads ⊢
      generalize Work.step ⟨r, s.generic⟩ m = result' at hmatch ⊢
      cases hmatch with
      | same =>
          obtain ⟨flow, m₁⟩ | ⟨f, m₁⟩ := result
          · cases flow with
            | next => exact ih hbetween (hleads.told hrefs)
            | stop => exact .inr ⟨rfl, .inl rfl⟩
          · exact .inr ⟨rfl, .inl rfl⟩
      | illegal hf => exact .inl ⟨_, rfl, hf⟩
      | leak hm => exact .inr ⟨rfl, .inr ⟨⟨_, rfl⟩, hm⟩⟩

theorem firstSteps_parallel (hs : s.Framed) (hm : m.Rested) (r : Registry)
    (inputs : List (String × Value)) (fuel : Nat) :
    Parallel (m.firstSteps ⟨r, s⟩ inputs fuel) (m.firstSteps ⟨r, s.generic⟩ inputs fuel) := by
  have htold : (m.prepare s.localsCount).refs.Told :=
    References.told_forgetHooks hm.idle.sound hm.idle.unused
  have hkeeps := bindInputs_keeps (m.prepare s.localsCount) r inputs s.inputs
  have hlocals : s.generic.localsCount = s.localsCount := rfl
  have hinputs : s.generic.inputs = s.inputs := rfl
  simp only [firstSteps, execute, hlocals, hinputs]
  cases hresult : bindInputs r inputs s.inputs (m.prepare s.localsCount) with
  | error f m₁ => exact .inr ⟨rfl, .inl rfl⟩
  | ok u m₁ =>
      rw [hresult] at hkeeps
      refine runSteps_parallel hs ⟨hkeeps.pc ▸ .nil, fun frame hf => ?_⟩ (hkeeps.refs.told htold) fuel
      rw [hkeeps.loops] at hf
      cases hf

-- A report comes from how a run ended and what it left.
def reportOf (outcome : Outcome) (m : Machine) : Report where
  outcome := outcome
  printed := m.printed
  warnings := m.reset.warnings
  hooks := m.reset.refs.hooks
  returned := match outcome with
    | .finished => m.returned
    | _ => .null
  world := m.reset.world

theorem report_eq (env : RunEnv) (fuel : Nat) (inputs : List (String × Value)) (m : Machine) :
    m.report env fuel inputs =
      reportOf (m.firstSteps env inputs fuel).1 (m.firstSteps env inputs fuel).2 := by
  simp only [report, Machine.runInOrder, firstSteps]
  generalize execute env fuel inputs (m.prepare env.script.localsCount) = result
  obtain ⟨outcome, m₁⟩ := result
  obtain ⟨hreturned, hprinted⟩ := reset_spec m₁
  cases outcome <;> simp [reportOf, hreturned, hprinted]

theorem Leaks.reportOf {m' : Machine} (h : m.Leaks m') (outcome : Outcome) :
    Machine.reportOf outcome m' =
      { Machine.reportOf outcome m with warnings := m'.reset.warnings } := by
  obtain ⟨hhooks, hworld, -⟩ := h.reset
  cases h <;> simp only [Machine.reportOf, hhooks, hworld]

-- The instructions for numbers are there for speed alone. Where jumps lead between instructions, as
-- they do in all that is compiled, a run that does not fail because of its code ends the same way,
-- prints, tells the host and returns the same without them, and warns of the same. Only a run that
-- fails because of a handle may report one more text: the result of an addition whose operands turn
-- out to be gone when they are given back.
theorem report_generic (s : CompiledScript) :
    (∀ {r : Registry} {options : CompileOptions} {source : String}, r.Built →
      CompiledScript.compile r options source = .ok s → s.Framed) ∧
    (s.Framed → ∀ (r : Registry) (m : Machine), m.Rested → ∀ inputs fuel,
      (∀ f, (m.report ⟨r, s⟩ fuel inputs).outcome = .failed f → f.code ≠ .invalidBytecode) →
      ∃ warnings, m.report ⟨r, s.generic⟩ fuel inputs =
          { m.report ⟨r, s⟩ fuel inputs with warnings } ∧
        (warnings = (m.report ⟨r, s⟩ fuel inputs).warnings ∨
          (∃ h, (m.report ⟨r, s⟩ fuel inputs).outcome = .failed (.deadHandle h)) ∧
            OneMoreText (m.report ⟨r, s⟩ fuel inputs).warnings warnings)) := by
  refine ⟨fun hr hcompile => (CompiledScript.wellFormed hr hcompile).framed, ?_⟩
  intro hs r m hm inputs fuel hcode
  have hall := firstSteps_parallel hs hm r inputs fuel
  simp only [report_eq] at hcode ⊢
  generalize m.firstSteps ⟨r, s⟩ inputs fuel = ran at hall hcode ⊢
  generalize m.firstSteps ⟨r, s.generic⟩ inputs fuel = ran' at hall ⊢
  obtain ⟨outcome, m₁⟩ := ran
  obtain ⟨outcome', m₁'⟩ := ran'
  rcases hall with ⟨f, hf, hillegal⟩ | ⟨rfl, rfl | ⟨⟨h, rfl⟩, hleaks⟩⟩
  · exact absurd hillegal (hcode f hf)
  · exact ⟨_, rfl, .inl rfl⟩
  · refine ⟨m₁'.reset.warnings, hleaks.reportOf _, ?_⟩
    rcases hleaks.reset.2.2 with hsame | hmore
    · exact .inl hsame
    · exact .inr ⟨⟨h, rfl⟩, hmore⟩

end

theorem report_generic_adding : ∃ s, CompiledScript.compile .empty {} adding = .ok s ∧
    s.generic.code ≠ s.code ∧ s.Framed ∧
    ∃ warnings, (Machine.new {} {}).report ⟨.empty, s.generic⟩ 40 [] =
      { (Machine.new {} {}).report ⟨.empty, s⟩ 40 [] with warnings } ∧
      warnings = ((Machine.new {} {}).report ⟨.empty, s⟩ 40 []).warnings := by
  have hruns : (CompiledScript.compile .empty {} adding).toOption.map (fun s =>
      (s.generic.code == s.code,
        ((Machine.new {} {}).report ⟨.empty, s⟩ 40 []).outcome.code?)) = some (false, none) := by
    decide +kernel
  cases hcompile : CompiledScript.compile .empty {} adding with
  | error d =>
      rw [hcompile] at hruns
      cases hruns
  | ok s =>
      rw [hcompile] at hruns
      obtain ⟨hcode, hnone⟩ := Prod.mk.inj (Option.some.inj hruns)
      have hframed := (report_generic s).1 .empty hcompile
      have hnever : ∀ f, ((Machine.new {} {}).report ⟨.empty, s⟩ 40 []).outcome ≠ .failed f := by
        intro f hf
        rw [hf] at hnone
        cases hnone
      obtain ⟨warnings, hreport, hsame | ⟨⟨h, hf⟩, -⟩⟩ := (report_generic s).2 hframed .empty
        (Machine.new {} {}) (.new {} {}) [] 40 fun f hf => absurd hf (hnever f)
      · exact ⟨s, rfl, by simpa using hcode, hframed, warnings, hreport, hsame⟩
      · exact absurd hf (hnever _)

-- The input travels on to a variable that was taken for one of numbers, and is added to itself
-- there.
def travelling : String :=
  "in [t]\nvar [a] = 1\nvar [b] = 2\nvar [c] = 3\nloop 3\nvar [c] = [a]\nvar [a] = [b]\n" ++
    "var [b] = [t]\nvar [t] = 0\nend\nreturn [c] + [c]"

-- The run fails because of a handle, and without instructions for numbers a warning is added.
theorem report_generic_travelling : ∃ s, CompiledScript.compile .empty {} travelling = .ok s ∧
    let inputs := [("t", Value.text "x")]
    ((Machine.new {} {}).report ⟨.empty, s⟩ 60 inputs).outcome.code? = some .invalidReference ∧
    ((Machine.new {} {}).report ⟨.empty, s⟩ 60 inputs).warnings = #[] ∧
    ((Machine.new {} {}).report ⟨.empty, s.generic⟩ 60 inputs).outcome.code? =
      some .invalidReference ∧
    ((Machine.new {} {}).report ⟨.empty, s.generic⟩ 60 inputs).warnings = #[.textLeft 1 "xx"] := by
  have hruns : (CompiledScript.compile .empty {} travelling).toOption.map (fun s =>
      let inputs := [("t", Value.text "x")]
      (((Machine.new {} {}).report ⟨.empty, s⟩ 60 inputs).outcome.code?,
        ((Machine.new {} {}).report ⟨.empty, s⟩ 60 inputs).warnings,
        ((Machine.new {} {}).report ⟨.empty, s.generic⟩ 60 inputs).outcome.code?,
        ((Machine.new {} {}).report ⟨.empty, s.generic⟩ 60 inputs).warnings)) =
      some (some .invalidReference, #[], some .invalidReference, #[.textLeft 1 "xx"]) := by
    decide +kernel
  cases hcompile : CompiledScript.compile .empty {} travelling with
  | error d =>
      rw [hcompile] at hruns
      cases hruns
  | ok s =>
      rw [hcompile] at hruns
      simp only [Except.toOption, Option.map_some, Option.some.injEq, Prod.mk.injEq] at hruns
      exact ⟨s, rfl, hruns⟩

end Machine

end HostScript
