import HostScript.Proofs.Machine.Binding
import HostScript.Proofs.Machine.Cycle
import HostScript.Proofs.Stateful

namespace HostScript

section

variable [HostHooks]

namespace Machine

-- A machine that no run is using: a new one, one that an earlier run left behind, or one whose host
-- did something in between.
inductive Rested : Machine → Prop
  | new (limits : Limits) (world : World) : Rested (Machine.new limits world)
  | run {m : Machine} (env : RunEnv) (fuel : Nat) (inputs : List (String × Value)) :
      Rested m → Rested (m.run env fuel inputs).2
  | meanwhile {m : Machine} (world : World) : Rested m → Rested { m with world }

-- The first `count` steps of a run: how it has ended by then, and what it leaves.
def firstSteps (env : RunEnv) (inputs : List (String × Value)) (count : Nat) (m : Machine) :
    Outcome × Machine :=
  (m.prepare env.script.localsCount).execute env count inputs

theorem runInOrder_eq (env : RunEnv) (fuel : Nat) (inputs : List (String × Value)) (m : Machine) :
    ∃ returned, m.runInOrder env fuel inputs = ((m.firstSteps env inputs fuel).1,
      { (m.firstSteps env inputs fuel).2.reset with returned }) := by
  simp only [runInOrder, firstSteps]
  split
  · exact ⟨_, rfl⟩
  · exact ⟨.null, rfl⟩

-- A run with a map of inputs is one with its entries in some order.
theorem run_eq (env : RunEnv) (fuel : Nat) (inputs : List (String × Value)) (m : Machine) :
    ∃ entries returned runs, entries.Perm inputs ∧
      m.run env fuel inputs = ((m.firstSteps env entries fuel).1,
        { (m.firstSteps env entries fuel).2.reset with returned, runs }) := by
  obtain ⟨returned, h⟩ := runInOrder_eq env fuel (arrangement m.runs inputs) m
  refine ⟨_, returned, m.runs + 1, perm_arrangement m.runs inputs, ?_⟩
  simp only [Machine.run, h]

theorem Rested.idle {m : Machine} (h : m.Rested) : m.Idle := by
  induction h with
  | new limits world => exact idle_new limits world
  | @run m env fuel inputs _ _ =>
      obtain ⟨entries, returned, runs, -, hrun⟩ := run_eq env fuel inputs m
      have hidle := idle_reset (m.firstSteps env entries fuel).2
      rw [hrun]
      exact ⟨hidle.sound, hidle.unused⟩
  | meanwhile world _ ih => exact ⟨ih.sound, ih.unused⟩

variable {env : RunEnv} {m m' : Machine}

theorem runSteps_next {fuel : Nat} (h : Work.step env m = .ok .next m') :
    runSteps env (fuel + 1) m = runSteps env fuel m' := by
  simp only [runSteps, h]

-- A run that has ended stays as it is, whatever it is given.
theorem runSteps_ended {k fuel : Nat} {outcome : Outcome} (hle : k ≤ fuel)
    (h : runSteps env k m = (outcome, m')) (hended : outcome ≠ .outOfFuel) :
    runSteps env fuel m = (outcome, m') := by
  induction k generalizing m fuel with
  | zero =>
      cases h
      exact absurd rfl hended
  | succ k ih =>
      obtain ⟨fuel, rfl⟩ := Nat.exists_eq_add_of_le' (Nat.lt_of_lt_of_le (Nat.succ_pos k) hle)
      simp only [runSteps] at h ⊢
      split
      · rename_i hstep
        rw [hstep] at h
        exact ih (by omega) h
      · rename_i hstep
        rw [hstep] at h
        exact h
      · rename_i hstep
        rw [hstep] at h
        exact h

end Machine

theorem Work.step_of_fetch {env : RunEnv} {m : Machine} {i : Instr} {q : Nat}
    (hlt : m.pc < rangeEnd env m) (hat : env.script.fetch m.pc = .ok (i, q)) :
    step env m = (do effect env i; return i.flow : Work Flow) { m with pc := q } := by
  simp only [step, bind, EStateM.bind, get, getThe, MonadStateOf.get, EStateM.get, hlt, if_true, hat]
  rfl

-- A step is an instruction that can be read or not, or the end of what is being run: of the script,
-- of a round, or of the last round of a loop.
theorem Work.step_upholds {env : RunEnv} {m : Machine} {E : Fault → Machine → Prop}
    {Q : Flow → Machine → Prop}
    (heffect : ∀ i pc, m.pc < rangeEnd env m → env.script.fetch m.pc = .ok (i, pc) →
      Upholds E (fun _ => Q i.flow) (effect env i { m with pc }))
    (hfetch : ∀ f, m.pc < rangeEnd env m → env.script.fetch m.pc = .error f → E f m)
    (hend : rangeEnd env m ≤ m.pc → m.loops = [] → Q .stop m)
    (hround : ∀ frame outer left, rangeEnd env m ≤ m.pc → m.loops = frame :: outer →
      frame.left = left + 1 →
        Q .next { m with pc := frame.start, loops := { frame with left } :: outer })
    (hleave : ∀ frame outer, rangeEnd env m ≤ m.pc → m.loops = frame :: outer → frame.left = 0 →
      Q .next { m with pc := frame.stop, loops := outer }) :
    Upholds E Q (step env m) := by
  simp only [step, bind, EStateM.bind, get, getThe, MonadStateOf.get, EStateM.get]
  split
  · rename_i hlt
    cases hread : env.script.fetch m.pc with
    | error f => exact hfetch f hlt hread
    | ok next => exact (heffect next.1 next.2 hlt hread).bind fun _ _ h => h
  · rename_i hge
    have hge := Nat.le_of_not_lt hge
    cases hloops : m.loops with
    | nil => exact hend hge hloops
    | cons frame outer =>
        cases hleft : frame.left with
        | zero =>
            simp only [hleft]
            exact hleave frame outer hge hloops hleft
        | succ left =>
            simp only [hleft]
            exact hround frame outer left hge hloops hleft

end

-- What holds of a run that needs more steps, of one that finished and of one that failed.
def Leaves (Inv Done : Machine → Prop) (Bad : Fault → Machine → Prop) : Outcome × Machine → Prop
  | (.outOfFuel, m) => Inv m
  | (.finished, m) => Done m
  | (.failed f, m) => Bad f m

variable [HostHooks]

-- What each step keeps, as long as `left` steps may follow, a run keeps.
theorem Machine.runSteps_leaves {env : RunEnv} {Inv : Nat → Machine → Prop} {Done : Machine → Prop}
    {Bad : Fault → Machine → Prop}
    (hstep : ∀ left m, Inv (left + 1) m →
      Upholds Bad (fun flow m' => if flow = .next then Inv left m' else Done m') (Work.step env m))
    {count : Nat} {m : Machine} (h : Inv count m) :
    Leaves (Inv 0) Done Bad (Machine.runSteps env count m) := by
  induction count generalizing m with
  | zero => exact h
  | succ left ih =>
      have hone := hstep left m h
      simp only [Machine.runSteps]
      cases hresult : Work.step env m with
      | ok flow m₁ =>
          rw [hresult] at hone
          cases flow with
          | next => exact ih hone
          | stop => exact hone
      | error f m₁ =>
          rw [hresult] at hone
          exact hone

-- The same from the inputs on.
theorem Machine.execute_leaves {env : RunEnv} (Inv : Nat → Machine → Prop) {Done : Machine → Prop}
    {Bad : Fault → Machine → Prop} {inputs : List (String × Value)} {count : Nat} {m : Machine}
    (hbind : Upholds Bad (fun _ => Inv count)
      (Machine.bindInputs env.registry inputs env.script.inputs m))
    (hstep : ∀ left m, Inv (left + 1) m →
      Upholds Bad (fun flow m' => if flow = .next then Inv left m' else Done m') (Work.step env m)) :
    Leaves (Inv 0) Done Bad (Machine.execute env count inputs m) := by
  unfold Machine.execute
  cases hresult : Machine.bindInputs env.registry inputs env.script.inputs m with
  | ok u m₁ =>
      rw [hresult] at hbind
      exact runSteps_leaves hstep hbind
  | error f m₁ =>
      rw [hresult] at hbind
      exact hbind

end HostScript
