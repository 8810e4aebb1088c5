import HostScript.Proofs.Machine.Moves
import HostScript.Proofs.Machine.Runs

namespace HostScript

-- A moment of a run as far as the code decides it: the bodies of the counted loops around it, the
-- innermost first, where the run goes on, and how high the stack is.
structure Spot where
  loops : List (Nat × Nat)
  pc : Nat
  height : Nat

def Machine.spot (m : Machine) : Spot :=
  ⟨m.loops.map fun frame => (frame.start, frame.stop), m.pc, m.stack.length⟩

-- Where an instruction may lead from a spot behind it.
def Instr.LeadsTo (r : Registry) (x y : Spot) : Instr → Prop
  | .jump target => y = ⟨x.loops, target.toInt.toNat, x.height⟩
  | .jumpIf _ target =>
    y = ⟨x.loops, x.pc, x.height - 1⟩ ∨ y = ⟨x.loops, target.toInt.toNat, x.height - 1⟩
  | .loop _ length =>
    y = ⟨x.loops, x.pc + length.toInt.toNat, x.height⟩ ∨
    y = ⟨(x.pc, x.pc + length.toInt.toNat) :: x.loops, x.pc, x.height⟩
  | .loopNum length =>
    y = ⟨x.loops, x.pc + length.toInt.toNat, x.height - 1⟩ ∨
    y = ⟨(x.pc, x.pc + length.toInt.toNat) :: x.loops, x.pc, x.height - 1⟩
  | .ret | .exit => False
  | i => y = ⟨x.loops, x.pc, i.after r x.height⟩

-- Where the code inside these loops ends.
def CompiledScript.stop (s : CompiledScript) : List (Nat × Nat) → Nat
  | [] => s.code.size
  | body :: _ => body.2

namespace Spot

-- What may come next. How many rounds a loop takes is left open.
inductive Leads (env : RunEnv) : Spot → Spot → Prop
  | instr (hlt : x.pc < env.script.stop x.loops) (hat : env.script.fetch x.pc = .ok (i, q))
      (h : i.LeadsTo env.registry ⟨x.loops, q, x.height⟩ y) : Leads env x y
  | again (hge : env.script.stop x.loops ≤ x.pc) (hloops : x.loops = body :: outer) :
      Leads env x ⟨body :: outer, body.1, x.height⟩
  | leave (hge : env.script.stop x.loops ≤ x.pc) (hloops : x.loops = body :: outer) :
      Leads env x ⟨outer, body.2, x.height⟩

-- What a run is held to: the height of the stack, the number of loops inside each other, and the
-- places where the stack must be empty.
structure Bounds where
  height : Nat
  loops : Nat
  edge : Nat → Prop

variable {env : RunEnv} {B : Bounds}

-- The bounds are kept, and the next instruction finds what it needs, and no more if it is the last.
structure Fine (env : RunEnv) (B : Bounds) (x : Spot) : Prop where
  height : x.height ≤ B.height
  loops : x.loops.length ≤ B.loops
  edge : B.edge x.pc → x.height = 0
  needs : x.pc < env.script.stop x.loops → ∀ i q, env.script.fetch x.pc = .ok (i, q) →
    i.needs env.registry ≤ x.height ∧ i.Quiet env.registry x.height

-- Whatever comes next is fine for so many steps.
def Safe (env : RunEnv) (B : Bounds) : Nat → Spot → Prop
  | 0, _ => True
  | n + 1, x => x.Fine env B ∧ ∀ y, Leads env x y → Safe env B n y

theorem Safe.fine {n : Nat} {x : Spot} (h : x.Safe env B (n + 1)) : x.Fine env B :=
  h.1

theorem Safe.next {n : Nat} {x y : Spot} (h : x.Safe env B (n + 1)) (hy : Leads env x y) :
    y.Safe env B n :=
  h.2 y hy

theorem Safe.mono {n : Nat} {x : Spot} (h : x.Safe env B (n + 1)) : x.Safe env B n := by
  induction n generalizing x with
  | zero => trivial
  | succ n ih => exact ⟨h.fine, fun y hy => ih (h.next hy)⟩

end Spot

-- Every instruction that does not end the script leads on, with the stack as high as it leaves it.
theorem Instr.exists_leadsTo (r : Registry) (x : Spot) {i : Instr} (h : i.flow = .next) :
    ∃ y, i.LeadsTo r x y ∧ y.height = i.after r x.height := by
  cases i with
  | ret => cases h
  | exit => cases h
  | jump target => exact ⟨_, rfl, rfl⟩
  | jumpIf on target => exact ⟨_, .inl rfl, rfl⟩
  | loop count length => exact ⟨_, .inl rfl, rfl⟩
  | loopNum length => exact ⟨_, .inl rfl, rfl⟩
  | _ => exact ⟨_, rfl, rfl⟩

theorem Instr.Moves.leadsTo {env : RunEnv} {m m' : Machine} {i : Instr} (h : i.Moves env m m')
    (hflow : i.flow = .next) : i.LeadsTo env.registry m.spot m'.spot := by
  have hheight := h.height
  have hcontinues := h.continues
  cases i with
  | ret => cases hflow
  | exit => cases hflow
  | jumpIf on target =>
      obtain ⟨hpc, hloops⟩ := hcontinues
      refine hpc.imp (fun hpc => ?_) fun hpc => ?_
      · simp only [Machine.spot, hpc, hloops, hheight, Instr.after]
      · simp only [Machine.spot, hpc, hloops, hheight, Instr.after]
  | loop count length =>
      rcases hcontinues with ⟨hpc, hloops⟩ | ⟨hpc, left, hloops⟩
      · exact .inl (by simp only [Machine.spot, hpc, hloops, hheight, Instr.after])
      · exact .inr (by simp only [Machine.spot, hpc, hloops, hheight, Instr.after, List.map_cons])
  | loopNum length =>
      rcases hcontinues with ⟨hpc, hloops⟩ | ⟨hpc, left, hloops⟩
      · exact .inl (by simp only [Machine.spot, hpc, hloops, hheight, Instr.after])
      · exact .inr (by simp only [Machine.spot, hpc, hloops, hheight, Instr.after, List.map_cons])
  | _ =>
      obtain ⟨hpc, hloops⟩ := hcontinues
      simp only [Instr.LeadsTo, Machine.spot, hpc, hloops, hheight, Instr.after]

-- Code that cannot be read is at fault itself.
theorem CompiledScript.structural_of_fetch {s : CompiledScript} {pc : Nat} {f : Fault}
    (h : s.fetch pc = .error f) : f.structural = true := by
  unfold fetch at h
  repeat' split at h
  all_goals cases h
  · rfl
  · rfl
  · unfold operandFault
    repeat' split
    all_goals rfl

namespace Machine

open Spot

variable {env : RunEnv} {B : Bounds} {m : Machine}

theorem stop_spot (env : RunEnv) (m : Machine) : env.script.stop m.spot.loops = Work.rangeEnd env m := by
  unfold CompiledScript.stop Work.rangeEnd spot
  cases m.loops with
  | nil => rfl
  | cons frame outer => rfl

-- What a fault of a run within bounds cannot be.
structure Withheld (B : Bounds) (m : Machine) (f : Fault) (m' : Machine) : Prop where
  height : m'.stack.length ≤ B.height
  warnings : m'.warnings = m.warnings
  underflow : f ≠ .stackUnderflow
  overflow : ∀ capacity, f = .stackOverflow capacity → m.stackCapacity < B.height

-- What a step of a run within bounds does.
structure Proceeds (env : RunEnv) (B : Bounds) (m : Machine) (flow : Flow) (m' : Machine) :
    Prop where
  height : m'.stack.length ≤ B.height
  warnings : m'.warnings = m.warnings
  stackCapacity : m'.stackCapacity = m.stackCapacity
  leads : flow = .next → Leads env m.spot m'.spot

-- A run within bounds, on a machine with room for so many values.
structure Bounded (env : RunEnv) (B : Bounds) (capacity : Nat) (m : Machine) : Prop where
  safe : ∀ n, m.spot.Safe env B n
  warnings : m.warnings = #[]
  stackCapacity : m.stackCapacity = capacity

variable [HostHooks]

theorem step_proceeds (hfine : m.spot.Fine env B)
    (hnext : ∀ y, Leads env m.spot y → y.height ≤ B.height) :
    Upholds (m.Withheld B) (m.Proceeds env B) (Work.step env m) := by
  have hheight : m.stack.length ≤ B.height := hfine.height
  refine Work.step_upholds (fun i pc hlt hat => ?_) (fun f hlt hat => ?_) (fun _ _ => ?_) ?_ ?_
  · have hlt' : m.spot.pc < env.script.stop m.spot.loops := by rwa [stop_spot]
    obtain ⟨hneeds, hquiet⟩ := hfine.needs hlt' i pc hat
    have hafter : i.after env.registry m.stack.length ≤ B.height := by
      by_cases hflow : i.flow = .next
      · obtain ⟨y, hy, hafter⟩ := i.exists_leadsTo env.registry ⟨m.spot.loops, pc, m.stack.length⟩ hflow
        have hle := hnext y (.instr hlt' hat hy)
        rwa [hafter] at hle
      · cases i <;> simp_all [Instr.flow, Instr.after]
    refine (Work.effect_moves env i { m with pc }).imp (fun f m' h => ?_) fun _ m' h => ?_
    · refine ⟨Nat.le_trans h.height hheight, h.warnings hquiet, fun hf => ?_, fun capacity hf => ?_⟩
      · have hlow : m.stack.length < i.needs env.registry := h.underflow hf
        have hneeds : i.needs env.registry ≤ m.stack.length := hneeds
        omega
      · exact Nat.lt_of_lt_of_le (h.overflow capacity hf) hafter
    · exact ⟨h.height ▸ hafter, h.warnings hquiet, h.stackCapacity,
        fun hflow => .instr hlt' hat (h.leadsTo hflow)⟩
  · have hkind := CompiledScript.structural_of_fetch hat
    refine ⟨hheight, rfl, fun hf => ?_, fun capacity hf => ?_⟩
    · rw [hf] at hkind
      cases hkind
    · rw [hf] at hkind
      cases hkind
  · exact ⟨hheight, rfl, rfl, fun h => by cases h⟩
  · intro frame outer left hge hloops hleft
    refine ⟨hheight, rfl, rfl, fun _ => ?_⟩
    rw [← stop_spot] at hge
    have hspot : m.spot.loops = (frame.start, frame.stop) ::
        outer.map fun frame => (frame.start, frame.stop) := by
      simp only [spot, hloops, List.map_cons]
    exact .again hge hspot
  · intro frame outer hge hloops hleft
    refine ⟨hheight, rfl, rfl, fun _ => ?_⟩
    rw [← stop_spot] at hge
    have hspot : m.spot.loops = (frame.start, frame.stop) ::
        outer.map fun frame => (frame.start, frame.stop) := by
      simp only [spot, hloops, List.map_cons]
    exact .leave hge hspot

theorem Bounded.step {capacity : Nat} (h : m.Bounded env B capacity) :
    Upholds (m.Withheld B) (fun flow m' => if flow = .next then m'.Bounded env B capacity
      else m'.stack.length ≤ B.height ∧ m'.warnings = #[]) (Work.step env m) := by
  have hnext : ∀ y, Leads env m.spot y → y.height ≤ B.height := fun y hy =>
    ((h.safe 2).next hy).fine.height
  refine (step_proceeds (h.safe 1).fine hnext).weaken fun flow m' hp => ?_
  split
  · rename_i hflow
    exact ⟨fun n => (h.safe (n + 1)).next (hp.leads hflow), hp.warnings.trans h.warnings,
      hp.stackCapacity.trans h.stackCapacity⟩
  · exact ⟨hp.height, hp.warnings.trans h.warnings⟩

-- A script whose code keeps its bounds from the start keeps them in every run.
theorem firstSteps_bounded (hsafe : ∀ n, Spot.Safe env B n ⟨[], 0, 0⟩) (m : Machine)
    (inputs : List (String × Value)) (count : Nat) :
    Leaves (Machine.Bounded env B m.stackCapacity)
      (fun m' => m'.stack.length ≤ B.height ∧ m'.warnings = #[])
      (fun f m' => m'.stack.length ≤ B.height ∧ m'.warnings = #[] ∧ f ≠ .stackUnderflow ∧
        ∀ capacity, f = .stackOverflow capacity → m.stackCapacity < B.height)
      (m.firstSteps env inputs count) := by
  refine execute_leaves (fun _ => Machine.Bounded env B m.stackCapacity) ?_ fun left m₁ h₁ => ?_
  · refine (bindInputs_keeps _ env.registry inputs env.script.inputs).imp (fun f m' h => ?_)
      fun _ m' h => ?_
    · refine ⟨Nat.le_trans h.height (Nat.zero_le _), h.warnings trivial, fun hf => ?_,
        fun capacity hf => ?_⟩
      · exact absurd (h.underflow hf) (Nat.not_lt_zero _)
      · exact absurd (h.overflow capacity hf) (Nat.not_lt_zero _)
    · have hspot : m'.spot = ⟨[], 0, 0⟩ := by
        have hheight : m'.stack.length + 0 = 0 := h.height
        simp only [spot, h.loops, h.pc, Nat.add_zero] at hheight ⊢
        rw [hheight]
        rfl
      exact ⟨fun n => hspot ▸ hsafe n, h.warnings, h.stackCapacity⟩
  · refine h₁.step.imp (fun f m' h => ?_) fun _ _ h => h
    exact ⟨h.height, h.warnings.trans h₁.warnings, h.underflow, fun capacity hf =>
      h₁.stackCapacity ▸ h.overflow capacity hf⟩

end Machine

end HostScript
