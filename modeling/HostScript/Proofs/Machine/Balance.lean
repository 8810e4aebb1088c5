import HostScript.Host.Core
import HostScript.Proofs.Machine.Moves
import HostScript.Proofs.Machine.Runs

namespace HostScript

namespace Machine

-- An object that the table holds was acquired and not yet released.
theorem toldOf_of_held {t : References} (ht : t.Told) {h : Nat} {o : ObjectRef}
    (hget : t.get? h = some (.object o)) :
    ∃ n, t.toldOf o = References.turns o n ++ [.acquired o] := by
  obtain ⟨n, hn⟩ := ht.turns o
  have hheld : t.holders.contains o = true := by
    rw [Std.TreeMap.contains_eq_isSome_getElem?, (ht.sound.holder o h).mpr hget]
    rfl
  exact ⟨n, by rw [hn, if_pos hheld]⟩

end Machine

section

variable [HostHooks]

-- Whatever an instruction does to the reference table, it does by taking and giving references.
theorem Work.step_leads (env : RunEnv) (m : Machine) :
    Upholds (fun _ m' => m.refs.Leads m'.refs) (fun _ m' => m.refs.Leads m'.refs)
      (step env m) := by
  refine step_upholds ?_ (fun _ _ _ => .refl) (fun _ _ => .refl) (fun _ _ _ _ _ _ => .refl)
    fun _ _ _ _ _ => .refl
  intro i pc _ _
  exact (effect_moves env i { m with pc }).imp (fun _ _ h => h.refs) fun _ _ h => h.refs

namespace Machine

variable {m : Machine}

theorem letGo_leads (m : Machine) (c : Cell) : m.refs.Leads (m.letGo c).refs := by
  have hgiven := Work.Calm.release c m
  unfold letGo
  cases hresult : Work.release c m with
  | ok u m₁ =>
      rw [hresult] at hgiven
      exact hgiven.refs
  | error f m₁ =>
      rw [hresult] at hgiven
      exact hgiven.1.refs

theorem foldl_letGo_leads (cells : List Cell) (m : Machine) :
    m.refs.Leads (cells.foldl letGo m).refs := by
  induction cells generalizing m with
  | nil => exact .refl
  | cons c cells ih => exact (letGo_leads m c).trans (ih (m.letGo c))

-- At every moment of a run the host knows exactly which objects are held.
theorem Rested.told (hm : m.Rested) (env : RunEnv) (inputs : List (String × Value)) (count : Nat) :
    (m.firstSteps env inputs count).2.refs.Told := by
  have hstart : (m.prepare env.script.localsCount).refs.Told :=
    References.told_forgetHooks hm.idle.sound hm.idle.unused
  have hall : Leaves (fun m' => m'.refs.Told) (fun m' => m'.refs.Told) (fun _ m' => m'.refs.Told)
      (m.firstSteps env inputs count) := by
    refine execute_leaves (fun _ m' => m'.refs.Told) ?_ fun left m₁ h₁ => ?_
    · exact (bindInputs_keeps _ _ _ _).imp (fun _ _ h => h.refs.told hstart)
        fun _ _ h => h.refs.told hstart
    · refine (Work.step_leads env m₁).imp (fun _ _ h => h.told h₁) fun flow m₂ h => ?_
      split <;> exact h.told h₁
  generalize m.firstSteps env inputs count = result at hall
  obtain ⟨_ | f | _, m₁⟩ := result <;> exact hall

theorem stack_reset (m : Machine) : m.reset.stack = [] := by
  obtain ⟨refs, told, h⟩ := foldl_letGo_eq (m.stack.reverse ++ m.locals.toList)
    { m with stack := [], locals := m.locals.map fun _ => .null }
  simp only [reset, h]

theorem locals_reset (m : Machine) : m.reset.locals = m.locals.map fun _ => .null := by
  obtain ⟨refs, told, h⟩ := foldl_letGo_eq (m.stack.reverse ++ m.locals.toList)
    { m with stack := [], locals := m.locals.map fun _ => .null }
  simp only [reset, h]

theorem told_reset (h : m.refs.Told) (o : ObjectRef) :
    ∃ n, m.reset.refs.toldOf o = References.turns o n := by
  let cleared : Machine := { m with stack := [], locals := m.locals.map fun _ => .null }
  have hgiven : ((m.stack.reverse ++ m.locals.toList).foldl letGo cleared).refs.Told :=
    (foldl_letGo_leads _ cleared).told h
  exact hgiven.drain o

-- However a run ends, and whatever its code did with handles, the host was told in turn that each
-- object is acquired and released, beginning with the one and ending with the other, and the machine
-- holds nothing any more. As long as an object was held, that it was acquired was the last word.
theorem hooks_balance (hm : m.Rested) (env : RunEnv) (fuel : Nat) (inputs : List (String × Value)) :
    (∀ o, ∃ n, (m.run env fuel inputs).2.refs.toldOf o = References.turns o n) ∧
    (∀ h, (m.run env fuel inputs).2.refs.find? h = none) ∧
    (m.run env fuel inputs).2.refs.live = 0 ∧
    (m.run env fuel inputs).2.stack = [] ∧
    (∀ c ∈ (m.run env fuel inputs).2.locals, c = .null) ∧
    ∀ k h o, (m.firstSteps env inputs k).2.refs.get? h = some (.object o) →
      ∃ n, (m.firstSteps env inputs k).2.refs.toldOf o = References.turns o n ++ [.acquired o] := by
  have hheld := fun k h o => toldOf_of_held (hm.told env inputs k) (h := h) (o := o)
  obtain ⟨entries, returned, runs, -, hrun⟩ := run_eq env fuel inputs m
  have htold := hm.told env entries fuel
  rw [hrun]
  generalize (m.firstSteps env entries fuel).2 = m₁ at htold
  refine ⟨told_reset htold, fun h => rfl, rfl, stack_reset m₁, fun c hc => ?_, hheld⟩
  have hc : c ∈ m₁.reset.locals := hc
  rw [locals_reset] at hc
  obtain ⟨_, -, hnull⟩ := Array.mem_map.mp hc
  exact hnull.symm

end Machine

end

namespace Machine

-- Makes a list, spreads its handle without counting it and gives it back once too often.
def careless : CompiledScript where
  name := "careless"
  code := #[49, 0, 0, 0, 0, 11, 0, 9, 0, 9, 0, 7, 7]
  strings := #[]
  localsCount := 1
  maxStack := 2
  inputs := []

def careless.registry : Registry where
  constructors := #[⟨0, 0, [], Core.newList⟩]

theorem careless_balance :
    (∀ o, ∃ n, ((Machine.new {} {}).run ⟨careless.registry, careless⟩ 10 []).2.refs.toldOf o =
      References.turns o n) ∧
    (∀ h, ((Machine.new {} {}).run ⟨careless.registry, careless⟩ 10 []).2.refs.find? h = none) ∧
    ((Machine.new {} {}).run ⟨careless.registry, careless⟩ 10 []).2.refs.live = 0 ∧
    ((Machine.new {} {}).run ⟨careless.registry, careless⟩ 10 []).2.stack = [] ∧
    (∀ c ∈ ((Machine.new {} {}).run ⟨careless.registry, careless⟩ 10 []).2.locals, c = .null) ∧
    ∀ k h o, ((Machine.new {} {}).firstSteps ⟨careless.registry, careless⟩ [] k).2.refs.get? h =
      some (.object o) →
      ∃ n, ((Machine.new {} {}).firstSteps ⟨careless.registry, careless⟩ [] k).2.refs.toldOf o =
        References.turns o n ++ [.acquired o] :=
  hooks_balance (.new {} {}) ⟨careless.registry, careless⟩ 10 []

end Machine

end HostScript
