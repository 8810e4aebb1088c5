import HostScript.Proofs.Machine.Unseen

namespace HostScript

-- A change of where a run is: of its variables, of the loops it is in and of its place in the code.
structure Relocation where
  locals : Array Cell → Array Cell
  loops : List LoopFrame → List LoopFrame
  pc : Nat → Nat

def Machine.relocate (g : Relocation) (m : Machine) : Machine :=
  { m with locals := g.locals m.locals, loops := g.loops m.loops, pc := g.pc m.pc }

namespace Machine

variable (g : Relocation) (m : Machine)

@[simp] theorem relocate_stack : (m.relocate g).stack = m.stack := rfl

@[simp] theorem relocate_stackCapacity : (m.relocate g).stackCapacity = m.stackCapacity := rfl

@[simp] theorem relocate_refs : (m.relocate g).refs = m.refs := rfl

@[simp] theorem relocate_world : (m.relocate g).world = m.world := rfl

end Machine

namespace Work

-- Work that neither sees nor changes where a run is.
def Blind {α : Type} (x : Work α) : Prop :=
  ∀ g m, Overlooks (Machine.relocate g) x m

namespace Blind

variable {α β : Type}

theorem pure (a : α) : Blind (Pure.pure a : Work α) := fun _ _ => rfl

theorem throw (f : Fault) : Blind (MonadExcept.throw f : Work α) := fun _ _ => rfl

theorem bind {x : Work α} {f : α → Work β} (hx : Blind x) (hf : ∀ a, Blind (f a)) :
    Blind (x >>= f) :=
  fun g m => (hx g m).bind fun a m' _ => hf a g m'

variable [HostHooks]

theorem onRefs (f : References → Except Fault (α × References)) : Blind (Work.onRefs f) := by
  intro g m
  simp only [Overlooks, Work.onRefs, Machine.relocate_refs]
  cases f m.refs <;> rfl

theorem release (c : Cell) : Blind (Work.release c) := by
  unfold Work.release
  cases c.handle? with
  | none => exact pure ()
  | some h => exact onRefs _

end Blind

end Work

theorem Machine.unseen_relocate [HostHooks] (g : Relocation) : Unseen (relocate g) where
  stack _ := rfl
  world _ := rfl
  printed _ := rfl
  warnings _ := rfl
  payload _ _ := rfl
  setStack _ _ := rfl
  setOutside _ _ _ := rfl
  setWarnings _ _ := rfl
  setReturned _ _ := rfl
  release c := Work.Blind.release c g

namespace Work

namespace Blind

variable [HostHooks] {α : Type}

theorem of_unseen {x : Work α} (h : ∀ g, Machine.Unseen g → Ignores g x) : Blind x :=
  fun g => h _ (Machine.unseen_relocate g)

theorem push (c : Cell) : Blind (Work.push c) := by
  intro g m
  simp only [Overlooks, push_eq, Machine.relocate_stack, Machine.relocate_stackCapacity]
  by_cases hroom : m.stack.length < m.stackCapacity
  · simp only [hroom, if_true]
    rfl
  · simp only [hroom, if_false]
    exact ((release c).bind fun _ => throw _) g m

theorem ofValue (v : Value) : Blind (Work.ofValue v) := by
  cases v with
  | text s => exact (onRefs _).bind fun _ => pure _
  | object o => exact (onRefs _).bind fun _ => pure _
  | _ => exact pure _

theorem reads : Reads Blind where
  pure := pure
  throw _ := throw _
  bind := bind
  text h := of_unseen fun _ hg => hg.reads.text h
  object h := of_unseen fun _ hg => hg.reads.object h
  typeOf r c := of_unseen fun _ hg => hg.reads.typeOf r c
  shown v := of_unseen fun _ hg => hg.reads.shown v
  host x := of_unseen fun _ hg => hg.reads.host x
  release := release

theorem calculates : Calculates Blind Blind where
  toClosed := reads.toClosed
  reads := reads
  of_reads hx := hx
  attempt hx hf g := (Ignores.attempt (hx g)).bind fun outcome =>
    hf outcome (fun _ => Ignores.settle outcome) g
  missing _ := throw _
  pop := of_unseen fun _ hg => hg.pop
  popMany count := of_unseen fun _ hg => hg.popMany count
  peek depth := of_unseen fun _ hg => hg.peek depth
  push _ := push _
  pushValue v := (ofValue v).bind push

end Blind

-- Instructions that have nothing to do with variables and places do not depend on them.
theorem effect_blind [HostHooks] (env : RunEnv) {i : Instr} (hi : i.isLocated = false) :
    Blind (effect env i) := by
  cases i with
  | arith | order | equals =>
      exact Blind.calculates.operate .push (fun s => .onRefs _) env rfl
  | ret => exact .of_unseen fun _ hg => hg.ret
  | exit => exact .of_unseen fun _ hg => hg.unwind
  | loadLoc | loadLocNoRef | setLoc | setLocNoRef | jump | jumpIf | loop | loopNum => cases hi
  | _ => exact Blind.calculates.effect env rfl rfl rfl

end Work

end HostScript
