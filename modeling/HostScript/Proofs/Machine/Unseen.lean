import HostScript.Proofs.Machine.Composition

namespace HostScript

-- The same outcome with the machine changed.
def Work.onMachine {α : Type} (g : Machine → Machine) :
    EStateM.Result Fault Machine α → EStateM.Result Fault Machine α
  | .ok a m => .ok a (g m)
  | .error f m => .error f (g m)

-- Work overlooks a change of the machine when it does the same with it and without it.
def Work.Overlooks {α : Type} (g : Machine → Machine) (x : Work α) (m : Machine) : Prop :=
  x (g m) = Work.onMachine g (x m)

theorem Work.Overlooks.bind {α β : Type} {g : Machine → Machine} {x : Work α} {f : α → Work β}
    {m : Machine} (hx : Work.Overlooks g x m)
    (hf : ∀ a m', x m = .ok a m' → Work.Overlooks g (f a) m') : Work.Overlooks g (x >>= f) m := by
  simp only [Work.Overlooks, Bind.bind, EStateM.bind] at hx ⊢
  rw [hx]
  cases hresult : x m with
  | ok a m' => exact hf a m' hresult
  | error e m' => rfl

-- Work that overlooks a change of any machine.
def Work.Ignores {α : Type} (g : Machine → Machine) (x : Work α) : Prop :=
  ∀ m, Work.Overlooks g x m

namespace Work.Ignores

variable {α β : Type} {g : Machine → Machine}

theorem pure (a : α) : Ignores g (Pure.pure a : Work α) := fun _ => rfl

theorem throw (f : Fault) : Ignores g (MonadExcept.throw f : Work α) := fun _ => rfl

theorem bind {x : Work α} {f : α → Work β} (hx : Ignores g x) (hf : ∀ a, Ignores g (f a)) :
    Ignores g (x >>= f) :=
  fun m => (hx m).bind fun a m' _ => hf a m'

theorem attempt {x : Work α} (hx : Ignores g x) : Ignores g (Work.attempt x) := by
  intro m
  have hone : x (g m) = onMachine g (x m) := hx m
  simp only [Overlooks, Work.attempt, hone]
  cases x m <;> rfl

theorem settle (result : Except Fault α) : Ignores g (Work.settle result) := by
  cases result with
  | ok a => exact pure a
  | error f => exact throw f

end Work.Ignores

-- A change of the machine that only work which takes room, reads variables or goes elsewhere can
-- notice: what references hold and how they are given back, the stack and what belongs to the host
-- are as before.
structure Machine.Unseen [HostHooks] (g : Machine → Machine) : Prop where
  stack : ∀ m, (g m).stack = m.stack
  world : ∀ m, (g m).world = m.world
  printed : ∀ m, (g m).printed = m.printed
  warnings : ∀ m, (g m).warnings = m.warnings
  payload : ∀ m h, (g m).refs.get? h = m.refs.get? h
  setStack : ∀ m stack, g { m with stack } = { g m with stack }
  setOutside : ∀ m world printed, g { m with world, printed } = { g m with world, printed }
  setWarnings : ∀ m warnings, g { m with warnings } = { g m with warnings }
  setReturned : ∀ m returned, g { m with returned } = { g m with returned }
  release : ∀ c, Work.Ignores g (Work.release c)

namespace Machine.Unseen

open Work (Ignores Overlooks)

variable [HostHooks] {g : Machine → Machine} (hg : Unseen g)
include hg

theorem reads : Work.Reads (Ignores g) where
  pure := .pure
  throw _ := .throw _
  bind := .bind
  text h m := by
    simp only [Overlooks, Work.readRefs, References.text, hg.payload]
    split <;> rfl
  object h m := by
    simp only [Overlooks, Work.readRefs, References.object, hg.payload]
    split <;> rfl
  typeOf r c m := by
    cases c with
    | object h =>
        simp only [Overlooks, Work.typeOf, Bind.bind, EStateM.bind, get, getThe, MonadStateOf.get,
          EStateM.get, hg.payload]
        cases m.refs.get? h with
        | none => rfl
        | some payload => cases payload <;> rfl
    | _ => rfl
  shown v m := by
    simp only [Overlooks, Bind.bind, EStateM.bind, get, getThe, MonadStateOf.get, EStateM.get,
      hg.world]
    rfl
  host x m := by
    simp only [Overlooks, Work.host, hg.world, hg.printed]
    cases (x m.world).result with
    | ok a => exact congrArg (EStateM.Result.ok a) (hg.setOutside m _ _).symm
    | error e => exact congrArg (EStateM.Result.error _) (hg.setOutside m _ _).symm
  release := hg.release

theorem pop : Ignores g Work.pop := by
  intro m
  simp only [Overlooks, Work.pop, hg.stack]
  cases m.stack with
  | nil => rfl
  | cons c stack => exact congrArg (EStateM.Result.ok c) (hg.setStack m stack).symm

theorem popMany (count : Nat) : Ignores g (Work.popMany count) := by
  intro m
  simp only [Overlooks, Work.popMany, hg.stack]
  split
  · exact congrArg (EStateM.Result.ok _) (hg.setStack m _).symm
  · rfl

theorem peek (depth : Nat) : Ignores g (Work.peek depth) := by
  intro m
  simp only [Overlooks, Work.peek, hg.stack]
  cases m.stack[depth]? <;> rfl

theorem warn (w : Warning) : Ignores g (Work.warn w) := by
  intro m
  have hwarned : { g m with warnings := (g m).warnings.push w } =
      g { m with warnings := m.warnings.push w } := by
    rw [hg.warnings]
    exact (hg.setWarnings m _).symm
  exact congrArg (EStateM.Result.ok ()) hwarned

theorem unwind : Ignores g Work.unwind := by
  intro m
  simp only [Overlooks, Work.unwind, Bind.bind, EStateM.bind, get, getThe, MonadStateOf.get,
    EStateM.get, hg.stack]
  cases m.stack with
  | nil => rfl
  | cons c rest =>
      have hclear : Ignores g (modify fun m => { m with stack := [] }) := fun m =>
        congrArg (EStateM.Result.ok ()) (hg.setStack m []).symm
      exact ((hg.warn _).bind fun _ => hclear.bind fun _ => hg.reads.releaseAll (c :: rest).reverse) m

theorem ret : Ignores g Work.ret := by
  refine hg.pop.bind fun c => (hg.reads.toValue c).attempt.bind fun value => (hg.release c).bind fun _ =>
    (Ignores.settle value).bind fun v => .bind ?_ fun _ => hg.unwind
  exact fun m => congrArg (EStateM.Result.ok ()) (hg.setReturned m v).symm

theorem letGo (m : Machine) (c : Cell) : (g m).letGo c = g (m.letGo c) := by
  have hrelease : Work.release c (g m) = Work.onMachine g (Work.release c m) := hg.release c m
  simp only [Machine.letGo, hrelease]
  cases Work.release c m <;> rfl

theorem foldl_letGo (cells : List Cell) (m : Machine) :
    cells.foldl Machine.letGo (g m) = g (cells.foldl Machine.letGo m) := by
  induction cells generalizing m with
  | nil => rfl
  | cons c cells ih => rw [List.foldl_cons, List.foldl_cons, hg.letGo, ih]

end Machine.Unseen

end HostScript
