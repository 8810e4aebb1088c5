import HostScript.Proofs.Machine.Runs
import HostScript.Proofs.Machine.Unseen

namespace HostScript

namespace Machine

-- A machine without what is the host's: its world, and what it has printed.
def inner (m : Machine) : Machine :=
  { m with world := .empty, printed := #[] }

def outside (m : Machine) : Outside :=
  ⟨m.world, m.printed⟩

-- The same machine with something else outside.
def facing (m : Machine) (o : Outside) : Machine :=
  { m with world := o.world, printed := o.printed }

end Machine

namespace Work

variable {α β : Type}

theorem onMachine_facing (o o' : Outside) (result : EStateM.Result Fault Machine α) :
    onMachine (·.facing o') (onMachine (·.facing o) result) = onMachine (·.facing o') result := by
  cases result <;> rfl

theorem onMachine_inner (o : Outside) (result : EStateM.Result Fault Machine α) :
    onMachine Machine.inner (onMachine (·.facing o) result) = onMachine Machine.inner result := by
  cases result <;> rfl

theorem onMachine_upholds {g : Machine → Machine} {E E' : Fault → Machine → Prop}
    {Q Q' : α → Machine → Prop} {result : EStateM.Result Fault Machine α} (h : Upholds E Q result)
    (hE : ∀ f m, E f m → E' f (g m)) (hQ : ∀ a m, Q a m → Q' a (g m)) :
    Upholds E' Q' (onMachine g result) := by
  cases result with
  | ok a m => exact hQ a m h
  | error f m => exact hE f m h

theorem exists_facing (result : EStateM.Result Fault Machine α) :
    ∃ o, result = onMachine (·.facing o) result := by
  cases result with
  | ok a m => exact ⟨m.outside, rfl⟩
  | error f m => exact ⟨m.outside, rfl⟩

variable [hooks : HostHooks]

-- Work that sees nothing of what is the host's, and changes it by way of the hooks only.
def Worldless (x : HostHooks → Work α) : Prop :=
  ∀ m o, (∃ o', x hooks m = onMachine (·.facing o') (x .idle m)) ∧
    x .idle (m.facing o) = onMachine (·.facing o) (x .idle m)

-- Work that does within the machine what it would do without hooks in some world: the one in which
-- the host is asked, which happens once at most.
def Worldly (x : HostHooks → Work α) : Prop :=
  ∀ m, ∃ o o', x hooks m = onMachine (·.facing o') (x .idle (m.facing o))

-- Work that knows nothing of hooks.
theorem Worldly.of_plain (x : Work α) : Worldly fun _ => x :=
  fun m => ⟨m.outside, exists_facing (x m)⟩

namespace Worldless

theorem of_plain {x : Work α} (hx : ∀ o, Ignores (·.facing o) x) : Worldless fun _ => x :=
  fun m o => ⟨exists_facing (x m), hx o m⟩

theorem worldly {x : HostHooks → Work α} (hx : Worldless x) : Worldly x := fun m =>
  have ⟨o', h⟩ := (hx m m.outside).1
  ⟨m.outside, o', h⟩

theorem bind_worldly {x : HostHooks → Work α} {f : α → HostHooks → Work β} (hx : Worldless x)
    (hf : ∀ a, Worldly (f a)) : Worldly fun h => x h >>= fun a => f a h := by
  intro m
  obtain ⟨⟨o₁, hhere⟩, -⟩ := hx m m.outside
  cases hresult : x .idle m with
  | error e m' =>
      refine ⟨m.outside, o₁, ?_⟩
      have hthere := (hx m m.outside).2
      simp only [bind, EStateM.bind, hhere, hthere, hresult]
      rfl
  | ok a m' =>
      obtain ⟨o, o', hnext⟩ := hf a (m'.facing o₁)
      refine ⟨o, o', ?_⟩
      have hthere := (hx m o).2
      simp only [bind, EStateM.bind, hhere, hthere, hresult]
      exact hnext

theorem bind {x : HostHooks → Work α} {f : α → HostHooks → Work β} (hx : Worldless x)
    (hf : ∀ a, Worldless (f a)) : Worldless fun h => x h >>= fun a => f a h := by
  intro m o
  obtain ⟨⟨o₁, hhere⟩, hthere⟩ := hx m o
  simp only [Bind.bind, EStateM.bind, hhere, hthere]
  cases x .idle m with
  | error e m' => exact ⟨⟨o₁, rfl⟩, rfl⟩
  | ok a m' =>
      obtain ⟨⟨o₂, hnext⟩, -⟩ := hf a (m'.facing o₁) o
      refine ⟨⟨o₂, hnext.trans ?_⟩, (hf a m' o).2⟩
      rw [(hf a m' o₁).2, onMachine_facing]

theorem pure (a : α) : Worldless fun _ => (Pure.pure a : Work α) :=
  of_plain fun _ => .pure a

theorem throw (f : Fault) : Worldless fun _ => (MonadExcept.throw f : Work α) :=
  of_plain fun _ => .throw f

theorem settle (outcome : Except Fault α) : Worldless fun _ => Work.settle outcome :=
  of_plain fun _ => .settle outcome

-- Such work does the same within the machine whatever is outside.
theorem inner_eq {x : HostHooks → Work α} (hx : Worldless x) (m : Machine) (o : Outside) :
    onMachine Machine.inner (x hooks (m.facing o)) = onMachine Machine.inner (x hooks m) := by
  obtain ⟨⟨o₁, hhere⟩, hidle⟩ := hx m o
  obtain ⟨⟨o₂, hthere⟩, -⟩ := hx (m.facing o) o
  rw [hthere, hidle, hhere, onMachine_facing, onMachine_inner, onMachine_inner]

end Worldless

namespace Worldly

theorem bind {x : HostHooks → Work α} {f : α → HostHooks → Work β} (hx : Worldly x)
    (hf : ∀ a, Worldless (f a)) : Worldly fun h => x h >>= fun a => f a h := by
  intro m
  obtain ⟨o, o₁, hhere⟩ := hx m
  simp only [Bind.bind, EStateM.bind, hhere]
  refine ⟨o, ?_⟩
  cases x .idle (m.facing o) with
  | error e m' => exact ⟨o₁, rfl⟩
  | ok a m' =>
      obtain ⟨⟨o₂, hnext⟩, -⟩ := hf a (m'.facing o₁) o
      refine ⟨o₂, hnext.trans ?_⟩
      rw [(hf a m' o₁).2, onMachine_facing]

theorem attempt {x : HostHooks → Work α} (hx : Worldly x) : Worldly fun h => Work.attempt (x h) := by
  intro m
  obtain ⟨o, o', h⟩ := hx m
  refine ⟨o, o', ?_⟩
  simp only [Work.attempt, h]
  cases x .idle (m.facing o) <;> rfl

end Worldly

namespace Worldless

theorem readRefs (f : References → Except Fault α) : Worldless fun _ => Work.readRefs f :=
  of_plain fun o m => by
    simp only [Overlooks, Work.readRefs, Machine.facing]
    cases f m.refs <;> rfl

theorem onRefs (f : References → Except Fault (α × References)) :
    Worldless fun _ => Work.onRefs f := by
  intro m o
  simp only [Work.onRefs, Machine.facing, HostHooks.tellAll_idle]
  cases f m.refs with
  | ok r => exact ⟨⟨⟨_, m.printed⟩, rfl⟩, rfl⟩
  | error e => exact ⟨⟨m.outside, rfl⟩, rfl⟩

theorem release (c : Cell) : Worldless fun _ => Work.release c := by
  unfold Work.release
  cases c.handle? with
  | none => exact pure ()
  | some h => exact onRefs _

theorem releaseAll (cells : List Cell) : Worldless fun _ => Work.releaseAll cells := by
  induction cells with
  | nil => exact pure ()
  | cons c cells ih => exact (release c).bind fun _ => ih

theorem push (c : Cell) : Worldless fun _ => Work.push c := by
  intro m o
  simp only [push_eq, Machine.facing]
  by_cases hroom : m.stack.length < m.stackCapacity
  · simp only [hroom, if_true]
    exact ⟨⟨m.outside, rfl⟩, rfl⟩
  · simp only [hroom, if_false]
    exact ((release c).bind fun _ => throw _) m o

theorem ofValue (v : Value) : Worldless fun _ => Work.ofValue v := by
  cases v with
  | text s => exact (onRefs _).bind fun _ => pure _
  | object o => exact (onRefs _).bind fun _ => pure _
  | _ => exact pure _

theorem toValue (c : Cell) : Worldless fun _ => Work.toValue c := by
  cases c with
  | text h => exact (readRefs _).bind fun _ => pure _
  | object h => exact (readRefs _).bind fun _ => pure _
  | _ => exact pure _

theorem toValues (cells : List Cell) : Worldless fun _ => Work.toValues cells := by
  induction cells with
  | nil => exact pure _
  | cons c cells ih => exact (toValue c).bind fun _ => ih.bind fun _ => pure _

theorem attempt {x : HostHooks → Work α} (hx : Worldless x) :
    Worldless fun h => Work.attempt (x h) := by
  intro m o
  obtain ⟨⟨o', hhere⟩, hthere⟩ := hx m o
  simp only [Work.attempt, hhere, hthere]
  cases x .idle m with
  | ok a m' => exact ⟨⟨o', rfl⟩, rfl⟩
  | error f m' => exact ⟨⟨o', rfl⟩, rfl⟩

theorem pop : Worldless fun _ => Work.pop :=
  of_plain fun o m => by
    rcases m with ⟨_, _ | ⟨c, stack⟩, _⟩ <;> rfl

theorem popMany (count : Nat) : Worldless fun _ => Work.popMany count :=
  of_plain fun o m => by
    by_cases hcount : count ≤ m.stack.length
    · simp only [Overlooks, Work.popMany, Machine.facing, hcount, if_true]
      rfl
    · simp only [Overlooks, Work.popMany, Machine.facing, hcount, if_false]
      rfl

theorem popArgs (count : Nat) : Worldless fun _ => Work.popArgs count :=
  (popMany count).bind fun cells => (toValues cells).attempt.bind fun _ =>
    (releaseAll cells).bind fun _ => settle _

theorem pushResult (r : Registry) (declared : Ty) (member : String) (v : Value) :
    Worldless fun _ => Work.pushResult r declared member v := by
  unfold Work.pushResult
  split
  · exact push _
  · split
    · exact (ofValue v).bind push
    · exact throw _

theorem poolString (env : RunEnv) (index : UInt16) : Worldless fun _ => Work.poolString env index := by
  unfold Work.poolString
  split
  · exact pure _
  · exact throw _

theorem methodAt (r : Registry) (id : Int32) : Worldless fun _ => Work.methodAt r id := by
  unfold Work.methodAt
  split
  · exact pure _
  · exact throw _

theorem propertyAt (r : Registry) (id : Int32) : Worldless fun _ => Work.propertyAt r id := by
  unfold Work.propertyAt
  split
  · exact pure _
  · exact throw _

theorem constructorAt (r : Registry) (id : Int32) : Worldless fun _ => Work.constructorAt r id := by
  unfold Work.constructorAt
  split
  · exact pure _
  · exact throw _

theorem getterOf (d : PropertyDef) : Worldless fun _ => Work.getterOf d := by
  unfold Work.getterOf
  split
  · exact pure _
  · exact throw _

theorem setterOf (d : PropertyDef) : Worldless fun _ => Work.setterOf d := by
  unfold Work.setterOf
  split
  · exact pure _
  · exact throw _

theorem loadLocal (slot : Nat) : Worldless fun _ => Work.loadLocal slot :=
  of_plain fun o m => by
    simp only [Overlooks, Work.loadLocal, Machine.facing]
    cases m.locals[slot]? <;> rfl

theorem storeLocal (slot : Nat) (c : Cell) : Worldless fun _ => Work.storeLocal slot c :=
  (loadLocal slot).bind fun _ => (of_plain fun _ _ => rfl : Worldless fun _ =>
    (modify fun m => { m with locals := m.locals.setIfInBounds slot c } : Work Unit)).bind fun _ =>
      pure _

theorem jumpTo (pc : Nat) : Worldless fun _ => Work.jumpTo pc :=
  of_plain fun _ _ => rfl

theorem setReturned (v : Value) :
    Worldless fun _ => (modify fun m => { m with returned := v } : Work Unit) :=
  of_plain fun _ _ => rfl

theorem unwind : Worldless fun _ => Work.unwind := by
  rintro ⟨_, _ | ⟨c, cells⟩, _⟩ o
  · exact pure () _ o
  · exact releaseAll (c :: cells).reverse _ o

end Worldless

variable (env : RunEnv)

-- The operands are read in one world, and given back after that.
theorem Worldly.binary {f : HostHooks → Cell → Cell → Work Cell} (hf : ∀ a b, Worldly fun h => f h a b) :
    Worldly fun h => @Work.binary h (f h) :=
  Worldless.pop.bind_worldly fun b => Worldless.pop.bind_worldly fun a =>
    (hf a b).attempt.bind fun result => (Worldless.release a).bind fun _ =>
      (Worldless.release b).bind fun _ => (Worldless.settle result).bind .push

theorem Worldly.concat (a b : Cell) : Worldly fun _ => Work.concat a b := by
  have hconcat : ∀ h : HostHooks, Work.concat a b =
      (do return (← display a) ++ (← display b)) >>= fun s => do
        return .text (← Work.onRefs (·.insertText s)) := fun _ => by
    simp only [Work.concat, bind_assoc, pure_bind]
  simp only [hconcat]
  exact (of_plain _).bind fun _ => (Worldless.onRefs _).bind fun _ => .pure _

theorem Worldly.arithResult (op : Arith) (a b : Cell) : Worldly fun _ => Work.arithResult op a b := by
  have hjoin : Worldly fun _ => if op = .add then Work.concat a b
      else MonadExcept.throw (.badOperands op.symbol a.kindName b.kindName) := by
    split
    · exact concat a b
    · exact of_plain _
  unfold Work.arithResult
  split
  · exact of_plain _
  · exact hjoin
  · exact hjoin
  · exact of_plain _

theorem Worldly.binaryNum (f : Float → Float → Cell) : Worldly fun _ => Work.binaryNum f := by
  refine (of_plain Work.pop).bind fun b => Worldless.pop.bind fun a => ?_
  split
  · exact .push _
  · exact (Worldless.release _).bind fun _ => (Worldless.release _).bind fun _ => .throw _

-- Taking a value that is not of the right kind off the stack gives it back.
theorem Worldless.refuse {α : Type} (c : Cell) (f : Fault) :
    Worldless fun _ => (do Work.release c; MonadExcept.throw f : Work α) :=
  (release c).bind fun _ => throw f

namespace Worldly

variable (r : Registry) (id : Int32)

theorem invokeStatic : Worldly fun _ => Work.invokeStatic r id :=
  (Worldless.methodAt r id).bind_worldly fun _ => (Worldless.popArgs _).bind_worldly fun _ =>
    (of_plain _).bind fun _ => .pushResult _ _ _ _

theorem invoke : Worldly fun _ => Work.invoke r id :=
  (Worldless.methodAt r id).bind_worldly fun _ => (Worldless.popArgs _).bind_worldly fun _ =>
    Worldless.pop.bind_worldly fun target => (of_plain _).bind fun _ =>
      (Worldless.release target).bind fun _ => (Worldless.settle _).bind fun _ => .pushResult _ _ _ _

theorem invokeDynamic (name argc : UInt16) : Worldly fun _ => Work.invokeDynamic env name argc :=
  (Worldless.poolString env name).bind_worldly fun _ => (Worldless.popMany _).bind_worldly fun args =>
    Worldless.pop.bind_worldly fun target => (of_plain _).bind fun _ =>
      (Worldless.releaseAll args).bind fun _ => (Worldless.release target).bind fun _ =>
        (Worldless.settle _).bind fun _ => .pushResult _ _ _ _

theorem getProperty : Worldly fun _ => Work.getProperty r id :=
  (Worldless.propertyAt r id).bind_worldly fun d => (Worldless.getterOf d).bind_worldly fun _ =>
    Worldless.pop.bind_worldly fun target => (of_plain _).bind fun _ =>
      (Worldless.release target).bind fun _ => (Worldless.settle _).bind fun _ => .pushResult _ _ _ _

theorem getStaticProperty : Worldly fun _ => Work.getStaticProperty r id :=
  (Worldless.propertyAt r id).bind_worldly fun d => (Worldless.getterOf d).bind_worldly fun _ =>
    (of_plain _).bind fun _ => .pushResult _ _ _ _

theorem setProperty : Worldly fun _ => Work.setProperty r id :=
  (Worldless.propertyAt r id).bind_worldly fun d => (Worldless.setterOf d).bind_worldly fun _ =>
    Worldless.pop.bind_worldly fun c => Worldless.pop.bind_worldly fun target =>
      (of_plain _).bind fun _ => (Worldless.release c).bind fun _ =>
        (Worldless.release target).bind fun _ => .settle _

theorem setStaticProperty : Worldly fun _ => Work.setStaticProperty r id :=
  (Worldless.propertyAt r id).bind_worldly fun d => (Worldless.setterOf d).bind_worldly fun _ =>
    Worldless.pop.bind_worldly fun c => (of_plain _).bind fun _ =>
      (Worldless.release c).bind fun _ => .settle _

theorem getDynamicProperty (name : UInt16) : Worldly fun _ => Work.getDynamicProperty env name :=
  (Worldless.poolString env name).bind_worldly fun _ => Worldless.pop.bind_worldly fun target =>
    (of_plain _).bind fun _ => (Worldless.release target).bind fun _ =>
      (Worldless.settle _).bind fun _ => .pushResult _ _ _ _

theorem setDynamicProperty (name : UInt16) : Worldly fun _ => Work.setDynamicProperty env name :=
  (Worldless.poolString env name).bind_worldly fun _ => Worldless.pop.bind_worldly fun c =>
    Worldless.pop.bind_worldly fun target => (of_plain _).bind fun _ =>
      (Worldless.release c).bind fun _ => (Worldless.release target).bind fun _ => .settle _

theorem construct : Worldly fun _ => Work.construct r id :=
  (Worldless.constructorAt r id).bind_worldly fun _ => (Worldless.popArgs _).bind_worldly fun _ =>
    (of_plain _).bind fun _ => (Worldless.onRefs _).bind fun _ => .push _

theorem ret : Worldly fun _ => Work.ret :=
  (of_plain Work.pop).bind fun c => (Worldless.toValue c).attempt.bind fun _ =>
    (Worldless.release c).bind fun _ => (Worldless.settle _).bind fun _ =>
      (Worldless.setReturned _).bind fun _ => .unwind

end Worldly

-- Whatever the host makes of what it is told, an instruction does what it would do without that in
-- some world.
theorem effect_worldly (i : Instr) : Worldly fun _ => effect env i := by
  cases i with
  | nop | jump | setLocNoRef | checkType | peekCheckType | loop => exact .of_plain _
  | pushNull | pushBool | pushLong | pushDouble => exact (Worldless.push _).worldly
  | pushString index =>
      exact ((Worldless.poolString env index).bind fun _ => (Worldless.onRefs _).bind fun _ =>
        .push _).worldly
  | pop => exact (Worldless.pop.bind .release).worldly
  | loadLoc slot =>
      refine (Worldly.of_plain (loadLocal slot.toNat)).bind fun c => ?_
      cases c.handle? with
      | some h => exact (Worldless.onRefs _).bind fun _ => .push c
      | none => exact .push c
  | loadLocNoRef slot => exact (Worldly.of_plain (loadLocal slot.toNat)).bind .push
  | setLoc slot =>
      have hstore : Worldly fun _ => (do
          let _ ← loadLocal slot.toNat
          storeLocal slot.toNat (← pop)) >>= fun old => release old :=
        (Worldly.of_plain _).bind .release
      simpa only [effect, setLoc, bind_assoc] using hstore
  | arith op => exact .binary (.arithResult op)
  | order op => exact .binary fun _ _ => .of_plain _
  | equals negated => exact .binary fun _ _ => .of_plain _
  | arithNum | orderNum | equalsNum => exact .binaryNum _
  | neg | negNum | not =>
      refine (Worldly.of_plain Work.pop).bind fun c => ?_
      split
      · exact .push _
      · exact .refuse _ _
  | jumpIf on target =>
      refine (Worldly.of_plain (jumpTarget env target)).bind fun _ => Worldless.pop.bind fun c => ?_
      split
      · split
        · exact .jumpTo _
        · exact .pure ()
      · exact .refuse c _
  | invoke id => exact .invoke _ id
  | invokeStatic id => exact .invokeStatic _ id
  | invokeDynamic name argc => exact .invokeDynamic env name argc
  | getProperty id => exact .getProperty _ id
  | setProperty id => exact .setProperty _ id
  | getStaticProperty id => exact .getStaticProperty _ id
  | setStaticProperty id => exact .setStaticProperty _ id
  | getDynamicProperty name => exact .getDynamicProperty env name
  | setDynamicProperty name => exact .setDynamicProperty env name
  | new id => exact .construct _ id
  | loopNum length =>
      refine Worldless.pop.bind_worldly fun c => ?_
      split
      · exact .of_plain _
      · exact (Worldless.refuse c _).worldly
  | ret => exact .ret
  | exit => exact Worldless.unwind.worldly

-- So does a step.
theorem step_worldly : Worldly fun _ => step env := by
  intro m
  have hother (h : step env m = @step .idle env m) : ∃ o o', step env m =
      onMachine (·.facing o') (@step .idle env (m.facing o)) :=
    have ⟨o', h'⟩ := exists_facing (@step .idle env m)
    ⟨m.outside, o', h.trans h'⟩
  by_cases hlt : m.pc < rangeEnd env m
  · cases hfetch : env.script.fetch m.pc with
    | ok next =>
        obtain ⟨i, q⟩ := next
        obtain ⟨o, o', h⟩ := (effect_worldly env i).bind (fun _ => Worldless.pure i.flow)
          { m with pc := q }
        refine ⟨o, o', (step_of_fetch hlt hfetch).trans (h.trans (congrArg _ ?_))⟩
        exact (@step_of_fetch .idle env (m.facing o) i q hlt hfetch).symm
    | error f =>
        apply hother
        simp only [step, bind, EStateM.bind, get, getThe, MonadStateOf.get, EStateM.get, hlt, if_true,
          hfetch]
        rfl
  · apply hother
    simp only [step, bind, EStateM.bind, get, getThe, MonadStateOf.get, EStateM.get, hlt, if_false]

end Work

namespace Machine

open Work

theorem code_leftoverWarning (w : World) :
    Warning.code ∘ leftoverWarning w = fun _ => .referenceNotRemoved := by
  funext ⟨h, payload⟩
  cases payload <;> rfl

variable [hooks : HostHooks]

theorem bindInput_worldless (r : Registry) (name : String) (slot : InputSlot) (v : Value) :
    Worldless fun _ => bindInput r name slot v := by
  unfold bindInput
  split
  · exact (Worldless.loadLocal _).bind fun _ => (Worldless.ofValue v).bind fun c =>
      (Worldless.storeLocal _ c).bind fun _ => .pure ()
  · exact .throw _

theorem bindInputs_worldless (r : Registry) (inputs : List (String × Value))
    (table : List (String × InputSlot)) : Worldless fun _ => bindInputs r inputs table := by
  induction table with
  | nil => exact .pure ()
  | cons entry rest ih => exact (bindInput_worldless r _ _ _).bind fun _ => ih

theorem letGo_facing (m : Machine) (o : Outside) (c : Cell) :
    ∃ o', letGo (m.facing o) c = (@letGo .idle m c).facing o' := by
  obtain ⟨⟨o', h⟩, -⟩ := Worldless.release c (m.facing o) o
  rw [(Worldless.release c m o).2, onMachine_facing] at h
  have h : release c (m.facing o) = onMachine (·.facing o') (@release .idle c m) := h
  refine ⟨o', ?_⟩
  simp only [letGo, h]
  cases @release .idle c m <;> rfl

theorem foldl_letGo_facing (cells : List Cell) (m : Machine) (o : Outside) :
    ∃ o', cells.foldl letGo (m.facing o) = (cells.foldl (@letGo .idle) m).facing o' := by
  induction cells generalizing m o with
  | nil => exact ⟨o, rfl⟩
  | cons c cells ih =>
      obtain ⟨o', h⟩ := letGo_facing m o c
      rw [List.foldl_cons, List.foldl_cons, h]
      exact ih (@letGo .idle m c) o'

-- What is reported at the end of a run is of the same kinds, though the texts may be others.
theorem reset_codes (m : Machine) :
    m.reset.warnings.map Warning.code = (@reset .idle m).warnings.map Warning.code := by
  obtain ⟨o', h⟩ := foldl_letGo_facing (m.stack.reverse ++ m.locals.toList)
    { m with stack := [], locals := m.locals.map fun _ => .null } m.outside
  have h : (m.stack.reverse ++ m.locals.toList).foldl letGo
      { m with stack := [], locals := m.locals.map fun _ => .null } = _ := h
  simp only [reset, h, Array.map_append, List.map_toArray, List.map_map, code_leftoverWarning, facing]

end Machine

end HostScript
