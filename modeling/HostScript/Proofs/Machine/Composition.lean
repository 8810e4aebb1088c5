import HostScript.Machine.Run
import HostScript.Proofs.Stateful

namespace HostScript

namespace Fault

-- Faults of the code itself: it cannot be read, or names something that is not there.
def structural : Fault → Bool
  | .outside _ | .unknownOpcode _ _ | .truncated | .badTypeCheck _ | .noSuchString _ | .badJump _
  | .badLoopLength _ | .noSuchLocal _ | .unknownMember _ _ => true
  | _ => false

-- Faults that lie neither in the code nor in the height of the stack.
def incidental (f : Fault) : Bool :=
  match f with
  | .stackOverflow _ | .stackUnderflow => false
  | f => !f.structural

-- Faults of code that cannot be decoded, or that leads out of itself.
def ofLayout : Fault → Bool
  | .outside _ | .unknownOpcode _ _ | .truncated | .badTypeCheck _ | .badJump _
  | .badLoopLength _ => true
  | _ => false

theorem ofLayout_of_incidental {f : Fault} (h : f.incidental = true) : f.ofLayout = false := by
  cases f <;> first | rfl | cases h

end Fault

namespace Work

theorem push_eq [HostHooks] (c : Cell) (m : Machine) : push c m =
    if m.stack.length < m.stackCapacity then .ok () { m with stack := c :: m.stack }
    else (do release c; throw (.stackOverflow m.stackCapacity) : Work Unit) m := by
  simp only [push, bind, EStateM.bind, get, getThe, MonadStateOf.get, EStateM.get]
  split <;> rfl

-- A property that work has if its parts have it, whatever the cause is for which it may stop.
structure Closed (P : ∀ {α : Type}, Work α → Prop) : Prop where
  pure : ∀ {α : Type} (a : α), P (Pure.pure a : Work α)
  throw : ∀ {α : Type} {f : Fault}, f.incidental = true → P (MonadExcept.throw f : Work α)
  bind : ∀ {α β : Type} {x : Work α} {f : α → Work β}, P x → (∀ a, P (f a)) → P (x >>= f)

-- One of work that looks things up, asks the host and gives references back.
structure Reads [HostHooks] (P : ∀ {α : Type}, Work α → Prop) : Prop extends Closed P where
  text : ∀ h, P (readRefs (·.text h))
  object : ∀ h, P (readRefs (·.object h))
  typeOf : ∀ r c, P (Work.typeOf r c)
  shown : ∀ v, P (do return (← get).world.display v)
  host : ∀ {α : Type} (x : HostM α), P (Work.host x)
  release : ∀ c, P (Work.release c)

-- One of work that also takes values off the stack. Where the outcome is waited for, the work has
-- the property `Q`.
structure Takes [HostHooks] (Q P : ∀ {α : Type}, Work α → Prop) : Prop extends Closed P where
  reads : Reads Q
  of_reads : ∀ {α : Type} {x : Work α}, Q x → P x
  attempt : ∀ {α β : Type} {x : Work α} {f : Except Fault α → Work β}, Q x →
    (∀ outcome, P (settle outcome) → P (f outcome)) → P (Work.attempt x >>= f)
  missing : ∀ {α : Type} {f : Fault}, f.ofLayout = false → P (MonadExcept.throw f : Work α)
  pop : P Work.pop
  popMany : ∀ count, P (Work.popMany count)
  peek : ∀ depth, P (Work.peek depth)

-- One of work that also puts values on the stack.
structure Puts [HostHooks] (P : ∀ {α : Type}, Work α → Prop) : Prop extends Closed P where
  push : ∀ {c : Cell}, c.handle? = none → P (Work.push c)
  pushValue : ∀ v, P (do Work.push (← Work.ofValue v))

-- One of work that calculates with the stack.
structure Calculates [HostHooks] (Q P : ∀ {α : Type}, Work α → Prop) : Prop
    extends Takes Q P, Puts P

variable [HostHooks]

namespace Reads

variable {P Q : ∀ {α : Type}, Work α → Prop} {α : Type} (hP : Reads P)
include hP

theorem and (hQ : Reads Q) : Reads fun {α} (x : Work α) => P x ∧ Q x where
  pure a := ⟨hP.pure a, hQ.pure a⟩
  throw hf := ⟨hP.throw hf, hQ.throw hf⟩
  bind hx hf := ⟨hP.bind hx.1 fun a => (hf a).1, hQ.bind hx.2 fun a => (hf a).2⟩
  text h := ⟨hP.text h, hQ.text h⟩
  object h := ⟨hP.object h, hQ.object h⟩
  typeOf r c := ⟨hP.typeOf r c, hQ.typeOf r c⟩
  shown v := ⟨hP.shown v, hQ.shown v⟩
  host x := ⟨hP.host x, hQ.host x⟩
  release c := ⟨hP.release c, hQ.release c⟩

theorem releaseAll (cells : List Cell) : P (Work.releaseAll cells) := by
  induction cells with
  | nil => exact hP.pure ()
  | cons c cells ih => exact hP.bind (hP.release c) fun _ => ih

theorem refuse (c : Cell) {f : Fault} (hf : f.incidental = true) :
    P (do Work.release c; MonadExcept.throw f : Work α) :=
  hP.bind (hP.release c) fun _ => hP.throw hf

theorem toValue (c : Cell) : P (Work.toValue c) := by
  cases c with
  | text h => exact hP.bind (hP.text h) fun _ => hP.pure _
  | object h => exact hP.bind (hP.object h) fun _ => hP.pure _
  | _ => exact hP.pure _

theorem toValues (cells : List Cell) : P (Work.toValues cells) := by
  induction cells with
  | nil => exact hP.pure _
  | cons c cells ih => exact hP.bind (hP.toValue c) fun _ => hP.bind ih fun _ => hP.pure _

theorem objectOf (member : String) (c : Cell) : P (Work.objectOf member c) := by
  cases c with
  | object h => exact hP.object h
  | _ => exact hP.throw rfl

theorem display (c : Cell) : P (Work.display c) :=
  hP.bind (hP.toValue c) hP.shown

theorem orderResult (op : Order) (a b : Cell) : P (Work.orderResult op a b) := by
  unfold Work.orderResult
  split
  · exact hP.pure _
  · exact hP.throw rfl

theorem equalResult (negated : Bool) (a b : Cell) : P (Work.equalResult negated a b) := by
  unfold Work.equalResult
  split
  · exact hP.pure _
  · exact hP.pure _
  · exact hP.pure _
  · split
    · exact hP.pure _
    · exact hP.bind (hP.text _) fun _ => hP.bind (hP.text _) fun _ => hP.pure _
  · exact hP.pure _
  · exact hP.pure _

-- A sum is a text if it is not a number, and takes a reference.
theorem arithResult (hinsert : ∀ s, P (onRefs (·.insertText s))) (op : Arith) (a b : Cell) :
    P (Work.arithResult op a b) := by
  have hjoin : P (if op = .add then concat a b
      else MonadExcept.throw (.badOperands op.symbol a.kindName b.kindName)) := by
    split
    · exact hP.bind (hP.display a) fun _ => hP.bind (hP.display b) fun _ =>
        hP.bind (hinsert _) fun _ => hP.pure _
    · exact hP.throw rfl
  unfold Work.arithResult
  split
  · exact hP.pure _
  · exact hjoin
  · exact hjoin
  · exact hP.throw rfl

theorem getterOf (d : PropertyDef) : P (Work.getterOf d) := by
  unfold Work.getterOf
  cases d.getter with
  | some get => exact hP.pure _
  | none => exact hP.throw rfl

theorem setterOf (d : PropertyDef) : P (Work.setterOf d) := by
  unfold Work.setterOf
  cases d.setter with
  | some set => exact hP.pure _
  | none => exact hP.throw rfl

theorem instanceType (r : Registry) (member : String) (c : Cell) :
    P (Work.instanceType r member c) := by
  refine hP.bind (hP.typeOf r c) fun ty => ?_
  split
  · exact hP.pure _
  · exact hP.throw rfl
  · exact hP.throw rfl

theorem checkArgs (r : Registry) (member : String) (index : Nat) (params : List Ty)
    (args : List Cell) : P (Work.checkArgs r member index params args) := by
  induction params generalizing index args with
  | nil => exact hP.pure ()
  | cons ty params ih =>
      cases args with
      | nil => exact hP.pure ()
      | cons c args =>
          refine hP.bind (hP.typeOf r c) fun actual => ?_
          split
          · exact ih (index + 1) args
          · exact hP.throw rfl

theorem methodNamed (r : Registry) (ty : Nat) (name : String) (count : Nat) :
    P (Work.methodNamed r ty name count) := by
  unfold Work.methodNamed
  split
  · exact hP.pure _
  · exact hP.throw rfl
  · exact hP.throw rfl

theorem callNamed (r : Registry) (name : String) (target : Cell) (args : List Cell) :
    P (Work.callNamed r name target args) :=
  hP.bind (hP.instanceType r name target) fun ty => hP.bind (hP.objectOf name target) fun _ =>
    hP.bind (hP.methodNamed r ty name args.length) fun d =>
      hP.bind (hP.checkArgs r name 1 d.params args) fun _ => hP.bind (hP.toValues args) fun _ =>
        hP.bind (hP.host _) fun _ => hP.pure _

theorem readNamed (r : Registry) (name : String) (target : Cell) :
    P (Work.readNamed r name target) := by
  refine hP.bind (hP.instanceType r name target) fun ty =>
    hP.bind (hP.objectOf name target) fun o => ?_
  dsimp only
  split
  · exact hP.bind (hP.host _) fun _ => hP.pure _
  · split
    · exact hP.bind (hP.host _) fun _ => hP.pure _
    · exact hP.throw rfl

theorem writeNamed (r : Registry) (name : String) (target c : Cell) :
    P (Work.writeNamed r name target c) := by
  refine hP.bind (hP.instanceType r name target) fun ty =>
    hP.bind (hP.objectOf name target) fun o => ?_
  dsimp only
  split
  · refine hP.bind (hP.typeOf r c) fun actual => ?_
    split
    · exact hP.bind (hP.toValue c) fun _ => hP.host _
    · exact hP.throw rfl
  · exact hP.throw rfl

end Reads

namespace Takes

variable {P Q : ∀ {α : Type}, Work α → Prop} {α : Type} (hP : Takes Q P)
include hP

theorem host (x : HostM α) : P (Work.host x) :=
  hP.of_reads (hP.reads.host x)

theorem release (c : Cell) : P (Work.release c) :=
  hP.of_reads (hP.reads.release c)

theorem releaseAll (cells : List Cell) : P (Work.releaseAll cells) :=
  hP.of_reads (hP.reads.releaseAll cells)

theorem refuse (c : Cell) {f : Fault} (hf : f.incidental = true) :
    P (do Work.release c; MonadExcept.throw f : Work α) :=
  hP.of_reads (hP.reads.refuse c hf)

theorem poolString (env : RunEnv) (index : UInt16) : P (Work.poolString env index) := by
  unfold Work.poolString
  split
  · exact hP.pure _
  · exact hP.missing rfl

theorem methodAt (r : Registry) (id : Int32) : P (Work.methodAt r id) := by
  unfold Work.methodAt
  split
  · exact hP.pure _
  · exact hP.missing rfl

theorem propertyAt (r : Registry) (id : Int32) : P (Work.propertyAt r id) := by
  unfold Work.propertyAt
  split
  · exact hP.pure _
  · exact hP.missing rfl

theorem constructorAt (r : Registry) (id : Int32) : P (Work.constructorAt r id) := by
  unfold Work.constructorAt
  split
  · exact hP.pure _
  · exact hP.missing rfl

theorem popArgs (count : Nat) : P (Work.popArgs count) :=
  hP.bind (hP.popMany count) fun cells => hP.attempt (hP.reads.toValues cells) fun _ hsettle =>
    hP.bind (hP.releaseAll cells) fun _ => hsettle

theorem checkAt (r : Registry) (expected : Ty) (depth : Nat) :
    P (Work.checkAt r expected depth) := by
  refine hP.bind (hP.peek depth) fun c => hP.bind (hP.of_reads (hP.reads.typeOf r c)) fun actual => ?_
  split
  · exact hP.pure ()
  · exact hP.throw rfl

theorem setProperty (r : Registry) (id : Int32) : P (Work.setProperty r id) :=
  hP.bind (hP.propertyAt r id) fun d => hP.bind (hP.of_reads (hP.reads.setterOf d)) fun _ =>
    hP.bind hP.pop fun c => hP.bind hP.pop fun target =>
      hP.attempt (hP.reads.bind (hP.reads.objectOf _ target) fun _ =>
        hP.reads.bind (hP.reads.toValue c) fun _ => hP.reads.host _) fun _ hsettle =>
          hP.bind (hP.release c) fun _ => hP.bind (hP.release target) fun _ => hsettle

theorem setStaticProperty (r : Registry) (id : Int32) : P (Work.setStaticProperty r id) :=
  hP.bind (hP.propertyAt r id) fun d => hP.bind (hP.of_reads (hP.reads.setterOf d)) fun _ =>
    hP.bind hP.pop fun c =>
      hP.attempt (hP.reads.bind (hP.reads.toValue c) fun _ => hP.reads.host _) fun _ hsettle =>
        hP.bind (hP.release c) fun _ => hsettle

theorem setDynamicProperty (env : RunEnv) (name : UInt16) : P (Work.setDynamicProperty env name) :=
  hP.bind (hP.poolString env name) fun _ => hP.bind hP.pop fun c => hP.bind hP.pop fun target =>
    hP.attempt (hP.reads.writeNamed _ _ target c) fun _ hsettle => hP.bind (hP.release c) fun _ =>
      hP.bind (hP.release target) fun _ => hsettle

end Takes

theorem Puts.pushResult {P : ∀ {α : Type}, Work α → Prop} (hP : Puts P) (r : Registry)
    (declared : Ty) (member : String) (v : Value) : P (Work.pushResult r declared member v) := by
  unfold Work.pushResult
  split
  · exact hP.push rfl
  · split
    · exact hP.pushValue v
    · exact hP.throw rfl

namespace Calculates

variable {P Q : ∀ {α : Type}, Work α → Prop} {α : Type} (hP : Calculates Q P)
include hP

theorem binaryNum {f : Float → Float → Cell} (hf : ∀ x y, (f x y).handle? = none) :
    P (Work.binaryNum f) := by
  refine hP.bind hP.pop fun b => hP.bind hP.pop fun a => ?_
  split
  · exact hP.push (hf _ _)
  · exact hP.bind (hP.release _) fun _ => hP.refuse _ rfl

theorem neg : P Work.neg := by
  refine hP.bind hP.pop fun c => ?_
  cases c with
  | number x => exact hP.push rfl
  | _ => exact hP.refuse _ rfl

theorem negNum : P Work.negNum := by
  refine hP.bind hP.pop fun c => ?_
  cases c with
  | number x => exact hP.push rfl
  | _ => exact hP.refuse _ rfl

theorem not : P Work.not := by
  refine hP.bind hP.pop fun c => ?_
  cases c with
  | bool b => exact hP.push rfl
  | _ => exact hP.refuse _ rfl

-- An operator may give something new only if anything can be put on the stack.
theorem binary (hpush : ∀ c, P (Work.push c)) {f : Cell → Cell → Work Cell}
    (hf : ∀ a b, Q (f a b)) : P (Work.binary f) :=
  hP.bind hP.pop fun b => hP.bind hP.pop fun a => hP.attempt (hf a b) fun _ hsettle =>
    hP.bind (hP.release a) fun _ => hP.bind (hP.release b) fun _ => hP.bind hsettle hpush

theorem pushText (s : String) : P (do Work.push (.text (← onRefs (·.insertText s)))) := by
  have h := hP.pushValue (.text s)
  simpa only [ofValue, bind_assoc, pure_bind] using h

theorem invokeStatic (r : Registry) (id : Int32) : P (Work.invokeStatic r id) :=
  hP.bind (hP.methodAt r id) fun _ => hP.bind (hP.popArgs _) fun _ => hP.bind (hP.host _) fun _ =>
    hP.pushResult _ _ _ _

-- Something is asked of the value on top, which is given back before the answer is taken in.
theorem askTarget {x : Cell → Work α} (hx : ∀ c, Q (x c)) {take : α → Work Unit}
    (htake : ∀ a, P (take a)) : P (do
      let target ← Work.pop
      let outcome ← Work.attempt (x target)
      Work.release target
      take (← settle outcome)) :=
  hP.bind hP.pop fun target => hP.attempt (hx target) fun _ hsettle =>
    hP.bind (hP.release target) fun _ => hP.bind hsettle htake

theorem invoke (r : Registry) (id : Int32) : P (Work.invoke r id) :=
  hP.bind (hP.methodAt r id) fun _ => hP.bind (hP.popArgs _) fun _ =>
    hP.askTarget (fun c => hP.reads.bind (hP.reads.objectOf _ c) fun _ => hP.reads.host _) fun _ =>
      hP.pushResult _ _ _ _

theorem invokeDynamic (env : RunEnv) (name argc : UInt16) : P (Work.invokeDynamic env name argc) :=
  hP.bind (hP.poolString env name) fun _ => hP.bind (hP.popMany _) fun args =>
    hP.bind hP.pop fun target => hP.attempt (hP.reads.callNamed _ _ target args) fun _ hsettle =>
      hP.bind (hP.releaseAll args) fun _ => hP.bind (hP.release target) fun _ =>
        hP.bind hsettle fun _ => hP.pushResult _ _ _ _

theorem getProperty (r : Registry) (id : Int32) : P (Work.getProperty r id) :=
  hP.bind (hP.propertyAt r id) fun d => hP.bind (hP.of_reads (hP.reads.getterOf d)) fun _ =>
    hP.askTarget (fun c => hP.reads.bind (hP.reads.objectOf _ c) fun _ => hP.reads.host _) fun _ =>
      hP.pushResult _ _ _ _

theorem getStaticProperty (r : Registry) (id : Int32) : P (Work.getStaticProperty r id) :=
  hP.bind (hP.propertyAt r id) fun d => hP.bind (hP.of_reads (hP.reads.getterOf d)) fun _ =>
    hP.bind (hP.host _) fun _ => hP.pushResult _ _ _ _

theorem getDynamicProperty (env : RunEnv) (name : UInt16) : P (Work.getDynamicProperty env name) :=
  hP.bind (hP.poolString env name) fun _ => hP.askTarget (fun c => hP.reads.readNamed _ _ c) fun _ =>
    hP.pushResult _ _ _ _

theorem construct (r : Registry) (id : Int32) : P (Work.construct r id) := by
  refine hP.bind (hP.constructorAt r id) fun _ => hP.bind (hP.popArgs _) fun _ =>
    hP.bind (hP.host _) fun o => ?_
  have h := hP.pushValue (.object o)
  simpa only [ofValue, bind_assoc, pure_bind] using h

end Calculates

end Work

namespace Instr

-- The instructions that have to do with variables, or with where the run goes on.
def isLocated : Instr → Bool
  | .loadLoc _ | .loadLocNoRef _ | .setLoc _ | .setLocNoRef _ | .jump _ | .jumpIf _ _ | .loop _ _
  | .loopNum _ => true
  | _ => false

-- The instructions that end a script.
def isLast : Instr → Bool
  | .ret | .exit => true
  | _ => false

-- The operators whose operands may be of any kind.
def isGeneric : Instr → Bool
  | .arith _ | .order _ | .equals _ => true
  | _ => false

end Instr

-- What all other instructions do is put together from the same few things.
theorem Work.Calculates.effect [HostHooks] {P Q : ∀ {α : Type}, Work α → Prop}
    (hP : Calculates Q P) (env : RunEnv) {i : Instr} (hlocated : i.isLocated = false)
    (hlast : i.isLast = false) (hgeneric : i.isGeneric = false) : P (Work.effect env i) := by
  cases i with
  | nop => exact hP.pure ()
  | pushNull | pushBool | pushLong | pushDouble => exact hP.push rfl
  | pushString index => exact hP.bind (hP.poolString env index) hP.pushText
  | pop => exact hP.bind hP.pop hP.release
  | arithNum op => exact hP.binaryNum fun _ _ => rfl
  | orderNum op => exact hP.binaryNum fun _ _ => rfl
  | equalsNum negated => exact hP.binaryNum fun _ _ => rfl
  | neg => exact hP.neg
  | negNum => exact hP.negNum
  | not => exact hP.not
  | invoke id => exact hP.invoke _ id
  | invokeStatic id => exact hP.invokeStatic _ id
  | invokeDynamic name argc => exact hP.invokeDynamic env name argc
  | getProperty id => exact hP.getProperty _ id
  | setProperty id => exact hP.setProperty _ id
  | getStaticProperty id => exact hP.getStaticProperty _ id
  | setStaticProperty id => exact hP.setStaticProperty _ id
  | getDynamicProperty name => exact hP.getDynamicProperty env name
  | setDynamicProperty name => exact hP.setDynamicProperty env name
  | new id => exact hP.construct _ id
  | checkType ty => exact hP.checkAt _ ty 0
  | peekCheckType ty depth => exact hP.checkAt _ ty _
  | loadLoc | loadLocNoRef | setLoc | setLocNoRef | jump | jumpIf | loop | loopNum => cases hlocated
  | ret | exit => cases hlast
  | arith | order | equals => cases hgeneric

-- The operators for any kind may give something new, which then has to go on the stack.
theorem Work.Calculates.operate [HostHooks] {P Q : ∀ {α : Type}, Work α → Prop}
    (hP : Calculates Q P) (hpush : ∀ c, P (Work.push c))
    (hinsert : ∀ s, Q (Work.onRefs (·.insertText s)))
    (env : RunEnv) {i : Instr} (hi : i.isGeneric = true) : P (Work.effect env i) := by
  cases i with
  | arith op => exact hP.binary hpush (hP.reads.arithResult hinsert op)
  | order op => exact hP.binary hpush (hP.reads.orderResult op)
  | equals negated => exact hP.binary hpush (hP.reads.equalResult negated)
  | _ => cases hi

end HostScript
