import HostScript.Proofs.Machine.WellFormed

namespace HostScript

theorem Fault.ofLayout_of_not_structural {f : Fault} (h : ¬f.structural = true) :
    f.ofLayout = false := by
  cases f <;> first | rfl | exact absurd rfl h

namespace Work

-- Work whose faults never lie in how the code is laid out.
def Sparing {α : Type} (x : Work α) : Prop :=
  Relates (fun _ _ : Machine => True) (fun f : Fault => f.ofLayout = false) x

namespace Sparing

variable {α β : Type}

theorem pure (a : α) : Sparing (Pure.pure a : Work α) :=
  Relates.pure (fun _ => trivial) a

theorem throw {f : Fault} (hf : f.ofLayout = false) : Sparing (MonadExcept.throw f : Work α) :=
  fun _ => .throw ⟨trivial, hf⟩

theorem bind {x : Work α} {f : α → Work β} (hx : Sparing x) (hf : ∀ a, Sparing (f a)) :
    Sparing (x >>= f) :=
  Relates.bind (fun _ _ => trivial) hx hf

theorem of_calm {x : Work α} (hx : x.Calm) : Sparing x :=
  fun m => (hx m).imp (fun _ _ h => ⟨trivial, Fault.ofLayout_of_incidental h.2⟩) fun _ _ _ => trivial

theorem upholds {x : Work α} (hx : Sparing x) (m : Machine) :
    Upholds (fun f _ => f.ofLayout = false) (fun _ _ => True) (x m) :=
  (hx m).imp (fun _ _ h => h.2) fun _ _ _ => trivial

theorem change (f : Machine → Machine) : Sparing (modify f : Work PUnit) :=
  fun _ => trivial

theorem loadLocal (slot : Nat) : Sparing (Work.loadLocal slot) := by
  intro m
  unfold Work.loadLocal
  split
  · trivial
  · exact ⟨trivial, rfl⟩

theorem storeLocal (slot : Nat) (c : Cell) : Sparing (Work.storeLocal slot c) :=
  (loadLocal slot).bind fun _ => (change _).bind fun _ => pure _

variable [HostHooks]

theorem push (c : Cell) : Sparing (Work.push c) := by
  intro m
  rw [push_eq]
  split
  · trivial
  · exact bind (of_calm (.release c)) (fun _ => throw rfl) m

theorem calculates : Calculates Calm Sparing where
  pure := pure
  throw hf := throw (Fault.ofLayout_of_incidental hf)
  bind := bind
  reads := Calm.reads
  of_reads := of_calm
  -- An outcome that is kept is passed on later, with the fault it had.
  attempt {_ _ x f} hx hf m := by
    have hxm := of_calm hx m
    simp only [Bind.bind, EStateM.bind, Work.attempt]
    cases hresult : x m with
    | ok a m₁ => exact hf (.ok a) (pure a) m₁
    | error fault m₁ =>
        rw [hresult] at hxm
        exact hf (.error fault) (throw hxm.2) m₁
  missing := throw
  pop m := by
    unfold Work.pop
    split
    · trivial
    · exact ⟨trivial, rfl⟩
  popMany count m := by
    unfold Work.popMany
    split
    · trivial
    · exact ⟨trivial, rfl⟩
  peek depth m := by
    unfold Work.peek
    split
    · trivial
    · exact ⟨trivial, rfl⟩
  push _ := push _
  pushValue v := (of_calm (.ofValue v)).bind push

theorem loadLoc (slot : UInt8) : Sparing (Work.loadLoc slot) := by
  refine (loadLocal _).bind fun c => ?_
  split
  · exact (of_calm (.addRef _)).bind fun _ => push c
  · exact push c

theorem unwind : Sparing Work.unwind := by
  intro m
  simp only [Work.unwind, Bind.bind, EStateM.bind, get, getThe, MonadStateOf.get, EStateM.get]
  cases m.stack with
  | nil => trivial
  | cons c rest =>
      exact ((change _).bind fun _ => (change _).bind fun _ => calculates.releaseAll _) m

theorem ret : Sparing Work.ret :=
  calculates.pop.bind fun c => calculates.attempt (Calm.reads.toValue c) fun _ hsettle =>
    (calculates.release c).bind fun _ => hsettle.bind fun _ => (change _).bind fun _ => unwind

-- Only a jump, or a loop that is entered, can find fault with where the code leads.
theorem effect (env : RunEnv) {i : Instr} (htarget : i.target? = none)
    (hbody : i.bodyLength? = none) :
    Sparing (Work.effect env i) := by
  cases i with
  | loadLoc slot => exact loadLoc slot
  | loadLocNoRef slot => exact (loadLocal _).bind push
  | setLoc slot =>
      exact (loadLocal _).bind fun _ => calculates.pop.bind fun c =>
        (storeLocal _ c).bind calculates.release
  | setLocNoRef slot =>
      exact (loadLocal _).bind fun _ => calculates.pop.bind fun c =>
        (storeLocal _ c).bind fun _ => pure _
  | arith | order | equals => exact calculates.operate push Calm.insertText env rfl
  | ret => exact ret
  | exit => exact unwind
  | jump | jumpIf => cases htarget
  | loop | loopNum => cases hbody
  | _ => exact calculates.effect env rfl rfl rfl

theorem bindInputs (r : Registry) (supplied : List (String × Value))
    (table : List (String × InputSlot)) : Sparing (Machine.bindInputs r supplied table) := by
  induction table with
  | nil => exact pure _
  | cons entry table ih =>
      refine bind ?_ fun _ => ih
      unfold Machine.bindInput
      split
      · exact (loadLocal _).bind fun _ => (of_calm (.ofValue _)).bind fun c =>
          (storeLocal _ c).bind fun _ => pure _
      · exact throw rfl

end Sparing

end Work

end HostScript
