import HostScript.Proofs.Compile.Positions
import HostScript.Proofs.Meaning.Path

namespace HostScript

-- A view after some work that got to `pc` with the given stack.
def View.after (v : View) (pc : Nat) (stack : List Value) (o : Outside) : View :=
  { v with pc, stack, world := o.world, printed := o.printed }

namespace View

variable (v : View) (pc pc' : Nat) (stack stack' : List Value) (o o' : Outside)

@[simp] theorem after_pc : (v.after pc stack o).pc = pc := rfl

@[simp] theorem after_stack : (v.after pc stack o).stack = stack := rfl

@[simp] theorem after_locals : (v.after pc stack o).locals = v.locals := rfl

@[simp] theorem after_loops : (v.after pc stack o).loops = v.loops := rfl

@[simp] theorem after_outside : (v.after pc stack o).outside = o := rfl

@[simp] theorem after_after :
    (v.after pc stack o).after pc' stack' o' = v.after pc' stack' o' := rfl

@[simp] theorem rangeEnd_after (env : RunEnv) :
    Plain.rangeEnd env (v.after pc stack o) = Plain.rangeEnd env v := rfl

end View

-- A machine that runs the code of a layout, and the meaning of the script it was made from.
structure Layout.Suits (L : Layout) (env : RunEnv) (D : Dialect) : Prop where
  script : env.script = L.script
  machine : env.registry = L.registry
  registry : D.registry = L.registry
  symbols : D.symbols = L.symbols
  counts : D.counts = decide (L.level ≥ 1)
  nodup : L.slots.Nodup

section

variable {L : Layout} {env : RunEnv} {D : Dialect} (hL : L.Suits env D)

include hL

theorem fetch_of_at {p q : Nat} {i : Instr} (hat : L.At p i q) :
    env.script.fetch p = .ok (i, q) := by
  rw [hL.script]
  exact hat

theorem step_of_at {p q : Nat} {i : Instr} {v : View} (hat : L.At p i q) (hpc : v.pc = p)
    (hp : p < Plain.rangeEnd env v) :
    Plain.step env v = (Plain.effect env i).map (fun _ => i.flow) { v with pc := q } := by
  subst hpc
  simp only [Plain.step, hp, if_true, fetch_of_at hL hat]

theorem spares_of_at {p q : Nat} {i : Instr} {v : View} (hat : L.At p i q) (hpc : v.pc = p)
    (hs : i.Spares v) : v.Spares env := by
  subst hpc
  intro _ j pc hfetch
  rw [fetch_of_at hL hat] at hfetch
  cases hfetch
  exact hs

-- An instruction that goes on without a fault.
theorem path_of_at {p q : Nat} {i : Instr} {v v' : View} (hat : L.At p i q) (hpc : v.pc = p)
    (hp : p < Plain.rangeEnd env v) (hs : i.Spares v) (hflow : i.flow = .next)
    (heffect : Plain.effect env i { v with pc := q } = .ok () v') : Path env 1 v v' := by
  refine .single (spares_of_at hL hat hpc hs) ?_
  rw [step_of_at hL hat hpc hp]
  simp only [EStateM.map, heffect, hflow]

theorem fails_of_at {p q : Nat} {i : Instr} {v v' : View} {f : Fault} (hat : L.At p i q)
    (hpc : v.pc = p) (hp : p < Plain.rangeEnd env v) (hs : i.Spares v)
    (heffect : Plain.effect env i { v with pc := q } = .error f v') :
    Fails env v f v'.outside := by
  refine ⟨0, v, v', .refl v, spares_of_at hL hat hpc hs, ?_, rfl⟩
  rw [step_of_at hL hat hpc hp]
  simp only [EStateM.map, heffect]

-- An instruction that works something out and changes the machine with it.
theorem follows_apply {α : Type} {p q : Nat} {i : Instr} {v : View} {c : Calc α}
    {f : α → View → View} {stack : List Value} (hat : L.At p i q) (hpc : v.pc = p)
    (hp : p < Plain.rangeEnd env v) (hs : i.Spares v) (hflow : i.flow = .next)
    (heffect : Plain.effect env i { v with pc := q } =
      (Plain.ofCalc c >>= fun a => modify (f a)) { v with pc := q, stack := stack }) :
    Follows env D.strict v (Eval.ofCalc c v.outside) fun a o v' => v' = f a (v.after q stack o) := by
  have hout : View.outside { v with pc := q, stack := stack } = v.outside := rfl
  simp only [bind, EStateM.bind, Plain.ofCalc, hout] at heffect
  unfold Eval.ofCalc
  cases hc : c v.outside with
  | ok a o =>
      rw [hc] at heffect
      exact ⟨1, _, path_of_at hL hat hpc hp hs hflow heffect, rfl⟩
  | error f o =>
      rw [hc] at heffect
      exact fails_of_at hL hat hpc hp hs heffect

-- The result is left on the stack.
theorem follows_push {p q : Nat} {i : Instr} {v : View} {c : Calc Value} {stack : List Value}
    (hat : L.At p i q) (hpc : v.pc = p) (hp : p < Plain.rangeEnd env v) (hs : i.Spares v)
    (hflow : i.flow = .next) (heffect : Plain.effect env i { v with pc := q } =
      (Plain.ofCalc c >>= Plain.push) { v with pc := q, stack := stack }) :
    Follows env D.strict v (Eval.ofCalc c v.outside) fun x o v' => v' = v.after q (x :: stack) o :=
  follows_apply hL (f := fun x w => { w with stack := x :: w.stack }) hat hpc hp hs hflow heffect

-- There is no result, and something was taken off the stack.
theorem follows_quiet {p q : Nat} {i : Instr} {v : View} {c : Calc Unit} {stack : List Value}
    (hat : L.At p i q) (hpc : v.pc = p) (hp : p < Plain.rangeEnd env v) (hs : i.Spares v)
    (hflow : i.flow = .next) (heffect : Plain.effect env i { v with pc := q } =
      Plain.ofCalc c { v with pc := q, stack := stack }) :
    Follows env D.strict v (Eval.ofCalc c v.outside) fun _ o v' => v' = v.after q stack o := by
  refine follows_apply hL (f := fun _ w => w) hat hpc hp hs hflow ?_
  rw [heffect]
  simp only [bind, EStateM.bind, Plain.ofCalc]
  cases c (View.outside { v with pc := q, stack := stack }) <;> rfl

theorem jumpTarget_goes {t : Int32} {target : Nat} (h : L.Goes t target) (v : View) :
    Plain.jumpTarget env t v = .ok target v := by
  obtain ⟨ht, hsize⟩ := h
  have hin : 0 ≤ t.toInt ∧ t.toInt ≤ env.script.code.size := by
    rw [hL.script, ht]
    omega
  rw [Plain.jumpTarget, if_pos hin, ht]
  rfl

theorem path_of_jump {p q target : Nat} {v : View} (h : L.Jump p q target) (hpc : v.pc = p)
    (hp : p < Plain.rangeEnd env v) : Path env 1 v (v.after target v.stack v.outside) := by
  obtain ⟨t, hat, hgoes⟩ := h
  refine path_of_at hL hat hpc hp trivial rfl ?_
  simp only [Plain.effect, bind, EStateM.bind, jumpTarget_goes hL hgoes]
  rfl

-- A jump that depends on the value on top.
theorem follows_jumpIf {on : Bool} {p q target : Nat} {v : View} {x : Value} {stack : List Value}
    (h : L.JumpIf on p q target) (hpc : v.pc = p) (hp : p < Plain.rangeEnd env v)
    (hstack : v.stack = x :: stack) :
    Follows env D.strict v (Eval.ofCalc (Calc.asBool x) v.outside) fun b o v' =>
      v' = v.after (if b = on then target else q) stack o := by
  obtain ⟨t, hat, hgoes⟩ := h
  have heffect : Plain.effect env (.jumpIf on t) { v with pc := q } =
      (Plain.ofCalc (Calc.asBool x) >>= fun b => if b = on then Plain.jumpTo target else pure ())
        { v with pc := q, stack := stack } := by
    simp only [Plain.effect, Plain.jumpIf, bind, EStateM.bind, jumpTarget_goes hL hgoes, Plain.pop,
      hstack]
  refine follows_apply hL (f := fun b w => { w with pc := if b = on then target else q }) hat hpc hp
    trivial rfl ?_
  rw [heffect]
  simp only [bind, EStateM.bind, Plain.ofCalc]
  cases Calc.asBool x (View.outside { v with pc := q, stack := stack }) with
  | ok b o =>
      by_cases hb : b = on
      · simp only [hb, if_true]
        rfl
      · simp only [hb, if_false]
        rfl
  | error f o => rfl

end

end HostScript
