import HostScript.Proofs.Compile.Layout
import HostScript.Proofs.Machine.Simulation
import HostScript.Proofs.Semantics.Evaluate

namespace HostScript

-- What an instruction must find so that references stay counted from then on: a variable that is
-- treated as free of references holds none and gets none.
def Instr.Spares (v : View) : Instr → Prop
  | .loadLocNoRef slot => ∀ x, v.locals[slot.toNat]? = some x → x.isRef = false
  | .setLocNoRef slot => (∀ x, v.locals[slot.toNat]? = some x → x.isRef = false) ∧
      ∀ x, v.stack.head? = some x → x.isRef = false
  | _ => True

-- The same of the instruction that comes next, if one does.
def View.Spares (env : RunEnv) (v : View) : Prop :=
  v.pc < Plain.rangeEnd env v → ∀ i pc, env.script.fetch v.pc = .ok (i, pc) → i.Spares v

theorem View.Spares.finds {env : RunEnv} {v : View} (h : v.Spares env) : v.Finds env := by
  intro hlt i pc hfetch
  have hi := h hlt i pc hfetch
  cases i with
  | loadLocNoRef slot => exact hi
  | setLocNoRef slot => exact hi.1
  | _ => trivial

-- A number of steps that all go on and keep references counted.
inductive Path (env : RunEnv) : Nat → View → View → Prop
  | refl (v : View) : Path env 0 v v
  | step {n : Nat} {v v₁ v₂ : View} : v.Spares env → Plain.step env v = .ok .next v₁ →
      Path env n v₁ v₂ → Path env (n + 1) v v₂

namespace Path

variable {env : RunEnv} {m n : Nat} {v v₁ v₂ : View}

theorem single (hs : v.Spares env) (h : Plain.step env v = .ok .next v₁) : Path env 1 v v₁ :=
  .step hs h (.refl v₁)

theorem trans (h₁ : Path env m v v₁) (h₂ : Path env n v₁ v₂) : Path env (m + n) v v₂ := by
  induction h₁ with
  | refl v =>
      rw [Nat.zero_add]
      exact h₂
  | step hs hstep _ ih =>
      rw [Nat.succ_add]
      exact .step hs hstep (ih h₂)

end Path

-- A path to a fault, with what it leaves outside the script.
def Fails (env : RunEnv) (v : View) (f : Fault) (o : Outside) : Prop :=
  ∃ n v₁ v₂, Path env n v v₁ ∧ v₁.Spares env ∧ Plain.step env v₁ = .error f v₂ ∧ v₂.outside = o

theorem Fails.prepend {env : RunEnv} {n : Nat} {v v₁ : View} {f : Fault} {o : Outside}
    (hpath : Path env n v v₁) (h : Fails env v₁ f o) : Fails env v f o := by
  obtain ⟨m, v₂, v₃, hpath', hrest⟩ := h
  exact ⟨n + m, v₂, v₃, hpath.trans hpath', hrest⟩

-- A machine carries out an evaluation: it gets to where the value is there, or to the same fault.
-- Nothing is said where values have to be of their recorded types and are not, and nothing else
-- stops it.
def Follows {α : Type} (env : RunEnv) (strict : Bool) (v : View)
    (result : EStateM.Result Stop Outside α) (Q : α → Outside → View → Prop) : Prop :=
  match result with
  | .ok a o => ∃ n v', Path env n v v' ∧ Q a o v'
  | .error (.fault f) o => Fails env v f o
  | .error (.mistyped _) _ => strict = true
  | .error .malformed _ => True
  | .error _ _ => False

namespace Follows

variable {env : RunEnv} {strict : Bool} {v : View} {α β : Type} {Q : α → Outside → View → Prop}
  {R : β → Outside → View → Prop}

theorem prepend {n : Nat} {v₁ : View} {result : EStateM.Result Stop Outside α}
    (hpath : Path env n v v₁) (h : Follows env strict v₁ result Q) : Follows env strict v result Q := by
  cases result with
  | ok a o =>
      obtain ⟨m, v₂, hpath', hq⟩ := h
      exact ⟨n + m, v₂, hpath.trans hpath', hq⟩
  | error e o =>
      cases e with
      | fault f => exact Fails.prepend hpath h
      | _ => exact h

theorem bind {x : Eval α} {f : α → Eval β} {o : Outside} (hx : Follows env strict v (x o) Q)
    (hf : ∀ a o v', Q a o v' → Follows env strict v' (f a o) R) : Follows env strict v ((x >>= f) o) R := by
  simp only [Bind.bind, EStateM.bind]
  cases hresult : x o with
  | ok a o' =>
      rw [hresult] at hx
      obtain ⟨n, v', hpath, hq⟩ := hx
      exact prepend hpath (hf a o' v' hq)
  | error e o' =>
      rw [hresult] at hx
      cases e <;> exact hx

theorem imp {result : EStateM.Result Stop Outside α} {Q' : α → Outside → View → Prop}
    (h : Follows env strict v result Q) (himp : ∀ a o v', Q a o v' → Q' a o v') :
    Follows env strict v result Q' := by
  cases result with
  | ok a o =>
      obtain ⟨n, v', hpath, hq⟩ := h
      exact ⟨n, v', hpath, himp a o v' hq⟩
  | error e o =>
      cases e <;> exact h

theorem pure {a : α} {o : Outside} (h : Q a o v) : Follows env strict v ((Pure.pure a : Eval α) o) Q :=
  ⟨0, v, .refl v, h⟩

-- A value is only used if it is of the recorded type, where that matters.
theorem typed {D : Dialect} {inLoop : Bool} {ty : Ty} {x : Value} {o : Outside}
    {S : Value → Outside → View → Prop} (h : S x o v) :
    Follows env D.strict v (D.typed inLoop ty x o) fun y o' v' =>
      S y o' v' ∧ (D.strict = true → y.conforms ty) := by
  unfold Dialect.typed
  cases hstrict : D.strict with
  | false => exact ⟨0, v, .refl v, h, fun hfalse => by cases hfalse⟩
  | true =>
      cases hty : x.conforms ty with
      | true => exact ⟨0, v, .refl v, h, fun _ => hty⟩
      | false => exact rfl

end Follows

end HostScript
