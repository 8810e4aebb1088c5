import HostScript.Proofs.Meaning.Expressions

namespace HostScript

-- A path to the end of the script, with the value it returns.
def Stops (env : RunEnv) (v : View) (x : Value) (o : Outside) : Prop :=
  ∃ n v₁ v₂, Path env n v v₁ ∧ v₁.Spares env ∧ Plain.step env v₁ = .ok .stop v₂ ∧
    v₂.returned = x ∧ v₂.outside = o ∧ v₂.stack = [] ∧ v₂.warnings = #[]

theorem Stops.prepend {env : RunEnv} {n : Nat} {v v₁ : View} {x : Value} {o : Outside}
    (hpath : Path env n v v₁) (h : Stops env v₁ x o) : Stops env v x o := by
  obtain ⟨m, v₂, v₃, hpath', hrest⟩ := h
  exact ⟨n + m, v₂, v₃, hpath.trans hpath', hrest⟩

-- A path of at least so many steps.
def Lasts (env : RunEnv) (least : Nat) (v : View) : Prop :=
  ∃ n v', least ≤ n ∧ Path env n v v'

theorem Lasts.prepend {env : RunEnv} {n least : Nat} {v v₁ : View} (hpath : Path env n v v₁)
    (h : Lasts env least v₁) : Lasts env (n + least) v := by
  obtain ⟨m, v₂, hm, hpath'⟩ := h
  exact ⟨n + m, v₂, by omega, hpath.trans hpath'⟩

theorem Lasts.weaken {env : RunEnv} {least less : Nat} {v : View} (h : Lasts env least v)
    (hle : less ≤ least) : Lasts env less v := by
  obtain ⟨n, v', hn, hpath⟩ := h
  exact ⟨n, v', by omega, hpath⟩

-- A path to where a text or an object meets an instruction that expects none.
def Strays (env : RunEnv) (v : View) : Prop :=
  ∃ n v', Path env n v v' ∧ ¬v'.Spares env

theorem Strays.prepend {env : RunEnv} {n : Nat} {v v₁ : View} (hpath : Path env n v v₁)
    (h : Strays env v₁) : Strays env v := by
  obtain ⟨m, v₂, hpath', hstray⟩ := h
  exact ⟨n + m, v₂, hpath.trans hpath', hstray⟩

-- A machine carries out statements: it gets to where they end, or leave the loop around them (`J`
-- is told whether by `break`), or it stops as they do. A loop that takes too many rounds takes at
-- least `long` steps; otherwise there are at least `least`.
def Executes {α : Type} (env : RunEnv) (strict : Bool) (long least : Nat) (v : View)
    (result : EStateM.Result Stop Store α) (Q : α → Store → View → Prop)
    (J : Bool → Store → View → Prop) : Prop :=
  match result with
  | .ok a s => ∃ n v', least ≤ n ∧ Path env n v v' ∧ Q a s v'
  | .error .leave s => ∃ n v', least ≤ n ∧ Path env n v v' ∧ J true s v'
  | .error .again s => ∃ n v', least ≤ n ∧ Path env n v v' ∧ J false s v'
  | .error (.fault f) s => Fails env v f s.outside
  | .error (.ret x) s => Stops env v x s.outside
  | .error .exit s => Stops env v .null s.outside
  | .error .outOfFuel _ => Lasts env long v
  | .error .stray _ => Strays env v
  | .error (.mistyped _) _ => strict = true
  | .error .malformed _ => True

namespace Executes

variable {env : RunEnv} {strict : Bool} {long least : Nat} {v : View} {α β : Type}
  {Q : α → Store → View → Prop} {R : β → Store → View → Prop} {J : Bool → Store → View → Prop}

theorem prepend {n : Nat} {v₁ : View} {result : EStateM.Result Stop Store α}
    (hpath : Path env n v v₁) (h : Executes env strict long least v₁ result Q J) :
    Executes env strict (n + long) (n + least) v result Q J := by
  have hgo : ∀ {P : View → Prop}, (∃ m v', least ≤ m ∧ Path env m v₁ v' ∧ P v') →
      ∃ m v', n + least ≤ m ∧ Path env m v v' ∧ P v' := by
    rintro P ⟨m, v', hm, hpath', hp⟩
    exact ⟨n + m, v', by omega, hpath.trans hpath', hp⟩
  cases result with
  | ok a s => exact hgo h
  | error e s =>
      cases e with
      | leave => exact hgo h
      | again => exact hgo h
      | fault f => exact Fails.prepend hpath h
      | ret x => exact Stops.prepend hpath h
      | exit => exact Stops.prepend hpath h
      | outOfFuel => exact Lasts.prepend hpath h
      | stray => exact Strays.prepend hpath h
      | mistyped inLoop => exact h
      | malformed => trivial

theorem imp {less short : Nat} {result : EStateM.Result Stop Store α}
    {Q' : α → Store → View → Prop} {J' : Bool → Store → View → Prop}
    (h : Executes env strict long least v result Q J) (hless : less ≤ least) (hshort : short ≤ long)
    (hq : ∀ a s v', Q a s v' → ∃ n v'', Path env n v' v'' ∧ Q' a s v'')
    (hj : ∀ b s v', J b s v' → J' b s v') : Executes env strict short less v result Q' J' := by
  cases result with
  | ok a s =>
      obtain ⟨m, v', hm, hpath, hpost⟩ := h
      obtain ⟨n, v'', hpath', hpost'⟩ := hq a s v' hpost
      exact ⟨m + n, v'', by omega, hpath.trans hpath', hpost'⟩
  | error e s =>
      cases e with
      | leave =>
          obtain ⟨m, v', hm, hpath, hpost⟩ := h
          exact ⟨m, v', by omega, hpath, hj true s v' hpost⟩
      | again =>
          obtain ⟨m, v', hm, hpath, hpost⟩ := h
          exact ⟨m, v', by omega, hpath, hj false s v' hpost⟩
      | fault f => exact h
      | ret x => exact h
      | exit => exact h
      | outOfFuel => exact Lasts.weaken h hshort
      | stray => exact h
      | mistyped inLoop => exact h
      | malformed => trivial

theorem bind {x : Exec α} {f : α → Exec β} {s : Store}
    (hx : Executes env strict long least v (x s) Q J)
    (hf : ∀ a s' v', Q a s' v' → Executes env strict long 0 v' (f a s') R J) :
    Executes env strict long least v ((x >>= f) s) R J := by
  simp only [Bind.bind, EStateM.bind]
  cases hresult : x s with
  | ok a s' =>
      rw [hresult] at hx
      obtain ⟨n, v', hn, hpath, hq⟩ := hx
      have hrest := prepend hpath (hf a s' v' hq)
      exact hrest.imp (by omega) (by omega) (fun _ _ v' h => ⟨0, v', .refl v', h⟩)
        fun _ _ _ h => h
  | error e s' =>
      rw [hresult] at hx
      cases e <;> exact hx

theorem pure {a : α} {s : Store} (h : Q a s v) :
    Executes env strict long 0 v ((Pure.pure a : Exec α) s) Q J :=
  ⟨0, v, Nat.le_refl _, .refl v, h⟩

-- What an expression works out.
theorem value {f : (String → Value) → Eval α} {s : Store} {P : α → Outside → View → Prop}
    (h : Follows env strict v (f s.vars s.outside) P) :
    Executes env strict long 0 v (Exec.value f s)
      (fun a s' v' => s'.vars = s.vars ∧ P a s'.outside v') J := by
  unfold Exec.value
  cases hresult : f s.vars s.outside with
  | ok a o =>
      rw [hresult] at h
      obtain ⟨n, v', hpath, hp⟩ := h
      exact ⟨n, v', Nat.zero_le _, hpath, rfl, hp⟩
  | error e o =>
      rw [hresult] at h
      cases e with
      | fault f => exact h
      | mistyped inLoop => exact h
      | malformed => trivial
      | _ => exact h.elim

theorem weaken {less short : Nat} {result : EStateM.Result Stop Store α}
    (h : Executes env strict long least v result Q J) (hless : less ≤ least) (hshort : short ≤ long) :
    Executes env strict short less v result Q J :=
  h.imp hless hshort (fun _ _ v' hq => ⟨0, v', .refl v', hq⟩) fun _ _ _ hj => hj

-- How many steps come first may be of no interest.
theorem behind {n : Nat} {v₁ : View} {result : EStateM.Result Stop Store α}
    (hpath : Path env n v v₁) (h : Executes env strict long 0 v₁ result Q J) :
    Executes env strict long 0 v result Q J :=
  (h.prepend hpath).weaken (Nat.zero_le _) (Nat.le_add_left _ _)

-- Where the machine cannot have stayed as it was, it has taken a step.
theorem moves {result : EStateM.Result Stop Store α}
    (h : Executes env strict long 0 v result Q fun _ _ _ => False) (hq : ∀ a s, ¬Q a s v) :
    Executes env strict long 1 v result Q J := by
  cases result with
  | ok a s =>
      obtain ⟨n, v', -, hpath, hpost⟩ := h
      cases hpath with
      | refl => exact absurd hpost (hq a s)
      | step hs hstep hrest => exact ⟨_, v', by omega, .step hs hstep hrest, hpost⟩
  | error e s =>
      cases e with
      | leave => obtain ⟨n, v', -, -, hfalse⟩ := h; exact hfalse.elim
      | again => obtain ⟨n, v', -, -, hfalse⟩ := h; exact hfalse.elim
      | _ => exact h

-- A body that says whether its loop goes on. `I` is what the next part of the loop starts from.
theorem goesOn {body : Exec Unit} {s : Store} {I R : Store → View → Prop}
    (h : Executes env strict long least v (body s) (fun _ => I) fun leave s' v' =>
      if leave then R s' v' else I s' v') :
    Executes env strict long least v (Exec.goesOn body s)
      (fun more s' v' => if more then I s' v' else R s' v') J := by
  unfold Exec.goesOn
  cases hresult : body s with
  | ok _ s' =>
      rw [hresult] at h
      exact h
  | error e s' =>
      rw [hresult] at h
      cases e <;> exact h

-- Each round takes at least one step, so that a loop that is cut off has taken as many steps as it
-- was given rounds.
theorem repeatWhile {round : Exec Bool} {I R : Store → View → Prop}
    (hround : ∀ s v, I s v → Executes env strict long 1 v (round s)
      (fun more s' v' => if more then I s' v' else R s' v') J)
    (fuel : Nat) {s : Store} (hv : I s v) :
    Executes env strict (min long fuel) 0 v (Exec.repeatWhile round fuel s) (fun _ => R) J := by
  induction fuel generalizing s v with
  | zero => exact ⟨0, v, by omega, .refl v⟩
  | succ fuel ih =>
      have h := hround s v hv
      simp only [Exec.repeatWhile, Bind.bind, EStateM.bind]
      cases hresult : round s with
      | ok more s' =>
          rw [hresult] at h
          obtain ⟨n, v', hn, hpath, hpost⟩ := h
          cases more with
          | true => exact (prepend hpath (ih hpost)).weaken (by omega) (by omega)
          | false => exact ⟨n, v', by omega, hpath, hpost⟩
      | error e s' =>
          rw [hresult] at h
          have herror : Executes env strict long 1 v (.error e s') (fun (_ : Unit) => R) J := by
            cases e <;> exact h
          exact herror.weaken (by omega) (by omega)

-- The same for rounds that are numbered. `I` holds before the number is compared with the limit.
theorem countUp {limit : Float} {round : Float → Exec Bool} {I : Float → Store → View → Prop}
    {R : Store → View → Prop}
    (hdone : ∀ i s v, I i s v → ¬i < limit → ∃ n v', Path env n v v' ∧ R s v')
    (hround : ∀ i s v, I i s v → i < limit → Executes env strict long 1 v (round i s)
      (fun more s' v' => if more then I (i + Number.ofLong 1) s' v' else R s' v') J)
    (fuel : Nat) {i : Float} {s : Store} (hv : I i s v) :
    Executes env strict (min long fuel) 0 v (Exec.countUp limit round fuel i s) (fun _ => R) J := by
  induction fuel generalizing i s v with
  | zero => exact ⟨0, v, by omega, .refl v⟩
  | succ fuel ih =>
      simp only [Exec.countUp]
      by_cases hlt : i < limit
      · have h := hround i s v hv hlt
        simp only [hlt, if_true, Bind.bind, EStateM.bind]
        cases hresult : round i s with
        | ok more s' =>
            rw [hresult] at h
            obtain ⟨n, v', hn, hpath, hpost⟩ := h
            cases more with
            | true => exact (prepend hpath (ih hpost)).weaken (by omega) (by omega)
            | false => exact ⟨n, v', by omega, hpath, hpost⟩
        | error e s' =>
            rw [hresult] at h
            have herror : Executes env strict long 1 v (.error e s') (fun (_ : Unit) => R) J := by
              cases e <;> exact h
            exact herror.weaken (by omega) (by omega)
      · obtain ⟨n, v', hpath, hr⟩ := hdone i s v hv hlt
        simp only [hlt, if_false]
        exact ⟨n, v', by omega, hpath, hr⟩

-- A number of rounds that is known beforehand. `I` is told how many are still to come.
theorem times {body : Exec Unit} {I : Nat → Store → View → Prop} 
    (hround : ∀ n s v, I (n + 1) s v → Executes env strict long 0 v (body s) (fun _ => I n) J)
    (n : Nat) {s : Store} (hv : I n s v) :
    Executes env strict long 0 v (Exec.times body n s) (fun _ => I 0) J := by
  induction n generalizing s v with
  | zero => exact .pure hv
  | succ n ih =>
      exact (hround n s v hv).bind fun _ s' v' hpost => ih hpost

-- Working out a value and nothing else.
theorem perform {c : Calc α} {s : Store} {P : α → Outside → View → Prop}
    (h : Follows env strict v (Eval.ofCalc c s.outside) P) :
    Executes env strict long 0 v (Exec.perform c s)
      (fun a s' v' => s'.vars = s.vars ∧ P a s'.outside v') J :=
  value h

-- A member that is looked up is the one that was found before.
theorem member {members : Array α} {id : Nat} {fits : α → Bool} {f : α → Exec β} {s : Store}
    (h : ∀ d, members[id]? = some d → id < 4294967296 → fits d = true →
      Executes env strict long 0 v (f d s) R J) :
    Executes env strict long 0 v ((Exec.value (fun _ => Eval.member members id fits) >>= f) s) R J := by
  have hmember : Follows env strict v (Eval.member members id fits s.outside) fun d o v' =>
      (members[id]? = some d ∧ id < 4294967296 ∧ fits d = true) ∧ o = s.outside ∧ v' = v := by
    rw [← bind_pure (Eval.member members id fits)]
    exact .member fun d hd hid hfits => .pure ⟨⟨hd, hid, hfits⟩, rfl, rfl⟩
  refine (Executes.value hmember).bind ?_
  rintro d ⟨_, _⟩ _ ⟨rfl, ⟨hd, hid, hfits⟩, rfl, rfl⟩
  exact h d hd hid hfits

end Executes

theorem Exec.times_pure (n : Nat) : Exec.times (return) n = (return) := by
  induction n with
  | zero => rfl
  | succ n ih => simp only [Exec.times, ih, pure_bind]

theorem Exec.perform_bind {α β : Type} (x : Calc α) (f : α → Calc β) :
    (Exec.perform x >>= fun a => Exec.perform (f a)) = Exec.perform (x >>= f) := by
  funext s
  simp only [Exec.perform, Exec.value, Eval.ofCalc, bind, EStateM.bind]
  cases x s.outside <;> rfl

end HostScript
