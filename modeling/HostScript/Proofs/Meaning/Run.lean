import HostScript.Proofs.Machine.Reports
import HostScript.Proofs.Machine.Runs
import HostScript.Proofs.Meaning.Start

namespace HostScript

namespace Machine

variable {env : RunEnv} {m m' : Machine}

-- What the instructions for variables without references must find: cells without a handle.
def Finds (m : Machine) : Instr → Prop
  | .loadLocNoRef slot => ∀ c, m.locals[slot.toNat]? = some c → c.handle? = none
  | .setLocNoRef slot => (∀ c, m.locals[slot.toNat]? = some c → c.handle? = none) ∧
      ∀ c, m.stack.head? = some c → c.handle? = none
  | _ => True

-- The instruction that comes next finds that.
def Spares (env : RunEnv) (m : Machine) : Prop :=
  m.pc < Work.rangeEnd env m → ∀ i pc, env.script.fetch m.pc = .ok (i, pc) → m.Finds i

-- The machine between two instructions: every position of the reference table is counted as often
-- as it occurs, and the next instruction finds no text or object where it expects none.
structure Spared (env : RunEnv) (m : Machine) : Prop where
  counted : ∀ h, m.refs.uses h = Cell.occurrences h (m.stack ++ m.locals.toList)
  spares : m.Spares env

theorem Shows.finds_iff {v : View} (hs : m.Shows [] [] v) (i : Instr) : m.Finds i ↔ i.Spares v := by
  have hlocal : ∀ slot : UInt8, (∀ c, m.locals[slot.toNat]? = some c → c.handle? = none) ↔
      ∀ x, v.locals[slot.toNat]? = some x → x.isRef = false := by
    intro slot
    rcases hs.getLocal slot.toNat with ⟨hv, hm⟩ | ⟨c, x, hv, hm, hvalue⟩
    · simp [hv, hm]
    · simp only [hv, hm, Option.some.injEq, forall_eq']
      exact References.handle?_eq_none_iff hvalue
  have htop : (∀ c, m.stack.head? = some c → c.handle? = none) ↔
      ∀ x, v.stack.head? = some x → x.isRef = false := by
    have hstack := hs.stack
    cases hm : m.stack with
    | nil =>
        rw [hm] at hstack
        cases hv : v.stack with
        | nil => simp
        | cons x rest => rw [hv] at hstack; cases hstack
    | cons c cells =>
        rw [hm] at hstack
        cases hv : v.stack with
        | nil => rw [hv] at hstack; cases hstack
        | cons x rest =>
            rw [hv] at hstack
            simp only [List.head?_cons, Option.some.injEq, forall_eq']
            exact References.handle?_eq_none_iff (List.cons.inj hstack).1
  cases i with
  | loadLocNoRef slot => exact hlocal slot
  | setLocNoRef slot => exact and_congr (hlocal slot) htop
  | _ => exact Iff.rfl

theorem Shows.spares_iff {v : View} (hs : m.Shows [] [] v) : m.Spares env ↔ v.Spares env := by
  unfold Spares View.Spares
  rw [Work.rangeEnd_eq hs, hs.pc]
  exact forall_congr' fun _ => forall_congr' fun i => forall_congr' fun pc =>
    forall_congr' fun _ => hs.finds_iff i

theorem Shows.spared {v : View} (hs : m.Shows [] [] v) (h : v.Spares env) : m.Spared env where
  counted k := by
    rw [hs.counted k, Cell.occurrences_nil, Nat.zero_add, Cell.occurrences_append]
  spares := hs.spares_iff.mpr h

-- A run that was cut short because the machine is too small.
def GaveUp (outcome : Outcome) (m : Machine) : Prop :=
  ∃ f, outcome = .failed f ∧ m.Exhausted f ∧ m.Clean

end Machine

open Machine

section

variable {env : RunEnv} {m : Machine} {v v' : View}

theorem Path.warnings {n : Nat} (hpath : Path env n v v') : v'.warnings = v.warnings := by
  induction hpath with
  | refl v => rfl
  | step hspares hstep hrest ih => exact ih.trans (Plain.warnings_of_next hstep)

-- A machine that shows the start of a path goes along it, unless it is too small.
theorem Path.runs {n : Nat} (hpath : Path env n v v') (hs : m.Shows [] [] v)
    (hw : v.warnings = #[]) :
    (∃ m', (∀ fuel, runSteps env (n + fuel) m = runSteps env fuel m') ∧ m'.Shows [] [] v') ∨
    ∃ k outcome m', k < n ∧ runSteps env (k + 1) m = (outcome, m') ∧ GaveUp outcome m' := by
  induction hpath generalizing m with
  | refl v => exact .inl ⟨m, fun fuel => by rw [Nat.zero_add], hs⟩
  | @step n v v₁ v₂ hspares hstep hrest ih =>
      have hagrees := Work.step_agrees hs hspares.finds
      rw [hstep] at hagrees
      generalize hresult : Work.step env m = result at hagrees
      cases hagrees with
      | @ok _ m₁ _ hs₁ =>
          rcases ih hs₁ ((Plain.warnings_of_next hstep).trans hw) with
            ⟨m', hall, hs'⟩ | ⟨k, outcome, m', hk, hfail, hgave⟩
          · refine .inl ⟨m', fun fuel => ?_, hs'⟩
            rw [Nat.add_right_comm, runSteps_next hresult]
            exact hall fuel
          · refine .inr ⟨k + 1, outcome, m', by omega, ?_, hgave⟩
            rw [runSteps_next hresult]
            exact hfail
      | @exceeded f _ m₁ w _ hexhausted hs₁ hw₁ =>
          refine .inr ⟨0, .failed f, m₁, Nat.succ_pos n, ?_, f, rfl, hexhausted, w, hs₁, ?_⟩
          · simp only [runSteps, hresult]
          · rw [hw₁, Plain.warnings_of_next hstep, hw]

-- On the way nothing is lost between two instructions.
theorem Path.spared {n k : Nat} {m' : Machine} (hpath : Path env n v v') (hs : m.Shows [] [] v)
    (hk : k ≤ n) (hend : k = n → v'.Spares env) (hreach : runSteps env k m = (.outOfFuel, m')) :
    m'.Spared env := by
  induction hpath generalizing m k with
  | refl v =>
      obtain rfl : k = 0 := by omega
      cases hreach
      exact hs.spared (hend rfl)
  | @step n v v₁ v₂ hspares hstep hrest ih =>
      cases k with
      | zero =>
          cases hreach
          exact hs.spared hspares
      | succ k =>
          have hagrees := Work.step_agrees hs hspares.finds
          rw [hstep] at hagrees
          generalize hresult : Work.step env m = result at hagrees
          cases hagrees with
          | ok hs₁ =>
              rw [runSteps_next hresult] at hreach
              exact ih hs₁ (by omega) (fun heq => hend (by omega)) hreach
          | exceeded hexhausted hs₁ hw₁ =>
              simp only [runSteps, hresult] at hreach
              cases hreach

-- A run that comes to an end as `P` says or because the machine is too small, and until then keeps
-- references counted.
structure Completes (env : RunEnv) (m : Machine) (P : Outcome → Machine → Prop) : Prop where
  spared : ∀ k m', runSteps env k m = (.outOfFuel, m') → m'.Spared env
  ends : ∃ n outcome m', runSteps env n m = (outcome, m') ∧ outcome ≠ .outOfFuel ∧
    (P outcome m' ∨ GaveUp outcome m')

theorem Completes.imp {P Q : Outcome → Machine → Prop} (h : Completes env m P)
    (himp : ∀ outcome m', P outcome m' → Q outcome m') : Completes env m Q := by
  obtain ⟨n, outcome, m', hrun, hended, hpost⟩ := h.ends
  exact ⟨h.spared, n, outcome, m', hrun, hended, hpost.imp_left (himp outcome m')⟩

-- The last step of a path decides how the run ends.
theorem Path.completes {n : Nat} {P : Outcome → Machine → Prop} (hpath : Path env n v v')
    (hend : v'.Spares env) (hs : m.Shows [] [] v) (hw : v.warnings = #[])
    (hlast : ∀ m', m'.Shows [] [] v' → ∃ outcome m₁, runSteps env 1 m' = (outcome, m₁) ∧
      outcome ≠ .outOfFuel ∧ (P outcome m₁ ∨ GaveUp outcome m₁)) : Completes env m P := by
  have hends : ∃ k outcome m', k ≤ n ∧ runSteps env (k + 1) m = (outcome, m') ∧
      outcome ≠ .outOfFuel ∧ (P outcome m' ∨ GaveUp outcome m') := by
    rcases hpath.runs hs hw with ⟨m', hall, hs'⟩ | ⟨k, outcome, m', hk, hfail, hgave⟩
    · obtain ⟨outcome, m₁, hrun, hended, hpost⟩ := hlast m' hs'
      exact ⟨n, outcome, m₁, Nat.le_refl n, (hall 1).trans hrun, hended, hpost⟩
    · obtain ⟨f, rfl, -⟩ := id hgave
      exact ⟨k, .failed f, m', Nat.le_of_lt hk, hfail, by simp, .inr hgave⟩
  obtain ⟨k, outcome, m', hk, hrun, hended, hpost⟩ := hends
  refine ⟨fun j m₁ hreach => ?_, k + 1, outcome, m', hrun, hended, hpost⟩
  refine hpath.spared hs (Nat.le_of_not_lt fun hlt => ?_) (fun _ => hend) hreach
  rw [runSteps_ended (by omega) hrun hended] at hreach
  exact hended (Prod.mk.inj hreach).1

theorem Stops.completes {x : Value} {o : Outside} (h : Stops env v x o) (hs : m.Shows [] [] v)
    (hw : v.warnings = #[]) :
    Completes env m fun outcome m' => outcome = .finished ∧ m'.returned = x ∧
      ⟨m'.world, m'.printed⟩ = o ∧ m'.Clean := by
  obtain ⟨n, v₁, v₂, hpath, hend, hstep, hx, ho, -, hw₂⟩ := h
  refine hpath.completes hend hs hw fun m' hs' => ?_
  have hagrees := Work.step_agrees hs' hend.finds
  rw [hstep] at hagrees
  generalize hresult : Work.step env m' = result at hagrees
  simp only [runSteps, hresult]
  cases hagrees with
  | @ok _ m₁ _ hs₁ =>
      refine ⟨.finished, m₁, rfl, by simp, .inl ⟨rfl, hs₁.returned.trans hx, ?_, v₂, hs₁, hw₂⟩⟩
      rw [hs₁.outside_eq, ho]
  | @exceeded f _ m₁ w _ hexhausted hs₁ hw₁ =>
      exact ⟨.failed f, m₁, rfl, by simp, .inr ⟨f, rfl, hexhausted, w, hs₁, hw₁.trans hw₂⟩⟩

theorem Fails.completes {f : Fault} {o : Outside} (h : Fails env v f o) (hs : m.Shows [] [] v)
    (hw : v.warnings = #[]) (hf : f ≠ .stackUnderflow) :
    Completes env m fun outcome m' =>
      outcome = .failed f ∧ ⟨m'.world, m'.printed⟩ = o ∧ m'.Clean := by
  obtain ⟨n, v₁, v₂, hpath, hend, hstep, ho⟩ := h
  refine hpath.completes hend hs hw fun m' hs' => ?_
  have hagrees := Work.step_agrees hs' hend.finds
  rw [hstep] at hagrees
  generalize hresult : Work.step env m' = result at hagrees
  simp only [runSteps, hresult]
  cases hagrees with
  | @fault _ m₁ _ hs₁ =>
      refine ⟨.failed f, m₁, rfl, by simp, .inl ⟨rfl, ?_, v₂, hs₁, ?_⟩⟩
      · rw [hs₁.outside_eq, ho]
      · rw [Plain.warnings_of_error hstep, hpath.warnings, hw]
  | underflow => exact absurd rfl hf

-- A run that lasts shows nothing else until then.
theorem Lasts.runs {least k : Nat} {m' : Machine} {outcome : Outcome} (h : Lasts env least v)
    (hs : m.Shows [] [] v) (hw : v.warnings = #[]) (hk : k < least)
    (hrun : runSteps env k m = (outcome, m')) :
    (outcome = .outOfFuel ∧ m'.Spared env) ∨ GaveUp outcome m' := by
  obtain ⟨n, v', hn, hpath⟩ := h
  by_cases hout : outcome = .outOfFuel
  · subst hout
    exact .inl ⟨rfl, hpath.spared hs (by omega) (fun heq => by omega) hrun⟩
  · right
    have hlater : ∀ fuel, k ≤ fuel → runSteps env fuel m = (outcome, m') :=
      fun fuel hle => runSteps_ended hle hrun hout
    rcases hpath.runs hs hw with ⟨m₁, hall, -⟩ | ⟨j, outcome', m₁, hj, hfail, hgave⟩
    · have hend := (hlater n (by omega)).symm.trans (hall 0)
      exact absurd (Prod.mk.inj hend).1 hout
    · have hended : outcome' ≠ .outOfFuel := by
        obtain ⟨f, rfl, -⟩ := id hgave
        simp
      have hsame := (hlater (k + (j + 1)) (by omega)).symm.trans
        (runSteps_ended (by omega) hfail hended)
      obtain ⟨rfl, rfl⟩ := Prod.mk.inj hsame
      exact hgave

-- A run that strays gets to an instruction that finds a text or an object where it expects none.
theorem Strays.runs (h : Strays env v) (hs : m.Shows [] [] v) (hw : v.warnings = #[]) :
    ∃ k outcome m', runSteps env k m = (outcome, m') ∧
      (outcome = .outOfFuel ∧ ¬m'.Spares env ∨ GaveUp outcome m') := by
  obtain ⟨n, v', hpath, hstray⟩ := h
  rcases hpath.runs hs hw with ⟨m', hall, hs'⟩ | ⟨k, outcome, m', hk, hfail, hgave⟩
  · exact ⟨n, .outOfFuel, m', hall 0, .inl ⟨rfl, fun hspares => hstray (hs'.spares_iff.mp hspares)⟩⟩
  · exact ⟨k + 1, outcome, m', hfail, .inr hgave⟩

end

end HostScript
