import HostScript.Proofs.Machine.Shows
import HostScript.Proofs.Machine.Worlds
import HostScript.Proofs.References.Spare

namespace HostScript

-- The machine once the host has been called.
def Machine.called {α : Type} (m : Machine) (call : HostM α) : Machine :=
  { m with world := (call m.world).world, printed := m.printed ++ (call m.world).printed.toArray }

namespace References

variable {t t' : References}

theorem hooks_release {h : Nat} (hr : t.release h = .ok t') :
    ∃ told : List Hook, t'.hooks = t.hooks ++ told.toArray := by
  cases he : t.find? h with
  | none => simp [release_empty he] at hr
  | some e =>
      obtain ⟨u, hu, hhooks, -⟩ := release_eq he
      cases hu.symm.trans hr
      exact ⟨_, hhooks⟩

end References

namespace Work

variable {m : Machine} {r : Registry}

theorem attempt_host {α : Type} (call : HostM α) :
    attempt (host call) m = .ok ((call m.world).result.mapError .refused) (m.called call) := by
  simp only [attempt, host]
  cases (call m.world).result <;> rfl

variable [HostHooks]

-- Where the table is `t`, the cells can be given back. The table is `t'` then, and the host has been
-- told what `told` says.
structure GivesBack (cells : List Cell) (t t' : References) (told : List Hook) : Prop where
  hooks : t'.hooks = t.hooks ++ told.toArray
  releaseAll : ∀ m : Machine, m.refs = t → releaseAll cells m =
    .ok () { m with refs := t', world := HostHooks.tellAll told m.world }

-- The end of a call whose outcome is known: the operands are given back before it is looked at.
def conclude (r : Registry) (declared : Ty) (member : String) (operands : List Cell)
    (outcome : Except Fault Value) : Work Unit := do
  releaseAll operands
  pushResult r declared member (← settle outcome)

-- A call once its operands are off the stack.
def answer (r : Registry) (declared : Ty) (member : String) (operands : List Cell)
    (call : HostM Value) : Work Unit := do
  conclude r declared member operands (← attempt (host call))

-- The same for a call without an answer.
def obey (operands : List Cell) (call : HostM Unit) : Work Unit := do
  let outcome ← attempt (host call)
  releaseAll operands
  settle outcome

theorem releaseAll_append (cells more : List Cell) :
    releaseAll (cells ++ more) = (do releaseAll cells; releaseAll more) := by
  induction cells with
  | nil => rfl
  | cons c cells ih => simp [releaseAll, ih]

theorem releaseAll_singleton (c : Cell) : releaseAll [c] = release c := by
  simp [releaseAll]

theorem obey_pair (c d : Cell) (call : HostM Unit) :
    obey [c, d] call = (do
      let outcome ← attempt (host call)
      release c
      release d
      settle outcome) := by
  simp [obey, releaseAll]

theorem release_counted {c : Cell} {k : Nat} {t : References} (hc : c.handle? = some k)
    (hu : t.uses k ≠ 0) :
    ∃ t' told, GivesBack [c] t t' told ∧ (∀ h, t'.uses h = t.uses h - if h = k then 1 else 0) ∧
      ∀ h, t'.uses h ≠ 0 → t'.get? h = t.get? h := by
  obtain ⟨t', hr, huses, hkept, -⟩ := References.release_counted hu
  obtain ⟨told, hhooks⟩ := References.hooks_release hr
  refine ⟨t', told, ⟨hhooks, fun m hm => ?_⟩, huses, hkept⟩
  rw [releaseAll_singleton]
  simp [release, hc, onRefs, hm, hr, References.toldSince_eq hhooks, bind, Except.bind, pure,
    Except.pure]

theorem GivesBack.cons {c : Cell} {cells : List Cell} {t t₁ t' : References}
    {told more : List Hook} (hc : GivesBack [c] t t₁ told) (hcells : GivesBack cells t₁ t' more) :
    GivesBack (c :: cells) t t' (told ++ more) where
  hooks := by simp [hcells.hooks, hc.hooks, Array.append_assoc]
  releaseAll m hm := by
    have hone := hc.releaseAll m hm
    rw [releaseAll_singleton] at hone
    simp only [Work.releaseAll, bind, EStateM.bind, hone]
    rw [hcells.releaseAll _ rfl]
    simp [HostHooks.tellAll]

-- Cells that are counted can be given back, and nothing gets lost that is counted more often.
theorem givesBack_of_counted (cells : List Cell) (t : References)
    (ht : ∀ h, Cell.occurrences h cells ≤ t.uses h) :
    ∃ t' told, GivesBack cells t t' told ∧
      ∀ h, Cell.occurrences h cells < t.uses h → t'.get? h = t.get? h := by
  induction cells generalizing t with
  | nil => exact ⟨t, [], ⟨by simp, fun m hm => by subst hm; rfl⟩, fun _ _ => rfl⟩
  | cons c cells ih =>
      simp only [Cell.occurrences_cons] at ht
      cases hc : c.handle? with
      | none =>
          simp only [hc] at ht
          obtain ⟨t', told, hback, hkept⟩ := ih t fun h => by simpa using ht h
          refine ⟨t', told, ⟨hback.hooks, fun m hm => ?_⟩, fun h hh => hkept h ?_⟩
          · simp [releaseAll, release, hc, hback.releaseAll m hm]
          · simpa [hc] using hh
      | some k =>
          simp only [hc, Option.some.injEq] at ht
          obtain ⟨t₁, first, hfirst, huses, hfound⟩ := release_counted (t := t) hc <| by
            have hk := ht k
            rw [if_pos rfl] at hk
            omega
          obtain ⟨t', told, hback, hkept⟩ := ih t₁ fun h => by
            have hh := ht h
            have hu := huses h
            by_cases heq : h = k
            · subst heq
              simp only [if_true] at hh hu
              omega
            · simp only [heq, Ne.symm heq, if_false] at hh hu
              omega
          refine ⟨t', first ++ told, hfirst.cons hback, fun h hh => ?_⟩
          simp only [Cell.occurrences_cons, hc, Option.some.injEq] at hh
          have hu := huses h
          have hlt : Cell.occurrences h cells < t₁.uses h := by
            by_cases heq : h = k
            · subst heq
              simp only [if_true] at hh hu
              omega
            · simp only [heq, Ne.symm heq, if_false] at hh hu
              omega
          exact (hkept h hlt).trans (hfound h (by omega))

theorem conclude_append {first more : List Cell} {t : References} {told : List Hook}
    (hfirst : GivesBack first m.refs t told) (declared : Ty) (member : String)
    (outcome : Except Fault Value) :
    conclude r declared member (first ++ more) outcome m =
      conclude r declared member more outcome
        { m with refs := t, world := HostHooks.tellAll told m.world } := by
  simp only [conclude, releaseAll_append, bind, EStateM.bind, hfirst.releaseAll m rfl]

theorem conclude_worldless (declared : Ty) (member : String) (operands : List Cell)
    (outcome : Except Fault Value) :
    Worldless fun _ => conclude r declared member operands outcome :=
  (Worldless.releaseAll operands).bind fun _ => (Worldless.settle outcome).bind fun _ =>
    .pushResult r declared member _

theorem answer_eq_conclude (declared : Ty) (member : String) (operands : List Cell)
    (call : HostM Value) :
    answer r declared member operands call m = conclude r declared member operands
      ((call m.world).result.mapError .refused) (m.called call) := by
  simp only [answer, bind, EStateM.bind, attempt_host]

section Early

variable {first more : List Cell} {t : References}

-- The host sees no handles. If it answers the same either way, it leaves the same to the script
-- whether it is called after some operands are given back or before.
theorem answer_early {told : List Hook} (hfirst : GivesBack first m.refs t told)
    {call : HostM Value}
    (hsame : (call (HostHooks.tellAll told m.world)).result = (call m.world).result)
    (declared : Ty) (member : String) :
    onMachine Machine.inner (answer r declared member (first ++ more) call m) =
      onMachine Machine.inner (answer r declared member more call
        { m with refs := t, world := HostHooks.tellAll told m.world }) := by
  have hcalled : GivesBack first (m.called call).refs t told := hfirst
  rw [answer_eq_conclude, answer_eq_conclude, conclude_append hcalled, hsame]
  exact (conclude_worldless declared member more _).inner_eq
    (Machine.called { m with refs := t, world := HostHooks.tellAll told m.world } call) ⟨_, _⟩

-- Unless the host is told something in between, it is left the same too.
theorem answer_early_untold (hfirst : GivesBack first m.refs t []) (declared : Ty)
    (member : String) (call : HostM Value) :
    answer r declared member (first ++ more) call m =
      answer r declared member more call { m with refs := t } := by
  have hcalled : GivesBack first (m.called call).refs t [] := hfirst
  rw [answer_eq_conclude, answer_eq_conclude, conclude_append hcalled]
  rfl

end Early

end Work

end HostScript
