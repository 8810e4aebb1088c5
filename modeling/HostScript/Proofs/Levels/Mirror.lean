import HostScript.Proofs.Compile.Discipline
import HostScript.Proofs.Machine.Blind
import HostScript.Proofs.Machine.Calls
import HostScript.Proofs.Machine.WellFormed
import HostScript.Proofs.Number.Whole

namespace HostScript

-- A run from a machine to the one it stops with, in so many steps and with these calls of the host.
-- All machines it passes are as `P` says.
inductive Halts [HostHooks] (env : RunEnv) (P : Machine → Prop) :
    Nat → Machine → List HostCall → Machine → Prop
  | stop {m m' : Machine} : P m → Work.step env m = .ok .stop m' →
      Halts env P 1 m (m.stepCalls env) m'
  | next {n : Nat} {m m₁ m' : Machine} {calls : List HostCall} : P m →
      Work.step env m = .ok .next m₁ → Halts env P n m₁ calls m' →
      Halts env P (n + 1) m (m.stepCalls env ++ calls) m'

namespace Halts

variable [HostHooks] {env : RunEnv} {P : Machine → Prop} {n : Nat} {m m' : Machine}
  {calls : List HostCall}

theorem start (h : Halts env P n m calls m') : P m := by
  cases h with
  | stop hm _ => exact hm
  | next hm _ _ => exact hm

-- The first step of a run that goes on.
theorem after {m₁ : Machine} (h : Halts env P n m calls m') (hstep : Work.step env m = .ok .next m₁) :
    ∃ k rest, n = k + 1 ∧ calls = m.stepCalls env ++ rest ∧ Halts env P k m₁ rest m' := by
  cases h with
  | stop _ hstop =>
      rw [hstep] at hstop
      cases hstop
  | next _ hnext hrest =>
      rw [hstep] at hnext
      cases hnext
      exact ⟨_, _, rfl, rfl, hrest⟩

theorem at_stop {m₁ : Machine} (h : Halts env P n m calls m')
    (hstep : Work.step env m = .ok .stop m₁) : calls = m.stepCalls env ∧ m' = m₁ := by
  cases h with
  | stop _ hstop =>
      rw [hstep] at hstop
      cases hstop
      exact ⟨rfl, rfl⟩
  | next _ hnext _ =>
      rw [hstep] at hnext
      cases hnext

theorem not_failed {f : Fault} {m₁ : Machine} (h : Halts env P n m calls m') :
    Work.step env m ≠ .error f m₁ := by
  intro hstep
  cases h with
  | stop _ hstop =>
      rw [hstep] at hstop
      cases hstop
  | next _ hnext _ =>
      rw [hstep] at hnext
      cases hnext

theorem of_runSteps (h : Machine.runSteps env n m = (.finished, m'))
    (hall : ∀ k m₁, Machine.runSteps env k m = (.outOfFuel, m₁) → P m₁) :
    ∃ k, Halts env P k m (m.hostCalls env n) m' := by
  induction n generalizing m with
  | zero => cases h
  | succ n ih =>
      have hm : P m := hall 0 m rfl
      cases hstep : Work.step env m with
      | error f m₁ =>
          simp only [Machine.runSteps, hstep] at h
          cases h
      | ok flow m₁ =>
          cases flow with
          | stop =>
              simp only [Machine.runSteps, hstep] at h
              cases h
              refine ⟨1, ?_⟩
              simp only [Machine.hostCalls, hstep]
              exact .stop hm hstep
          | next =>
              rw [Machine.runSteps_next hstep] at h
              obtain ⟨k, hk⟩ := ih h fun k m₂ hreach => by
                refine hall (k + 1) m₂ ?_
                rwa [Machine.runSteps_next hstep]
              refine ⟨k + 1, ?_⟩
              simp only [Machine.hostCalls, hstep]
              exact .next hm hstep hk

theorem runSteps (h : Halts env P n m calls m') :
    Machine.runSteps env n m = (.finished, m') ∧ m.hostCalls env n = calls := by
  induction h with
  | stop _ hstep =>
      exact ⟨by simp only [Machine.runSteps, hstep], by simp only [Machine.hostCalls, hstep]⟩
  | next _ hstep _ ih =>
      exact ⟨(Machine.runSteps_next hstep).trans ih.1, by simp only [Machine.hostCalls, hstep, ih.2]⟩

end Halts

namespace Machine

-- What a run leaves outside the machine, and what it returns.
structure SameEnd (m m' : Machine) : Prop where
  printed : m'.printed = m.printed
  returned : m'.returned = m.returned
  world : m'.world = m.world

-- The same machine somewhere else.
def standing (m : Machine) (locals : Array Cell) (loops : List LoopFrame) (pc : Nat) : Machine :=
  { m with locals, loops, pc }

end Machine

-- Work that does not depend on where it is done.
theorem Work.Blind.standing {α : Type} {x : Work α} (hx : Work.Blind x) (m : Machine)
    (locals : Array Cell) (loops : List LoopFrame) (pc : Nat) :
    x (m.standing locals loops pc) = Work.onMachine (·.standing locals loops pc) (x m) :=
  hx ⟨fun _ => locals, fun _ => loops, fun _ => pc⟩ m

-- The counts of the loops of a script, as far as they have been evaluated, are ones up to which
-- counting is exact.
def Layout.Bounded (L : Layout) (m : Machine) : Prop :=
  ∀ (slot k : Nat) (x : Float), L.slots[slot]? = some (hiddenName "limit" k) →
    m.locals[slot]? = some (.number x) → Number.Countable x

-- Where the code being run ends.
def Layout.rangeEnd (L : Layout) (loops : List LoopFrame) : Nat :=
  match loops with
  | frame :: _ => frame.stop
  | [] => L.script.code.size

-- One script laid out twice: the slow way, where all loops count in variables, and the fast way,
-- where the machine may count.
structure Levels where
  slow : Layout
  fast : Layout
  registry : fast.registry = slow.registry
  symbols : fast.symbols = slow.symbols
  level : slow.level = 0
  slowNodup : slow.slots.Nodup
  fastNodup : fast.slots.Nodup

-- If the slow run comes to its end in `n` steps at most, the fast one ends the same way, with the
-- same calls of the host.
def Levels.Mirrors [HostHooks] (T : Levels) (n : Nat) (m₀ m₁ : Machine) : Prop :=
  ∀ k calls m₀', k ≤ n → Halts T.slow.env T.slow.Bounded k m₀ calls m₀' →
    ∃ k' m₁', Halts T.fast.env (fun _ => True) k' m₁ calls m₁' ∧ m₀'.SameEnd m₁'

theorem stepCalls_of_fetch [HostHooks] {env : RunEnv} {m : Machine} {i : Instr} {q : Nat}
    (hlt : m.pc < Work.rangeEnd env m) (hat : env.script.fetch m.pc = .ok (i, q)) :
    m.stepCalls env = Machine.callsOf env i { m with pc := q } := by
  simp only [Machine.stepCalls, hlt, if_true, hat]

namespace Layout

variable [HostHooks] {L : Layout} {i : Instr} {p q : Nat} {m : Machine}

-- What a step does at an instruction.
theorem At.step (h : L.At p i q) (hpc : m.pc = p) (hlt : p < Work.rangeEnd L.env m) :
    Work.step L.env m = (do Work.effect L.env i; return i.flow : Work Flow) { m with pc := q } := by
  subst hpc
  exact Work.step_of_fetch hlt h

theorem At.calls (h : L.At p i q) (hpc : m.pc = p) (hlt : p < Work.rangeEnd L.env m) :
    m.stepCalls L.env = Machine.callsOf L.env i { m with pc := q } := by
  subst hpc
  exact stepCalls_of_fetch hlt h

end Layout

namespace Levels.Mirrors

variable [HostHooks] {T : Levels} {n : Nat} {m₀ m₁ : Machine}

theorem zero : T.Mirrors 0 m₀ m₁ := by
  intro k calls m₀' hk hhalts
  cases hhalts with
  | stop _ _ => omega
  | next _ _ _ => omega

theorem mono {n' : Nat} (h : T.Mirrors n m₀ m₁) (hle : n' ≤ n) : T.Mirrors n' m₀ m₁ :=
  fun k calls m₀' hk => h k calls m₀' (Nat.le_trans hk hle)

-- The counts that the slow run has evaluated are bounded.
theorem bounded (h : T.slow.Bounded m₀ → T.Mirrors n m₀ m₁) : T.Mirrors n m₀ m₁ :=
  fun k calls m₀' hk hhalts => h hhalts.start k calls m₀' hk hhalts

-- Both runs take a step.
theorem both {i₀ i₁ : Instr} {p₀ p₁ q₀ q₁ : Nat} (h₀ : T.slow.At p₀ i₀ q₀) (h₁ : T.fast.At p₁ i₁ q₁)
    (hpc₀ : m₀.pc = p₀) (hpc₁ : m₁.pc = p₁) (hlt₀ : p₀ < Work.rangeEnd T.slow.env m₀)
    (hlt₁ : p₁ < Work.rangeEnd T.fast.env m₁) (hflow₀ : i₀.flow = .next) (hflow₁ : i₁.flow = .next)
    (hcalls : Machine.callsOf T.slow.env i₀ { m₀ with pc := q₀ } =
      Machine.callsOf T.fast.env i₁ { m₁ with pc := q₁ })
    (h : ∀ m₀', Work.effect T.slow.env i₀ { m₀ with pc := q₀ } = .ok () m₀' →
      ∃ m₁', Work.effect T.fast.env i₁ { m₁ with pc := q₁ } = .ok () m₁' ∧ T.Mirrors n m₀' m₁') :
    T.Mirrors (n + 1) m₀ m₁ := by
  intro k calls m₀' hk hhalts
  have hstep₀ := h₀.step hpc₀ hlt₀
  have hstep₁ := h₁.step hpc₁ hlt₁
  simp only [bind, EStateM.bind, hflow₀] at hstep₀
  simp only [bind, EStateM.bind, hflow₁] at hstep₁
  cases heffect : Work.effect T.slow.env i₀ { m₀ with pc := q₀ } with
  | error f m' =>
      rw [heffect] at hstep₀
      exact absurd hstep₀ hhalts.not_failed
  | ok u m' =>
      obtain ⟨m₁', heffect₁, hmirrors⟩ := h m' heffect
      rw [heffect] at hstep₀
      rw [heffect₁] at hstep₁
      obtain ⟨j, rest, rfl, rfl, hrest⟩ := hhalts.after hstep₀
      obtain ⟨k', final, hhalts', hsame⟩ := hmirrors j rest m₀' (by omega) hrest
      refine ⟨k' + 1, final, ?_, hsame⟩
      rw [h₀.calls hpc₀ hlt₀, hcalls, ← h₁.calls hpc₁ hlt₁]
      exact .next trivial hstep₁ hhalts'

-- Only the slow run takes a step.
theorem left {i : Instr} {p q : Nat} (hat : T.slow.At p i q) (hpc : m₀.pc = p)
    (hlt : p < Work.rangeEnd T.slow.env m₀) (hflow : i.flow = .next)
    (hcalls : Machine.callsOf T.slow.env i { m₀ with pc := q } = [])
    (h : ∀ m₀', Work.effect T.slow.env i { m₀ with pc := q } = .ok () m₀' → T.Mirrors n m₀' m₁) :
    T.Mirrors (n + 1) m₀ m₁ := by
  intro k calls m₀' hk hhalts
  have hstep := hat.step hpc hlt
  simp only [bind, EStateM.bind, hflow] at hstep
  cases heffect : Work.effect T.slow.env i { m₀ with pc := q } with
  | error f m' =>
      rw [heffect] at hstep
      exact absurd hstep hhalts.not_failed
  | ok u m' =>
      rw [heffect] at hstep
      obtain ⟨j, rest, rfl, rfl, hrest⟩ := hhalts.after hstep
      rw [hat.calls hpc hlt, hcalls]
      exact h m' heffect j rest m₀' (by omega) hrest

-- Only the fast run takes a step.
theorem right {i : Instr} {p q : Nat} {m₁' : Machine} (hat : T.fast.At p i q) (hpc : m₁.pc = p)
    (hlt : p < Work.rangeEnd T.fast.env m₁) (hflow : i.flow = .next)
    (hcalls : Machine.callsOf T.fast.env i { m₁ with pc := q } = [])
    (heffect : Work.effect T.fast.env i { m₁ with pc := q } = .ok () m₁')
    (h : T.Mirrors n m₀ m₁') : T.Mirrors n m₀ m₁ := by
  intro k calls m₀' hk hhalts
  have hstep := hat.step hpc hlt
  simp only [bind, EStateM.bind, heffect, hflow] at hstep
  obtain ⟨k', final, hhalts', hsame⟩ := h k calls m₀' hk hhalts
  refine ⟨k' + 1, final, ?_, hsame⟩
  have hnone : m₁.stepCalls T.fast.env = [] := by rw [hat.calls hpc hlt, hcalls]
  have hall := Halts.next (P := fun _ => True) trivial hstep hhalts'
  rwa [hnone] at hall

-- The fast run comes to the end of a round.
theorem round {frame : LoopFrame} {outer : List LoopFrame} {m₁' : Machine}
    (hloops : m₁.loops = frame :: outer) (hpc : m₁.pc = frame.stop)
    (hnext : Work.step T.fast.env m₁ = .ok .next m₁') (h : T.Mirrors n m₀ m₁') :
    T.Mirrors n m₀ m₁ := by
  intro k calls m₀' hk hhalts
  obtain ⟨k', final, hhalts', hsame⟩ := h k calls m₀' hk hhalts
  refine ⟨k' + 1, final, ?_, hsame⟩
  have hnone : m₁.stepCalls T.fast.env = [] := by
    simp only [Machine.stepCalls, Work.rangeEnd, hloops, hpc, Nat.lt_irrefl, if_false]
  have hall := Halts.next (P := fun _ => True) trivial hnext hhalts'
  rwa [hnone] at hall

-- Both runs stop.
theorem stop {i₀ i₁ : Instr} {p₀ p₁ q₀ q₁ : Nat} (h₀ : T.slow.At p₀ i₀ q₀) (h₁ : T.fast.At p₁ i₁ q₁)
    (hpc₀ : m₀.pc = p₀) (hpc₁ : m₁.pc = p₁) (hlt₀ : p₀ < Work.rangeEnd T.slow.env m₀)
    (hlt₁ : p₁ < Work.rangeEnd T.fast.env m₁) (hflow₀ : i₀.flow = .stop) (hflow₁ : i₁.flow = .stop)
    (hcalls : Machine.callsOf T.slow.env i₀ { m₀ with pc := q₀ } =
      Machine.callsOf T.fast.env i₁ { m₁ with pc := q₁ })
    (h : ∀ m₀', Work.effect T.slow.env i₀ { m₀ with pc := q₀ } = .ok () m₀' →
      ∃ m₁', Work.effect T.fast.env i₁ { m₁ with pc := q₁ } = .ok () m₁' ∧ m₀'.SameEnd m₁') :
    T.Mirrors n m₀ m₁ := by
  intro k calls m₀' hk hhalts
  have hstep₀ := h₀.step hpc₀ hlt₀
  have hstep₁ := h₁.step hpc₁ hlt₁
  simp only [bind, EStateM.bind, hflow₀] at hstep₀
  simp only [bind, EStateM.bind, hflow₁] at hstep₁
  cases heffect : Work.effect T.slow.env i₀ { m₀ with pc := q₀ } with
  | error f m' =>
      rw [heffect] at hstep₀
      exact absurd hstep₀ hhalts.not_failed
  | ok u m' =>
      obtain ⟨m₁', heffect₁, hsame⟩ := h m' heffect
      rw [heffect] at hstep₀
      rw [heffect₁] at hstep₁
      obtain ⟨rfl, rfl⟩ := hhalts.at_stop hstep₀
      refine ⟨1, m₁', ?_, hsame⟩
      rw [h₀.calls hpc₀ hlt₀, hcalls, ← h₁.calls hpc₁ hlt₁]
      exact .stop trivial hstep₁

end Levels.Mirrors

end HostScript
