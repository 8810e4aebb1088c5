import HostScript.Proofs.Code.Listing
import HostScript.Proofs.Machine.Sparing

namespace HostScript

namespace CompiledScript

-- A place where the listing shows an instruction, or where the code ends.
def Lands (s : CompiledScript) (n : Int) : Prop :=
  0 ≤ n ∧ (s.Listed n.toNat ∨ n.toNat = s.code.size)

-- What holds of every instruction of the listing, and of the place behind it.
def EachListed (s : CompiledScript) (P : Instr → Nat → Prop) : Prop :=
  ∀ p i q, s.Listed p → s.fetch p = .ok (i, q) → P i q

-- Code whose listing is clean, and in which every jump, and the end of every loop's body, is at an
-- instruction that is listed or at the end of the code.
structure Landing (s : CompiledScript) : Prop where
  clean : s.Clean
  jumps : s.EachListed fun i _ => ∀ t ∈ i.target?, s.Lands t
  bodies : s.EachListed fun i q => ∀ l ∈ i.bodyLength?, s.Lands (q + l)

-- No loop's body ends before it begins.
def Forward (s : CompiledScript) : Prop :=
  s.EachListed fun i _ => ∀ l ∈ i.bodyLength?, 0 ≤ l

instance (s : CompiledScript) (n : Int) : Decidable (s.Lands n) :=
  inferInstanceAs (Decidable (0 ≤ n ∧ (s.Listed n.toNat ∨ n.toNat = s.code.size)))

instance (s : CompiledScript) (P : Instr → Nat → Prop) [∀ i q, Decidable (P i q)] :
    Decidable (s.EachListed P) :=
  decidable_of_iff (∀ line ∈ s.codeLines s.code.size 0,
      ∀ at_ ∈ (s.fetch (Listing.place line)).toOption, P at_.1 at_.2)
    ⟨fun h p i q ⟨line, hline, hp⟩ hat => h line hline (i, q) (by rw [hp, hat]; rfl),
      fun h line hline at_ hat => h _ _ _ ⟨line, hline, rfl⟩ (by
        cases hfetch : s.fetch (Listing.place line) with
        | ok next =>
            rw [hfetch] at hat
            cases hat
            rfl
        | error f =>
            rw [hfetch] at hat
            cases hat)⟩

instance (s : CompiledScript) : Decidable s.Landing :=
  decidable_of_iff (s.Clean ∧ (s.EachListed fun i _ => ∀ t ∈ i.target?, s.Lands t) ∧
      s.EachListed fun i q => ∀ l ∈ i.bodyLength?, s.Lands (q + l))
    ⟨fun h => ⟨h.1, h.2.1, h.2.2⟩, fun h => ⟨h.clean, h.jumps, h.bodies⟩⟩

instance (s : CompiledScript) : Decidable s.Forward :=
  inferInstanceAs (Decidable (s.EachListed fun i _ => ∀ l ∈ i.bodyLength?, 0 ≤ l))

variable {s : CompiledScript} {p q : Nat} {i : Instr}

theorem Landing.listed (h : s.Landing) (hp : s.Whole 0 p) (hat : s.fetch p = .ok (i, q)) :
    s.Listed p :=
  h.clean.listed_iff.mpr ⟨hp, lt_size_of_fetch hat⟩

theorem Landing.whole (h : s.Landing) {n : Int} (hn : s.Lands n) :
    s.Whole 0 n.toNat ∧ n.toNat ≤ s.code.size := by
  rcases hn.2 with hlisted | hend
  · obtain ⟨hwhole, hlt⟩ := h.clean.listed_iff.mp hlisted
    exact ⟨hwhole, Nat.le_of_lt hlt⟩
  · rw [hend]
    exact ⟨h.clean.whole, Nat.le_refl _⟩

theorem Landing.jump (h : s.Landing) (hp : s.Whole 0 p) (hat : s.fetch p = .ok (i, q)) {t : Int}
    (ht : i.target? = some t) : 0 ≤ t ∧ s.Whole 0 t.toNat ∧ t.toNat ≤ s.code.size := by
  have hlands := h.jumps p i q (h.listed hp hat) hat t ht
  exact ⟨hlands.1, h.whole hlands⟩

theorem Landing.body (h : s.Landing) (hforward : s.Forward) (hp : s.Whole 0 p)
    (hat : s.fetch p = .ok (i, q)) {l : Int} (hl : i.bodyLength? = some l) :
    0 ≤ l ∧ s.Whole 0 (q + l.toNat) ∧ q + l.toNat ≤ s.code.size := by
  have hpos := hforward p i q (h.listed hp hat) hat l hl
  have hlands := h.whole (h.bodies p i q (h.listed hp hat) hat l hl)
  have hend : ((q : Int) + l).toNat = q + l.toNat := by omega
  rw [hend] at hlands
  exact ⟨hpos, hlands⟩

end CompiledScript

namespace Machine

variable {env : RunEnv} {m : Machine}

-- What jumps and loops name is there, so that they find no fault with the code.
theorem Aligned.valid (hland : env.script.Landing) (hforward : env.script.Forward)
    (h : m.Aligned env) {i : Instr} {q : Nat} (hat : env.script.fetch m.pc = .ok (i, q))
    (hkind : i.target? ≠ none ∨ i.bodyLength? ≠ none) (locals : Nat) : i.Valid env locals q := by
  cases i with
  | jump target | jumpIf on target =>
      obtain ⟨hpos, -, hle⟩ := hland.jump h.pc hat rfl
      exact ⟨hpos, by omega⟩
  | loop count length | loopNum length =>
      obtain ⟨hpos, -, hle⟩ := hland.body hforward h.pc hat rfl
      exact ⟨hpos, hle⟩
  | _ => simp [Instr.target?, Instr.bodyLength?] at hkind

section

variable [HostHooks]

theorem Aligned.effect (hland : env.script.Landing) (hforward : env.script.Forward)
    (h : m.Aligned env) {i : Instr} {q : Nat} (hat : env.script.fetch m.pc = .ok (i, q)) :
    Upholds (fun f _ => f.ofLayout = false) (fun _ m' => m'.Aligned env)
      (Work.effect env i { m with pc := q }) := by
  have hmoves := Work.effect_moves env i { m with pc := q }
  have hspares : i.target? = none → i.bodyLength? = none →
      Upholds (fun f _ => f.ofLayout = false) (fun _ _ => True)
        (Work.effect env i { m with pc := q }) := fun ht hl =>
    (Work.Sparing.effect env ht hl).upholds _
  cases hresult : Work.effect env i { m with pc := q } with
  | ok u m' =>
      rw [hresult] at hmoves
      refine h.goesOn hat hmoves.locals hmoves.continues (fun t ht => ?_) fun l hl => ?_
      · exact (hland.jump h.pc hat ht).2.1
      · exact (hland.body hforward h.pc hat hl).2
  | error f m' =>
      rw [hresult] at hmoves hspares
      by_cases hkind : i.target? ≠ none ∨ i.bodyLength? ≠ none
      · have hvalid := h.valid hland hforward hat hkind m.locals.size
        exact Fault.ofLayout_of_not_structural fun hs => hmoves.structural hs hvalid
      · rw [not_or, not_not, not_not] at hkind
        exact hspares hkind.1 hkind.2

theorem Aligned.landing_step (hland : env.script.Landing) (hforward : env.script.Forward)
    (h : m.Aligned env) :
    Upholds (fun f _ => f.ofLayout = false) (fun _ m' => m'.Aligned env) (Work.step env m) := by
  refine Work.step_upholds (fun i q hlt hat => ?_) (fun f hlt hat => ?_) (fun _ _ => h) ?_ ?_
  · exact h.effect hland hforward hat
  · obtain ⟨i, q, hat', -⟩ := hland.clean.whole.find h.pc (Nat.lt_of_lt_of_le hlt h.rangeEnd_le)
    cases hat.symm.trans hat'
  · exact fun frame outer left _ hloops _ => h.again hloops
  · exact fun frame outer _ hloops _ => h.leave hloops

theorem firstSteps_landing (hland : env.script.Landing) (hforward : env.script.Forward)
    (m : Machine) (inputs : List (String × Value)) (count : Nat) :
    Leaves (Machine.Aligned env) (Machine.Aligned env) (fun f _ => f.ofLayout = false)
      (m.firstSteps env inputs count) := by
  refine execute_leaves (fun _ => Machine.Aligned env) ?_ fun left m₁ h₁ => ?_
  · have hlocals : env.script.localsCount ≤ (m.prepare env.script.localsCount).locals.size := by
      simp [prepare]
    have hkept := bindInputs_keeps (m.prepare env.script.localsCount) env.registry inputs
      env.script.inputs
    have hspares := (Work.Sparing.bindInputs env.registry inputs env.script.inputs).upholds
      (m.prepare env.script.localsCount)
    cases hresult : bindInputs env.registry inputs env.script.inputs
        (m.prepare env.script.localsCount) with
    | ok u m' =>
        rw [hresult] at hkept
        refine ⟨hkept.pc ▸ .nil, fun frame hf => ?_, hkept.locals ▸ hlocals⟩
        rw [hkept.loops] at hf
        cases hf
    | error f m' =>
        rw [hresult] at hspares
        exact hspares
  · refine (h₁.landing_step hland hforward).weaken fun flow m' h => ?_
    split
    · exact h
    · exact h

-- Where the listing of a script shows that its code can be decoded, every run reads instructions
-- where the listing does, and none ends because of how the code is laid out.
theorem run_reads_listed (hland : env.script.Landing) (hforward : env.script.Forward)
    (m : Machine) (inputs : List (String × Value)) (count : Nat) :
    (∀ m', m.firstSteps env inputs count = (.outOfFuel, m') →
      m'.pc < Work.rangeEnd env m' → env.script.Listed m'.pc) ∧
    ∀ f m', m.run env count inputs = (.failed f, m') → f.ofLayout = false := by
  constructor
  · intro m' hsteps hlt
    have hrun := firstSteps_landing hland hforward m inputs count
    rw [hsteps] at hrun
    exact hland.clean.listed_iff.mpr ⟨hrun.pc, Nat.lt_of_lt_of_le hlt hrun.rangeEnd_le⟩
  · intro f m' hfailed
    obtain ⟨entries, returned, runs, -, hsame⟩ := run_eq env count inputs m
    rw [hfailed] at hsame
    have hsteps : m.firstSteps env entries count = (.failed f, (m.firstSteps env entries count).2) :=
      Prod.ext (Prod.mk.inj hsame).1.symm rfl
    have hrun := firstSteps_landing hland hforward m entries count
    rw [hsteps] at hrun
    exact hrun

end

-- Two rounds of a body that jumps to its last instruction.
def rounds : CompiledScript where
  name := "rounds"
  code := #[52, 2, 0, 0, 0, 6, 0, 0, 0, 37, 14, 0, 0, 0, 0, 55]
  strings := #[]
  localsCount := 0
  maxStack := 0
  inputs := []

theorem run_reads_listed_rounds : rounds.Landing ∧ rounds.Forward ∧
    ∀ (r : Registry) count f m',
      (Machine.new {} World.empty).run ⟨r, rounds⟩ count [] = (.failed f, m') →
        f.ofLayout = false := by
  have hland : rounds.Landing := by decide
  have hforward : rounds.Forward := by decide
  exact ⟨hland, hforward, fun r count =>
    (@run_reads_listed ⟨r, rounds⟩ _ hland hforward _ [] count).2⟩

-- A loop whose body ends at an instruction in front of it.
def backward : CompiledScript where
  name := "backward"
  code := #[37, 6, 0, 0, 0, 55, 52, 1, 0, 0, 0, 246, 255, 255, 255]
  strings := #[]
  localsCount := 0
  maxStack := 0
  inputs := []

theorem run_fails_backward : backward.Landing ∧
    ((Machine.new {} World.empty).run ⟨Registry.empty, backward⟩ 2 []).1 =
      .failed (.badLoopLength (-10)) := by
  have hland : backward.Landing := by decide
  exact ⟨hland, rfl⟩

end Machine

end HostScript
