import HostScript.Proofs.Machine.Spots

namespace HostScript

namespace Instr

-- Where an instruction may jump, and how long the body of a loop is that it starts.
def target? : Instr → Option Int
  | .jump t | .jumpIf _ t => some t.toInt
  | _ => none

def bodyLength? : Instr → Option Int
  | .loop _ length | .loopNum length => some length.toInt
  | _ => none

-- More variables than the script has do no harm.
theorem Valid.mono {env : RunEnv} {i : Instr} {pc locals locals' : Nat}
    (h : i.Valid env locals pc) (hle : locals ≤ locals') : i.Valid env locals' pc := by
  cases i with
  | loadLoc | loadLocNoRef | setLoc | setLocNoRef => exact Nat.lt_of_lt_of_le h hle
  | _ => exact h

end Instr

namespace CompiledScript

-- Whole instructions one behind the other, from `p` to `q`, of each of which `P` holds with its
-- place and the place behind it.
inductive Rows (s : CompiledScript) (P : Nat → Instr → Nat → Prop) : Nat → Nat → Prop
  | nil : Rows s P p p
  | cons : s.fetch p = .ok (i, q) → P p i q → Rows s P q r → Rows s P p r

def Whole (s : CompiledScript) : Nat → Nat → Prop :=
  s.Rows fun _ _ _ => True

variable {s : CompiledScript} {P Q : Nat → Instr → Nat → Prop} {p q r x y : Nat} {i : Instr}

theorem lt_of_fetch (h : s.fetch p = .ok (i, q)) : p < q := by
  unfold fetch at h
  repeat' split at h
  all_goals cases h
  omega

theorem lt_size_of_fetch (h : s.fetch p = .ok (i, q)) : p < s.code.size := by
  unfold fetch at h
  split at h
  · cases h
  · rename_i hbyte
    exact (Array.getElem?_eq_some_iff.mp hbyte).choose

namespace Rows

theorem one (hat : s.fetch p = .ok (i, q)) (hi : P p i q) : s.Rows P p q :=
  .cons hat hi .nil

theorem append (h₁ : s.Rows P p q) (h₂ : s.Rows P q r) : s.Rows P p r := by
  induction h₁ with
  | nil => exact h₂
  | cons hat hi _ ih => exact .cons hat hi (ih h₂)

theorem imp (h : s.Rows P p q) (hpq : ∀ x i y, P x i y → Q x i y) : s.Rows Q p q := by
  induction h with
  | nil => exact .nil
  | cons hat hi _ ih => exact .cons hat (hpq _ _ _ hi) ih

theorem whole (h : s.Rows P p q) : s.Whole p q :=
  h.imp fun _ _ _ _ => trivial

theorem le (h : s.Rows P p q) : p ≤ q := by
  induction h with
  | nil => exact Nat.le_refl _
  | cons hat _ _ ih => exact Nat.le_trans (Nat.le_of_lt (lt_of_fetch hat)) ih

-- Instructions follow each other in one way only.
theorem after (h : s.Rows P p q) (hx : s.Whole p x) (hle : x ≤ q) : s.Rows P x q := by
  induction hx with
  | nil => exact h
  | cons hat _ hrest ih =>
      cases h with
      | nil => exact absurd (Nat.lt_of_lt_of_le (lt_of_fetch hat) hrest.le) (Nat.not_lt.mpr hle)
      | cons hat' _ hrest' =>
          cases Except.ok.inj (hat.symm.trans hat')
          exact ih hrest' hle

theorem find (h : s.Rows P p q) (hx : s.Whole p x) (hlt : x < q) :
    ∃ i y, s.fetch x = .ok (i, y) ∧ P x i y ∧ s.Whole p y ∧ y ≤ q := by
  have hrest := h.after hx (Nat.le_of_lt hlt)
  cases hrest with
  | nil => exact absurd hlt (Nat.lt_irrefl _)
  | cons hat hi hrest => exact ⟨_, _, hat, hi, hx.append (.one hat trivial), hrest.le⟩

end Rows

-- Jumps in this part of the code stay in it or lead to its end.
def Confined (s : CompiledScript) (p q : Nat) : Prop :=
  s.Rows (fun _ i _ => ∀ t, i.target? = some t → (p : Int) ≤ t ∧ t ≤ q) p q

-- Code that can be run: whole instructions, the last of which ends the script, with operands that
-- name what is there. Jumps lead to instructions, and the bodies of loops end between instructions
-- and are left at their end only. Whole instructions include checks of types that can be read.
structure WellFormed (r : Registry) (s : CompiledScript) : Prop where
  whole : ∃ q, s.Whole 0 q ∧ s.fetch q = .ok (.exit, s.code.size)
  valid : ∀ p i q, s.Whole 0 p → s.fetch p = .ok (i, q) → i.Valid ⟨r, s⟩ s.localsCount q
  jumps : ∀ p i q t, s.Whole 0 p → s.fetch p = .ok (i, q) → i.target? = some t →
    ∃ n : Nat, t = n ∧ s.Whole 0 n ∧ n < s.code.size
  bodies : ∀ p i q l, s.Whole 0 p → s.fetch p = .ok (i, q) → i.bodyLength? = some l →
    s.Confined q (q + l.toNat)
  inputs : ∀ entry ∈ s.inputs, entry.2.slot < s.localsCount

namespace WellFormed

variable {r : Registry}

theorem rows (h : WellFormed r s) : s.Whole 0 s.code.size := by
  obtain ⟨q, hcode, hexit⟩ := h.whole
  exact hcode.append (.one hexit trivial)

-- Every jump in the body of a loop leads into the body or to its end.
theorem confined (h : WellFormed r s) {j : Instr} {l t : Int} (hp : s.Whole 0 p)
    (hat : s.fetch p = .ok (i, q)) (hl : i.bodyLength? = some l) (hx : s.Whole 0 x) (hge : q ≤ x)
    (hlt : x < q + l.toNat) (hat' : s.fetch x = .ok (j, y)) (ht : j.target? = some t) :
    (q : Int) ≤ t ∧ t ≤ (q + l.toNat : Nat) := by
  have hstart : s.Whole 0 q := hp.append (.one hat trivial)
  obtain ⟨j', y', hat'', hj, -⟩ := (h.bodies p i q l hp hat hl).find (hx.after hstart hge) hlt
  cases Except.ok.inj (hat'.symm.trans hat'')
  exact hj t ht

end WellFormed

end CompiledScript

namespace Machine

variable {env : RunEnv} {m : Machine}

-- A run that is between two instructions, and so are the ends of the loops it is in.
structure Aligned (env : RunEnv) (m : Machine) : Prop where
  pc : env.script.Whole 0 m.pc
  loops : ∀ frame ∈ m.loops, env.script.Whole 0 frame.start ∧ env.script.Whole 0 frame.stop ∧
    frame.stop ≤ env.script.code.size
  locals : env.script.localsCount ≤ m.locals.size

theorem Aligned.rangeEnd_le (h : m.Aligned env) : Work.rangeEnd env m ≤ env.script.code.size := by
  unfold Work.rangeEnd
  split
  · rename_i frame outer hloops
    exact (h.loops frame (by simp [hloops])).2.2
  · exact Nat.le_refl _

-- A run stays between instructions when jumps, and the ends of loops, do.
theorem Aligned.goesOn (h : m.Aligned env) {i : Instr} {q : Nat}
    (hat : env.script.fetch m.pc = .ok (i, q)) {m' : Machine}
    (hlocals : m'.locals.size = m.locals.size) (hi : i.Continues { m with pc := q } m')
    (hjumps : ∀ t, i.target? = some t → env.script.Whole 0 t.toNat)
    (hbodies : ∀ l, i.bodyLength? = some l → env.script.Whole 0 (q + l.toNat) ∧
      q + l.toNat ≤ env.script.code.size) :
    m'.Aligned env := by
  have hlocals' : env.script.localsCount ≤ m'.locals.size := hlocals ▸ h.locals
  have hnext : env.script.Whole 0 q := h.pc.append (.one hat trivial)
  have hsame : m'.pc = q ∧ m'.loops = m.loops → m'.Aligned env := fun hm =>
    ⟨hm.1 ▸ hnext, hm.2 ▸ h.loops, hlocals'⟩
  have hjump : ∀ t, i.target? = some t → m'.pc = t.toNat → m'.loops = m.loops →
      m'.Aligned env := fun t ht hpc hloops => ⟨hpc ▸ hjumps t ht, hloops ▸ h.loops, hlocals'⟩
  have hloop : ∀ l : Int, i.bodyLength? = some l →
      (m'.pc = q + l.toNat ∧ m'.loops = m.loops) ∨
      (m'.pc = q ∧ ∃ left, m'.loops = ⟨q, q + l.toNat, left⟩ :: m.loops) → m'.Aligned env := by
    intro l hl hm
    obtain ⟨hend, hstop⟩ := hbodies l hl
    rcases hm with ⟨hpc, hloops⟩ | ⟨hpc, left, hloops⟩
    · exact ⟨hpc ▸ hend, hloops ▸ h.loops, hlocals'⟩
    · refine ⟨hpc ▸ hnext, fun frame hf => ?_, hlocals'⟩
      rw [hloops] at hf
      rcases List.mem_cons.mp hf with rfl | hf
      · exact ⟨hnext, hend, hstop⟩
      · exact h.loops frame hf
  cases i with
  | jump t => exact hjump _ rfl hi.1 hi.2
  | jumpIf on t =>
      rcases hi.1 with hpc | hpc
      · exact hsame ⟨hpc, hi.2⟩
      · exact hjump _ rfl hpc hi.2
  | loop count length => exact hloop _ rfl hi
  | loopNum length => exact hloop _ rfl hi
  | _ => exact hsame hi

-- Where an instruction of well-formed code leads.
theorem Aligned.continues (hwell : env.script.WellFormed env.registry) (h : m.Aligned env)
    {i : Instr} {q : Nat} (hat : env.script.fetch m.pc = .ok (i, q)) {m' : Machine}
    (hlocals : m'.locals.size = m.locals.size) (hi : i.Continues { m with pc := q } m') :
    m'.Aligned env := by
  have hnext : env.script.Whole 0 q := h.pc.append (.one hat trivial)
  have hvalid := hwell.valid m.pc i q h.pc hat
  refine h.goesOn hat hlocals hi (fun t ht => ?_) fun l hl => ?_
  · obtain ⟨n, rfl, hn, -⟩ := hwell.jumps m.pc i q t h.pc hat ht
    exact hn
  · refine ⟨hnext.append (hwell.bodies m.pc i q l h.pc hat hl).whole, ?_⟩
    cases i with
    | loop count length =>
        cases hl
        exact hvalid.2
    | loopNum length =>
        cases hl
        exact hvalid.2
    | _ => cases hl

-- A step that reads no instruction goes on at the start or at the end of a loop's body.
theorem Aligned.again (h : m.Aligned env) {frame : LoopFrame} {outer : List LoopFrame} {left : Nat}
    (hloops : m.loops = frame :: outer) :
    Aligned env { m with pc := frame.start, loops := { frame with left } :: outer } := by
  have hframe := h.loops frame (by simp [hloops])
  refine ⟨hframe.1, fun f hf => ?_, h.locals⟩
  rcases List.mem_cons.mp hf with rfl | hf
  · exact hframe
  · exact h.loops f (by simp [hloops, hf])

theorem Aligned.leave (h : m.Aligned env) {frame : LoopFrame} {outer : List LoopFrame}
    (hloops : m.loops = frame :: outer) :
    Aligned env { m with pc := frame.stop, loops := outer } := by
  have hframe := h.loops frame (by simp [hloops])
  exact ⟨hframe.2.1, fun f hf => h.loops f (by simp [hloops, hf]), h.locals⟩

variable [HostHooks]

theorem Aligned.step (hwell : env.script.WellFormed env.registry) (h : m.Aligned env) :
    Upholds (fun f _ => f.structural = false) (fun _ m' => m'.Aligned env) (Work.step env m) := by
  refine Work.step_upholds (fun i q hlt hat => ?_) (fun f hlt hat => ?_) (fun _ _ => h) ?_ ?_
  · have hvalid := hwell.valid m.pc i q h.pc hat
    refine (Work.effect_moves env i { m with pc := q }).imp (fun f m' hf => ?_) fun _ m' hm => ?_
    · rw [← Bool.not_eq_true]
      exact fun hs => hf.structural hs (hvalid.mono h.locals)
    · exact h.continues hwell hat hm.locals hm.continues
  · obtain ⟨i, q, hat', -⟩ := hwell.rows.find h.pc (Nat.lt_of_lt_of_le hlt h.rangeEnd_le)
    cases hat.symm.trans hat'
  · exact fun frame outer left _ hloops _ => h.again hloops
  · exact fun frame outer _ hloops _ => h.leave hloops

-- No run of well-formed code meets a fault of the code.
theorem firstSteps_aligned (hwell : env.script.WellFormed env.registry) (m : Machine)
    (inputs : List (String × Value)) (count : Nat) :
    Leaves (Machine.Aligned env) (Machine.Aligned env) (fun f _ => f.structural = false)
      (m.firstSteps env inputs count) := by
  refine execute_leaves (fun _ => Machine.Aligned env) ?_ fun left m₁ h₁ => ?_
  · have hlocals : env.script.localsCount ≤ (m.prepare env.script.localsCount).locals.size := by
      simp [prepare]
    refine (bindInputs_keeps _ env.registry inputs env.script.inputs).imp (fun f m' h => ?_)
      fun _ m' h => ?_
    · rw [← Bool.not_eq_true]
      exact fun hs => h.structural hs fun entry he =>
        Nat.lt_of_lt_of_le (hwell.inputs entry he) hlocals
    · refine ⟨h.pc ▸ .nil, fun frame hf => ?_, h.locals ▸ hlocals⟩
      rw [h.loops] at hf
      cases hf
  · refine (h₁.step hwell).weaken fun flow m' h => ?_
    split
    · exact h
    · exact h

end Machine

end HostScript
