import HostScript.Proofs.Compile.Rows
import HostScript.Proofs.Compile.Stack

namespace HostScript

open CompiledScript

theorem mem_of_mem_putSorted {α : Type} {name : String} {value : α} {l : List (String × α)}
    {entry : String × α} (h : entry ∈ putSorted name value l) :
    entry = (name, value) ∨ entry ∈ l := by
  induction l with
  | nil => simpa [putSorted] using h
  | cons other rest ih =>
      simp only [putSorted] at h
      split at h
      · rename_i hname
        rcases List.mem_cons.mp h with h | h
        · exact .inl (hname ▸ h)
        · exact .inr (List.mem_cons_of_mem _ h)
      · split at h
        · exact List.mem_cons.mp h
        · rcases List.mem_cons.mp h with rfl | h
          · exact .inr List.mem_cons_self
          · exact (ih h).imp_right (List.mem_cons_of_mem _)

-- Inputs are kept in variables of the script.
theorem CompiledScript.slot_lt_of_inputTable {slots : List String} {inputs : List InputVar}
    {table : List (String × InputSlot)} (h : inputTable slots inputs = .ok table) :
    ∀ entry ∈ table, entry.2.slot < slots.length := by
  induction inputs generalizing table with
  | nil =>
      cases h
      simp
  | cons v rest ih =>
      simp only [inputTable] at h
      cases hi : slots.idxOf? v.name with
      | none =>
          rw [hi] at h
          cases h
      | some i =>
          rw [hi] at h
          obtain ⟨others, hothers, h⟩ := except_bind_ok.mp h
          cases h
          intro entry hentry
          rcases mem_of_mem_putSorted hentry with rfl | hentry
          · exact (List.idxOf?_eq_some_iff.mp hi).choose
          · exact ih hothers entry hentry

-- The code of a script is well formed.
theorem Layout.Carries.wellFormed {L : Layout} {inputs : List InputVar} {script : Script}
    (hcarries : L.Carries inputs script) (hlinked : Stmt.AllLinked L.registry script) :
    L.script.WellFormed L.registry := by
  obtain ⟨q, k, hcode, hexit⟩ := hcarries.code
  have hsize := hexit.lt
  -- Outside of loops nothing leads out, and behind the statements the script ends.
  have hbody : L.Closed (fun _ => False) 0 q :=
    (hcode.closed hlinked).imp fun t ht => by
      obtain ⟨-, x, hx, -⟩ := ht
      cases hx
  have hrows : L.Rows (fun t => L.script.Whole 0 t ∧ t ≤ q) 0 L.script.code.size :=
    (hbody _ (fun _ ht => ht.elim) fun t ht hle => ⟨ht, hle⟩).append
      (.one hexit ⟨trivial, by simp [Instr.target?], by simp [Instr.bodyLength?]⟩)
  have hrow : ∀ p i y, L.script.Whole 0 p → L.script.fetch p = .ok (i, y) →
      L.Row (fun t => L.script.Whole 0 t ∧ t ≤ q) p i y := by
    intro p i y hp hat
    obtain ⟨i', y', hat', hrow, -⟩ := hrows.find hp (lt_size_of_fetch hat)
    cases Except.ok.inj (hat.symm.trans hat')
    exact hrow
  exact
    { whole := ⟨q, hbody.whole, hexit⟩
      valid := fun p i y hp hat => hcarries.size ▸ (hrow p i y hp hat).valid
      jumps := fun p i y t hp hat ht => by
        obtain ⟨n, hn, hwhole, hle⟩ := (hrow p i y hp hat).jumps t ht
        exact ⟨n, hn, hwhole, Nat.lt_of_le_of_lt hle hsize⟩
      bodies := fun p i y l hp hat => (hrow p i y hp hat).body l
      inputs := fun entry he => hcarries.size ▸ slot_lt_of_inputTable hcarries.inputs entry he }

namespace CompiledScript

variable {r : Registry} {options : CompileOptions} {source : String} {s : CompiledScript}

-- How deeply the counted loops of a source text are nested.
def loopDepth (source : String) : Nat :=
  match Script.parse source with
  | .ok script => Stmt.nestAll script
  | .error _ => 0

theorem wellFormed (hr : r.Built) (hcompile : compile r options source = .ok s) :
    s.WellFormed r := by
  obtain ⟨parsed, checked, analysis, L, hstages⟩ := exists_stages hr hcompile
  have hlinked : Stmt.AllLinked L.registry checked := hstages.registry ▸ hstages.sound.linked
  have hwell := hstages.carries.wellFormed hlinked
  rwa [hstages.script, hstages.registry] at hwell

-- Whatever is compiled is well formed, and no run of it meets a fault of the code or is in more
-- loops at once than the source text nests.
theorem wellFormed_of_compile [HostHooks] (hr : r.Built)
    (hcompile : compile r options source = .ok s) :
    s.WellFormed r ∧
    (∀ (m : Machine) inputs fuel f, (m.run ⟨r, s⟩ fuel inputs).1 = .failed f →
      f.structural = false) ∧
    ∀ (m : Machine) inputs k m', m.firstSteps ⟨r, s⟩ inputs k = (.outOfFuel, m') →
      m'.loops.length ≤ loopDepth source := by
  obtain ⟨parsed, checked, analysis, L, hstages⟩ := exists_stages hr hcompile
  have hwell : s.WellFormed r := wellFormed hr hcompile
  refine ⟨hwell, fun m inputs fuel f hf => ?_, fun m inputs k m' hk => ?_⟩
  · obtain ⟨entries, returned, runs, -, hrun⟩ := Machine.run_eq ⟨r, s⟩ fuel inputs m
    have haligned : Leaves _ _ (fun f _ => f.structural = false) (m.firstSteps ⟨r, s⟩ entries fuel) :=
      Machine.firstSteps_aligned hwell m entries fuel
    rw [hrun] at hf
    generalize m.firstSteps ⟨r, s⟩ entries fuel = result at haligned hf
    obtain ⟨outcome, m'⟩ := result
    cases hf
    exact haligned
  · have hbounded := Machine.firstSteps_bounded hstages.safe m inputs k
    rw [hk] at hbounded
    have hloops : m'.spot.loops.length ≤ Stmt.nestAll parsed := (hbounded.safe 1).fine.loops
    simpa only [Machine.spot, List.length_map, loopDepth, hstages.parse] using hloops

-- One counted loop in another, the inner one of which may be left early.
def nested : String :=
  "loop [2]\nloop [3]\nif true\nbreak\nend\nend\nend\nreturn 1"

theorem nested_wellFormed : ∃ s, compile .empty {} nested = .ok s ∧ s.WellFormed .empty ∧
    (∀ fuel f, ((Machine.new {} {}).run ⟨.empty, s⟩ fuel []).1 = .failed f →
      f.structural = false) ∧
    ∀ k m', (Machine.new {} {}).firstSteps ⟨.empty, s⟩ [] k = (.outOfFuel, m') →
      m'.loops.length ≤ 2 := by
  have hcompiles : (compile .empty {} nested).isOk = true := by decide +kernel
  have hdepth : loopDepth nested = 2 := by decide +kernel
  cases hcompile : compile .empty {} nested with
  | error d =>
      rw [hcompile] at hcompiles
      cases hcompiles
  | ok s =>
      obtain ⟨hwell, hfaults, hloops⟩ := wellFormed_of_compile .empty hcompile
      exact ⟨s, rfl, hwell, hfaults (Machine.new {} {}) [],
        fun k m' hk => hdepth ▸ hloops (Machine.new {} {}) [] k m' hk⟩

end CompiledScript

end HostScript
