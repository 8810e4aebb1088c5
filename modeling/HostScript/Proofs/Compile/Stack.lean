import HostScript.Proofs.Compile.Heights
import HostScript.Proofs.Script.Parsed

namespace HostScript

namespace CompiledScript

variable {r : Registry} {options : CompileOptions} {source : String} {s : CompiledScript}

-- A compiled source text: the script that was read, the script with its types, and the code that was
-- laid out for it.
structure Stages (r : Registry) (options : CompileOptions) (source : String) (s : CompiledScript)
    (parsed checked : Script) (analysis : Analysis) (L : Layout) : Prop where
  parse : Script.parse source = .ok parsed
  analyze : Script.analyze r options.imports source = .ok (checked, analysis)
  generate : CompiledScript.generate r options checked analysis = .ok s
  sound : Check.Yields.AllSound r parsed checked
  script : L.script = s
  registry : L.registry = r
  symbols : L.symbols = analysis.symbols
  level : L.level = options.level
  carries : L.Carries analysis.inputs checked

theorem exists_stages (hr : r.Built) (h : compile r options source = .ok s) :
    ∃ parsed checked analysis L, Stages r options source s parsed checked analysis L := by
  obtain ⟨⟨checked, analysis⟩, hanalyze, hgenerate⟩ := except_bind_ok.mp h
  obtain ⟨parsed, hparse, hcheck⟩ := except_bind_ok.mp hanalyze
  obtain ⟨hsound, hnames⟩ :=
    Script.sound_of_check hr.numbered (Script.plain_of_parse hparse) hcheck
  obtain ⟨L, hscript, hregistry, hsymbols, hlevel, hcarries⟩ :=
    generate_carries hsound.plain hnames hgenerate
  exact ⟨parsed, checked, analysis, L, hparse, hanalyze, hgenerate, hsound, hscript, hregistry,
    hsymbols, hlevel, hcarries⟩

-- Where in the code of a source text its statements start and end.
def boundaries (r : Registry) (options : CompileOptions) (source : String) : List Nat :=
  match Script.analyze r options.imports source with
  | .ok (checked, _) => Stmt.boundsAll r options.level 0 checked
  | .error _ => []

-- What the code of a source text is held to.
def bounds (r : Registry) (options : CompileOptions) (source : String) (s : CompiledScript)
    (loops : Nat) : Spot.Bounds :=
  ⟨s.maxStack, loops, fun pc => pc ∈ boundaries r options source⟩

theorem Stages.safe {parsed checked : Script} {analysis : Analysis} {L : Layout}
    (h : Stages r options source s parsed checked analysis L) (n : Nat) :
    Spot.Safe ⟨r, s⟩ (bounds r options source s (Stmt.nestAll parsed)) n ⟨[], 0, 0⟩ := by
  have henv : L.env = ⟨r, s⟩ := by rw [Layout.env, h.script, h.registry]
  rw [← henv]
  refine h.carries.safe (h.registry ▸ h.sound.linked) ?_ (Nat.le_of_eq h.sound.nest) (fun x hx => ?_) n
  · rw [h.level]
    exact needAll_le_maxStack h.generate
  · rw [h.registry, h.level]
    have hx : x ∈ boundaries r options source := hx
    simpa only [boundaries, h.analyze] using hx

end CompiledScript

namespace Machine

section

variable [HostHooks]

-- Cleaning up never finds that the stack was not empty.
theorem reset_stackNotEmpty (m : Machine) {w : Warning} (hw : w ∈ m.reset.warnings)
    (hcode : w.code = .stackNotEmpty) : w ∈ m.warnings := by
  obtain ⟨refs, told, hfold⟩ := foldl_letGo_eq (m.stack.reverse ++ m.locals.toList)
    { m with stack := [], locals := m.locals.map fun _ => .null }
  simp only [reset, hfold, Array.mem_append, List.mem_toArray, List.mem_map] at hw
  rcases hw with hw | ⟨⟨handle, payload⟩, -, rfl⟩
  · exact hw
  · cases payload <;> cases hcode

variable {r : Registry} {options : CompileOptions} {source : String} {s : CompiledScript}

-- Every run of a compiled source text keeps the stack within the height that the compiler noted, and
-- empty where statements meet. It never takes a value that is not there, needs no more room than was
-- noted, and leaves nothing on the stack.
theorem stack_within_noted_height (hr : r.Built)
    (hcompile : CompiledScript.compile r options source = .ok s) (m : Machine)
    (inputs : List (String × Value)) :
    (∀ k, (m.firstSteps ⟨r, s⟩ inputs k).2.stack.length ≤ s.maxStack) ∧
    (∀ k m', m.firstSteps ⟨r, s⟩ inputs k = (.outOfFuel, m') →
      m'.pc ∈ CompiledScript.boundaries r options source → m'.stack = []) ∧
    (∀ fuel, (m.run ⟨r, s⟩ fuel inputs).1 ≠ .failed .stackUnderflow) ∧
    (s.maxStack ≤ m.stackCapacity →
      ∀ fuel capacity, (m.run ⟨r, s⟩ fuel inputs).1 ≠ .failed (.stackOverflow capacity)) ∧
    ∀ fuel, ∀ w ∈ (m.run ⟨r, s⟩ fuel inputs).2.warnings, w.code ≠ .stackNotEmpty := by
  obtain ⟨parsed, checked, analysis, L, hstages⟩ := CompiledScript.exists_stages hr hcompile
  have hbounded := firstSteps_bounded hstages.safe m
  have hheight : ∀ inputs k, (m.firstSteps ⟨r, s⟩ inputs k).2.stack.length ≤ s.maxStack ∧
      (m.firstSteps ⟨r, s⟩ inputs k).2.warnings = #[] := by
    intro inputs k
    have hk := hbounded inputs k
    generalize m.firstSteps ⟨r, s⟩ inputs k = result at hk
    obtain ⟨_ | f | _, m'⟩ := result
    · exact hk
    · exact ⟨hk.1, hk.2.1⟩
    · exact ⟨(hk.safe 1).fine.height, hk.warnings⟩
  have hfault : ∀ inputs k f, (m.firstSteps ⟨r, s⟩ inputs k).1 = .failed f → f ≠ .stackUnderflow ∧
      ∀ capacity, f = .stackOverflow capacity → m.stackCapacity < s.maxStack := by
    intro inputs k f hf
    have hk := hbounded inputs k
    generalize m.firstSteps ⟨r, s⟩ inputs k = result at hk hf
    obtain ⟨outcome, m'⟩ := result
    cases hf
    exact hk.2.2
  refine ⟨fun k => (hheight inputs k).1, fun k m' hk hpc => ?_, fun fuel => ?_, fun hroom fuel capacity => ?_,
    fun fuel w hw hcode => ?_⟩
  · have hsafe := hbounded inputs k
    rw [hk] at hsafe
    exact List.eq_nil_of_length_eq_zero ((hsafe.safe 1).fine.edge hpc)
  · obtain ⟨entries, returned, runs, -, hrun⟩ := run_eq ⟨r, s⟩ fuel inputs m
    rw [hrun]
    exact fun hf => (hfault entries fuel _ hf).1 rfl
  · obtain ⟨entries, returned, runs, -, hrun⟩ := run_eq ⟨r, s⟩ fuel inputs m
    rw [hrun]
    exact fun hf => absurd ((hfault entries fuel _ hf).2 capacity rfl) (Nat.not_lt.mpr hroom)
  · obtain ⟨entries, returned, runs, -, hrun⟩ := run_eq ⟨r, s⟩ fuel inputs m
    rw [hrun] at hw
    have hleft := reset_stackNotEmpty _ hw hcode
    rw [(hheight entries fuel).2] at hleft
    simp at hleft

end

-- Adds to a variable in every round of a counted loop.
def adding : String :=
  "var [x] = 1\nloop [2]\nvar [x] = [x] + 3\nend\nreturn [x]"

theorem adding_within_noted_height : ∃ s, CompiledScript.compile .empty {} adding = .ok s ∧
    s.maxStack = 2 ∧
    (∀ k, ((Machine.new {} {}).firstSteps ⟨.empty, s⟩ [] k).2.stack.length ≤ 2) ∧
    (∀ fuel, ((Machine.new {} {}).run ⟨.empty, s⟩ fuel []).1 ≠ .failed .stackUnderflow) ∧
    ∀ fuel capacity,
      ((Machine.new {} {}).run ⟨.empty, s⟩ fuel []).1 ≠ .failed (.stackOverflow capacity) := by
  have hheight : (CompiledScript.compile .empty {} adding).toOption.map (·.maxStack) = some 2 := by
    decide +kernel
  cases hcompile : CompiledScript.compile .empty {} adding with
  | error d =>
      rw [hcompile] at hheight
      cases hheight
  | ok s =>
      rw [hcompile] at hheight
      have hmax : s.maxStack = 2 := Option.some.inj hheight
      obtain ⟨hall, -, hunder, hover, -⟩ :=
        stack_within_noted_height .empty hcompile (Machine.new {} {}) []
      refine ⟨s, rfl, hmax, fun k => hmax ▸ hall k, hunder, hover ?_⟩
      rw [hmax]
      decide

end Machine

end HostScript
