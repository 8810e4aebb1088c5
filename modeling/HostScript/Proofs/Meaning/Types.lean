import HostScript.Proofs.Meaning.Report

namespace HostScript

open Machine

-- The way a machine carries a script out, except that all values have to be of their recorded types.
def Dialect.watched (r : Registry) (symbols : SymbolTable) (level rounds : Nat) : Dialect :=
  { machine r symbols level rounds with strict := true }

-- Variables are of the types that are known of them.
def TypeContext.Fits (Γ : TypeContext) (vars : String → Value) : Prop :=
  Dialect.Knows (fun v ty => v.conforms ty = true) Γ vars

theorem Fault.code_of_usual {f : Fault} (h : f.usual true = true) : f.code ≠ .invalidBytecode := by
  cases f <;> simp_all [usual, code]

theorem Fault.code_of_exhausts {f : Fault} (h : f.exhausts = true) : f.code ≠ .invalidBytecode := by
  cases f <;> simp_all [exhausts, code]

-- How a script stops whose values are all of their recorded types, if it is not in the middle of a
-- loop: that is how its run ends.
theorem verdict?_of_sound {result : EStateM.Result Stop Store Unit}
    (h : Upholds (fun e _ => e.Sound) (fun _ _ => True) result)
    (hleave : ∀ σ, result ≠ .error .leave σ) (hagain : ∀ σ, result ≠ .error .again σ) :
    ∃ w, verdict? result = some w ∧ ∀ f, w.1 = .failed f → f.usual true = true := by
  cases result with
  | ok _ σ => exact ⟨_, rfl, nofun⟩
  | error e σ =>
      cases e with
      | exit => exact ⟨_, rfl, nofun⟩
      | ret x => exact ⟨_, rfl, nofun⟩
      | fault f =>
          refine ⟨_, rfl, fun f' hf => ?_⟩
          cases hf
          exact h
      | leave => exact absurd rfl (hleave σ)
      | again => exact absurd rfl (hagain σ)
      | _ => exact h.elim

namespace CompiledScript

variable {r : Registry} {options : CompileOptions} {source : String} {s : CompiledScript}
  {parsed checked : Script} {a : Analysis} {L : Layout} {supplied : List (String × Value)}
  {m : Machine}

theorem Stages.fits_watched (r : Registry) (options : CompileOptions) (checked : Script)
    (a : Analysis) (rounds : Nat) :
    Fits r options checked a (.watched r a.symbols options.level rounds) :=
  ⟨rfl, rfl, rfl, Stmt.everyOne_of_always (Dialect.regular_of_special rfl rfl) checked⟩

-- Before its first statement, the variables of a script are of the types that it declares for its
-- inputs, in whatever way a type is read that goes with what is asked of them.
theorem hold_start {R : Value → Ty → Prop} (hanswers : ∀ v ty, v.Answers r ty → R v ty)
    (haccepted : ∀ v ∈ a.inputs, v.accepted r supplied = true) (world : World) :
    Dialect.Hold R (Facts.start a.inputs) (Store.start a.inputs supplied world).vars := by
  intro x
  simp only [Store.start, Facts.start]
  cases hfound : a.inputs.find? (·.name = x) with
  | none =>
      have hnone : a.inputs.any (·.name = x) = false :=
        List.any_eq_false.mpr fun v hv => by simpa using List.find?_eq_none.mp hfound v hv
      simp only [hnone]
      exact hanswers .null .null (.inr rfl)
  | some v =>
      have hname : v.name = x := by simpa using List.find?_some hfound
      have hv := List.mem_of_find?_eq_some hfound
      have hany : a.inputs.any (·.name = x) = true :=
        List.any_eq_true.mpr ⟨v, hv, by simpa using hname⟩
      simp only [hany, if_true]
      exact hname ▸ hanswers _ _ (.inr (haccepted v hv))

-- Without loops, the recorded types are borne out from the start, in whatever way types are compared.
theorem Stages.borneOut {le : Ty → Ty → Bool} (hle : Ty.Orders le) (hr : r.Built)
    (h : Stages r options source s parsed checked a L) (hfree : Stmt.AllLoopFree checked) :
    ∃ Γ, checked.Typed r a.symbols .initial Γ ∧
      Stmt.AllBorneOut le r (Facts.start a.inputs) checked ∧
      (Stmt.allAfter le r (Facts.start a.inputs) checked).Refines le Γ := by
  obtain ⟨⟨Γ, htyped⟩, hinputs, hnodup⟩ := Script.typed_of_check hr.numbered h.check
  have hknown : (Facts.start a.inputs).Refines le .initial := nofun
  refine ⟨Γ, htyped, htyped.borneOut hle hfree (by simp [TypeContext.initial]) (fun v hv => ?_) hknown⟩
  rw [← hinputs] at hv hnodup
  rw [Facts.start_eq hnodup hv]
  exact hle.refl _

-- Without loops, a script keeps to the types that were recorded for it.
theorem Stages.keeps_types (hr : r.Built) (h : Stages r options source s parsed checked a L)
    (hfree : Stmt.AllLoopFree checked) (haccepted : ∀ v ∈ a.inputs, v.accepted r supplied = true)
    (rounds : Nat) (world : World) : ∃ Γ, checked.Typed r a.symbols .initial Γ ∧
      Upholds (fun e _ => e.Sound) (fun _ σ => Γ.Fits σ.vars)
        ((Dialect.watched r a.symbols options.level rounds).execAll false checked
          (Store.start a.inputs supplied world)) := by
  obtain ⟨Γ, htyped, hborne, hrefines⟩ := h.borneOut Ty.orders_conformsTo hr hfree
  refine ⟨Γ, htyped, ?_⟩
  rw [← List.append_nil checked] at h
  have hE : ∀ e : Stop, e.Sound → ¬e.Jumps → e.Sound ∧ ¬e.Jumps := fun _ => And.intro
  refine (h.upholds hr (Stages.fits_watched r options _ a rounds) (Dialect.reading_conforms rfl hE)
    (Dialect.control_conforms hE fun _ => And.right) Dialect.compares_conforms hborne (.inl hfree)
    (hold_start (fun _ _ => Value.Answers.conforms) haccepted world)).imp
      (fun e _ hstop => hstop.elim And.left Stop.sound_of_jumps) ?_
  exact fun _ σ hσ x ty hx => Dialect.compares_conforms.imp _ _ _ (hrefines x ty hx) (hσ x)

-- Its run ends as that says, unless the machine is too small.
theorem Stages.halts_typed (hr : r.Built) (h : Stages r options source s parsed checked a L)
    (hfree : Stmt.AllLoopFree checked) (hm : m.Idle)
    (haccepted : ∀ v ∈ a.inputs, v.accepted r supplied = true) (rounds : Nat) :
    ∃ w, verdict? ((Dialect.watched r a.symbols options.level rounds).execAll false checked
        (Store.start a.inputs supplied m.world)) = some w ∧
      (∀ f, w.1 = .failed f → f.usual true = true) ∧
      (∃ x, m.Halts ⟨r, s⟩ supplied x ∧ (x.verdict = w ∧ x.warnings = #[] ∨ m.CutsShort s x)) ∧
      ∀ k m', m.firstSteps ⟨r, s⟩ supplied k = (.outOfFuel, m') → m'.Spared ⟨r, s⟩ := by
  obtain ⟨Γ, -, hsound⟩ := h.keeps_types hr hfree haccepted rounds m.world
  have hfits := Stages.fits_watched r options checked a rounds
  have hends := h.ends hr hfits haccepted (m := m)
  obtain ⟨w, hw, husual⟩ := verdict?_of_sound (hsound.weaken fun _ _ _ => trivial)
    (fun σ hσ => by rw [hσ] at hends; exact hends.elim)
    fun σ hσ => by rw [hσ] at hends; exact hends.elim
  obtain ⟨hhalts, hspared⟩ := h.halts hr hm haccepted hfits hw
  exact ⟨w, hw, husual, hhalts, hspared⟩

-- A source text without loops keeps to its types. All its values are of the types that were recorded
-- for their expressions and are known of its variables, its run ends as that says, and no instruction
-- finds what it does not expect: numeric ones no other values, and those for variables without
-- references no texts or objects.
theorem well_typed_without_loops (hr : r.Built) (hcompile : compile r options source = .ok s)
    (hanalyze : Script.analyze r options.imports source = .ok (checked, a))
    (hfree : Stmt.AllLoopFree checked) (hm : m.Idle) (supplied : List (String × Value)) :
    ((∀ v ∈ a.inputs, v.accepted r supplied = true) → ∀ rounds,
      ∃ Γ w, checked.Typed r a.symbols .initial Γ ∧
        Upholds (fun e _ => e.Sound) (fun _ σ => Γ.Fits σ.vars)
          ((Dialect.watched r a.symbols options.level rounds).execAll false checked
            (Store.start a.inputs supplied m.world)) ∧
        verdict? ((Dialect.watched r a.symbols options.level rounds).execAll false checked
            (Store.start a.inputs supplied m.world)) = some w ∧
        ∃ x, m.Halts ⟨r, s⟩ supplied x ∧ (x.verdict = w ∧ x.warnings = #[] ∨ m.CutsShort s x)) ∧
    (∀ fuel f, (m.report ⟨r, s⟩ fuel supplied).outcome = .failed f → f.code ≠ .invalidBytecode) ∧
    ∀ k m', m.firstSteps ⟨r, s⟩ supplied k = (.outOfFuel, m') → m'.Spares ⟨r, s⟩ := by
  obtain ⟨parsed, _, _, L, hstages⟩ := exists_stages hr hcompile
  cases hanalyze.symm.trans hstages.analyze
  refine ⟨fun haccepted rounds => ?_, fun fuel f hf => ?_, fun k m' hk => ?_⟩
  · obtain ⟨Γ, htyped, hsound⟩ := hstages.keeps_types hr hfree haccepted rounds m.world
    obtain ⟨w, hw, -, hhalts, -⟩ := hstages.halts_typed hr hfree hm haccepted rounds
    exact ⟨Γ, w, htyped, hsound, hw, hhalts⟩
  · have hx : m.Halts ⟨r, s⟩ supplied (m.report ⟨r, s⟩ fuel supplied) := ⟨by simp [hf], fuel, rfl⟩
    rcases hstages.opens hr hm supplied with ⟨haccepted, -⟩ | ⟨f', m', hsteps, -, hend⟩
    · obtain ⟨w, -, husual, ⟨y, hy, hend⟩, -⟩ := hstages.halts_typed hr hfree hm haccepted 0
      rw [hx.unique hy] at hf
      rcases hend with ⟨rfl, -⟩ | ⟨⟨f', hf', hexhausts, -⟩, -⟩
      · exact Fault.code_of_usual (husual f hf)
      · cases hf.symm.trans hf'
        exact Fault.code_of_exhausts hexhausts
    · rw [hx.unique (halts_of_firstSteps (hsteps 0) (by simp))] at hf
      cases hf
      rcases hend with hexhausted | ⟨hcode, -⟩
      · exact Fault.code_of_exhausts hexhausted.exhausts
      · rw [hcode]
        decide
  · rcases hstages.opens hr hm supplied with ⟨haccepted, -⟩ | ⟨f', m₁, hsteps, -⟩
    · obtain ⟨-, -, -, -, hspared⟩ := hstages.halts_typed hr hfree hm haccepted 0
      exact (hspared k m' hk).spares
    · cases (hsteps k).symm.trans hk

-- What can be worked out from a source text: that it compiles, and what holds of it once analyzed.
theorem exists_compiled (r : Registry) (options : CompileOptions) (source : String)
    {P : Script → Analysis → Prop} [∀ checked a, Decidable (P checked a)]
    (hcompiles : (compile r options source).isOk = true)
    (hfine : (Script.analyze r options.imports source).toOption.any (fun p => P p.1 p.2) = true) :
    ∃ s checked a, compile r options source = .ok s ∧
      Script.analyze r options.imports source = .ok (checked, a) ∧ P checked a := by
  cases hcompile : compile r options source with
  | error d =>
      rw [hcompile] at hcompiles
      cases hcompiles
  | ok s =>
      cases hanalyze : Script.analyze r options.imports source with
      | error d =>
          rw [hanalyze] at hfine
          cases hfine
      | ok result =>
          rw [hanalyze] at hfine
          exact ⟨s, result.1, result.2, rfl, rfl, of_decide_eq_true hfine⟩

-- A variable that is a number in one branch and a text in the other one.
def choosing : String :=
  "in <long> [n]\nin [d]\nif [n > 2] do\nvar [x] = [n * 2]\nelse\nvar [x] = [\"few\"]\nend\nreturn [x + d]"

def chosen : List (String × Value) :=
  [("n", .number 1), ("d", .text "!")]

theorem choosing_well_typed : ∃ s checked a, compile .empty {} choosing = .ok s ∧
    Script.analyze .empty ["system"] choosing = .ok (checked, a) ∧ Stmt.AllLoopFree checked ∧
    (∀ v ∈ a.inputs, v.accepted .empty chosen = true) ∧
    (∃ x, (Machine.new {} {}).Halts ⟨.empty, s⟩ chosen x) ∧
    (∀ fuel f, ((Machine.new {} {}).report ⟨.empty, s⟩ fuel chosen).outcome = .failed f →
      f.code ≠ .invalidBytecode) ∧
    ∀ k m', (Machine.new {} {}).firstSteps ⟨.empty, s⟩ chosen k = (.outOfFuel, m') →
      m'.Spares ⟨.empty, s⟩ := by
  obtain ⟨s, checked, a, hcompile, hanalyze, hfree, haccepted⟩ :
      ∃ s checked a, compile .empty {} choosing = .ok s ∧
        Script.analyze .empty ["system"] choosing = .ok (checked, a) ∧ Stmt.AllLoopFree checked ∧
        ∀ v ∈ a.inputs, v.accepted .empty chosen = true :=
    exists_compiled .empty {} choosing (by decide +kernel) (by decide +kernel)
  obtain ⟨htyped, hfaults, hspares⟩ :=
    well_typed_without_loops .empty hcompile hanalyze hfree (Machine.idle_new {} {}) chosen
  obtain ⟨_, _, _, _, _, x, hx, -⟩ := htyped haccepted 0
  exact ⟨s, checked, a, hcompile, hanalyze, hfree, haccepted, ⟨x, hx⟩, hfaults, hspares⟩

end CompiledScript

end HostScript
