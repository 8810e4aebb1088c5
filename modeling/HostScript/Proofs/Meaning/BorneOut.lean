import HostScript.Proofs.Machine.Ownership
import HostScript.Proofs.Meaning.Types

namespace HostScript

open Machine

theorem Fault.not_invalidReference_of_usual {f : Fault} (h : f.usual false = true) :
    f.code ≠ .invalidReference := by
  cases f <;> simp_all [usual, code]

-- A run fails for the reason for which its script stops.
theorem usual_of_verdict? {strict : Bool} {result : EStateM.Result Stop Store Unit}
    {w : Outcome × Value × Outside} {f : Fault}
    (h : Upholds (fun e _ => e.Sane strict) (fun _ _ => True) result) (hw : verdict? result = some w)
    (hf : w.1 = .failed f) : f.usual false = true := by
  cases result with
  | ok _ σ =>
      cases hw
      cases hf
  | error e σ =>
      cases e with
      | fault f' =>
          cases hw
          cases hf
          exact h
      | _ =>
          cases hw
          try cases hf

theorem verdict?_or_outOfFuel {result : EStateM.Result Stop Store Unit}
    (h : Upholds (fun e _ => e.Sound ∨ e = .outOfFuel) (fun _ _ => True) result)
    (hleave : ∀ σ, result ≠ .error .leave σ) (hagain : ∀ σ, result ≠ .error .again σ) :
    (∃ w, verdict? result = some w) ∨ ∃ σ, result = .error .outOfFuel σ := by
  cases result with
  | ok _ σ => exact .inl ⟨_, rfl⟩
  | error e σ =>
      cases e with
      | outOfFuel => exact .inr ⟨σ, rfl⟩
      | leave => exact absurd rfl (hleave σ)
      | again => exact absurd rfl (hagain σ)
      | mistyped inLoop => exact (h.resolve_right nofun).elim
      | stray => exact (h.resolve_right nofun).elim
      | malformed => exact (h.resolve_right nofun).elim
      | _ => exact .inl ⟨_, rfl⟩

namespace CompiledScript

variable {r : Registry} {options : CompileOptions} {source : String} {s : CompiledScript}
  {parsed checked : Script} {first rest : Script} {a : Analysis} {L : Layout}
  {supplied : List (String × Value)} {m : Machine}

-- Where all that is told apart by the recorded types are texts and objects, none of them turns up where
-- none is expected.
theorem Stages.never_strays (hr : r.Built) (h : Stages r options source s parsed checked a L)
    (hborne : Stmt.AllBorneOut Ty.refersTo r (Facts.start a.inputs) checked)
    (haccepted : ∀ v ∈ a.inputs, v.accepted r supplied = true) (rounds : Nat) (σ : Store) :
    (Dialect.machine r a.symbols options.level rounds).execAll false checked
      (Store.start a.inputs supplied m.world) ≠ .error .stray σ := by
  intro hstray
  rw [← List.append_nil checked] at h
  have hreading := Dialect.reading_refers
    (show (Dialect.machine r a.symbols options.level rounds).strict = false from rfl)
  have hupholds := h.upholds hr (Stages.fits_machine r options _ a rounds) hreading
    Dialect.control_refers Dialect.compares_refers hborne (.inr ⟨trivial, id, nofun⟩)
    (hold_start hreading.answers haccepted m.world)
  rw [hstray] at hupholds
  rcases hupholds with ⟨-, -, hnot⟩ | hjumps
  · exact hnot rfl
  · exact hjumps

-- Where the types that are recorded for the uses of variables are borne out by all that is written to
-- them, as far as texts and objects are told apart, references are counted throughout a run: every
-- instruction for variables without references finds none, none is left behind in the end, and no
-- instruction meets one that is gone.
theorem counted_where_borne_out (hr : r.Built) (hcompile : compile r options source = .ok s)
    (hanalyze : Script.analyze r options.imports source = .ok (checked, a))
    (hborne : Stmt.AllBorneOut Ty.refersTo r (Facts.start a.inputs) checked) (hm : m.Idle)
    (supplied : List (String × Value)) :
    (∀ k m', m.firstSteps ⟨r, s⟩ supplied k = (.outOfFuel, m') → m'.Spared ⟨r, s⟩) ∧
    ∀ x, m.Halts ⟨r, s⟩ supplied x →
      x.warnings = #[] ∧ ∀ f, x.outcome = .failed f → f.code ≠ .invalidReference := by
  obtain ⟨parsed, _, _, L, h⟩ := exists_stages hr hcompile
  cases hanalyze.symm.trans h.analyze
  rcases h.opens hr hm supplied with ⟨haccepted, -⟩ | ⟨f, m₁, hsteps, hclean, hend⟩
  · have hfits := Stages.fits_machine r options checked a
    -- A run of so many steps does not tell rounds beyond them apart.
    have hmeans : ∀ n, _ := fun n => (h.means hr haccepted (hfits n) rfl m).imp id
      (Or.resolve_right · fun ⟨σ, hσ⟩ => h.never_strays hr hborne haccepted n σ hσ)
    have hcut : ∀ x, m.CutsShort s x →
        x.warnings = #[] ∧ ∀ f, x.outcome = .failed f → f.code ≠ .invalidReference := by
      rintro x ⟨⟨f, hf, hexhausts, hwarnings⟩, -⟩
      refine ⟨hwarnings, fun f' hf' => ?_⟩
      cases hf.symm.trans hf'
      exact not_invalidReference_of_exhausts hexhausts
    constructor
    · intro k m' hk
      rcases hmeans (k + 1) with ⟨w, hw⟩ | ⟨σ, hσ⟩
      · exact (h.halts hr hm haccepted (hfits (k + 1)) hw).2 k m' hk
      · rcases h.goesOn hr hm haccepted (hfits (k + 1)) hσ (Nat.lt_succ_self k) hk with hon | hgave
        · exact hon.2
        · exact absurd rfl hgave.ended
    · intro x hx
      obtain ⟨hended, k, rfl⟩ := id hx
      rcases hmeans (k + 1) with ⟨w, hw⟩ | ⟨σ, hσ⟩
      · obtain ⟨⟨y, hy, hpost⟩, -⟩ := h.halts hr hm haccepted (hfits (k + 1)) hw
        rw [hx.unique hy]
        rcases hpost with ⟨rfl, hwarnings⟩ | hshort
        · exact ⟨hwarnings, fun f hf => Fault.not_invalidReference_of_usual
            (usual_of_verdict? (h.sane hr (hfits (k + 1)) _) hw hf)⟩
        · exact hcut y hshort
      · rcases h.lasts hr hm haccepted (hfits (k + 1)) hσ (Nat.lt_succ_self k) with hon | hshort
        · exact absurd hon hended
        · exact hcut _ hshort
  · constructor
    · intro k m' hk
      cases (hsteps k).symm.trans hk
    · intro x hx
      rw [hx.unique (halts_of_firstSteps (hsteps 0) (by simp))]
      refine ⟨hclean.reset_warnings, fun f' hf' => ?_⟩
      cases hf'
      rcases hend with hexhausted | ⟨hcode, -⟩
      · exact not_invalidReference_of_exhausts hexhausted.exhausts
      · rw [hcode]
        decide

-- Where they are borne out as far as values are told apart at all, every value that the first part of
-- a script comes to is of the type that is recorded for its expression, however many rounds its loops
-- take. A run that does not get past that part ends as it says, or goes on with its rounds.
theorem well_typed_where_borne_out (hr : r.Built) (hcompile : compile r options source = .ok s)
    (hanalyze : Script.analyze r options.imports source = .ok (first ++ rest, a))
    (hborne : Stmt.AllBorneOut Ty.conformsTo r (Facts.start a.inputs) first) (hm : m.Idle)
    (haccepted : ∀ v ∈ a.inputs, v.accepted r supplied = true) (rounds : Nat)
    {result : EStateM.Result Stop Store Unit}
    (hresult : (Dialect.watched r a.symbols options.level rounds).execAll false first
      (Store.start a.inputs supplied m.world) = result) :
    Upholds (fun e _ => e.Sound ∨ e = .outOfFuel)
      (fun _ σ => ∀ x, (σ.vars x).conforms
        (Stmt.allAfter Ty.conformsTo r (Facts.start a.inputs) first x) = true) result ∧
    ((∃ e σ, result = .error e σ) ∨ rest = [] →
      (∃ w x, verdict? result = some w ∧ m.Halts ⟨r, s⟩ supplied x ∧
        (x.verdict = w ∧ x.warnings = #[] ∨ m.CutsShort s x)) ∨
      (∃ σ, result = .error .outOfFuel σ) ∧
        ∀ k < rounds, (m.report ⟨r, s⟩ k supplied).outcome = .outOfFuel ∨
          m.CutsShort s (m.report ⟨r, s⟩ k supplied)) := by
  obtain ⟨parsed, _, _, L, h⟩ := exists_stages hr hcompile
  cases hanalyze.symm.trans h.analyze
  have hfits := Stages.fits_watched r options (first ++ rest) a rounds
  have hE : ∀ e : Stop, e.Sound → ¬e.Jumps → (e.Sound ∨ e = .outOfFuel) ∧ ¬e.Jumps :=
    fun e hsound hjumps => ⟨.inl hsound, hjumps⟩
  have hsound := (h.upholds hr hfits (Dialect.reading_conforms rfl hE)
    (Dialect.control_conforms hE fun _ => And.right) Dialect.compares_conforms hborne
    (.inr ⟨.inr rfl, id⟩) (hold_start (fun _ _ => Value.Answers.conforms) haccepted m.world)).imp
      (fun e _ hstop => hstop.elim And.left fun hjumps => .inl (Stop.sound_of_jumps hjumps))
      fun _ _ hK => hK
  rw [hresult] at hsound
  refine ⟨hsound, fun hends => ?_⟩
  -- The whole script stops where its first part does.
  have hwhole : (Dialect.watched r a.symbols options.level rounds).execAll false (first ++ rest)
      (Store.start a.inputs supplied m.world) = result := by
    rcases hends with ⟨e, σ, rfl⟩ | rfl
    · rw [Dialect.execAll_append]
      simp only [bind, EStateM.bind, hresult]
    · rwa [List.append_nil]
  have hcode := h.ends hr hfits haccepted (m := m)
  rw [hwhole] at hcode
  rcases verdict?_or_outOfFuel (hsound.weaken fun _ _ _ => trivial)
    (fun σ hσ => by rw [hσ] at hcode; exact hcode.elim)
    (fun σ hσ => by rw [hσ] at hcode; exact hcode.elim) with ⟨w, hw⟩ | ⟨σ, hσ⟩
  · obtain ⟨⟨x, hx, hpost⟩, -⟩ := h.halts hr hm haccepted hfits (hwhole ▸ hw)
    exact .inl ⟨w, x, hw, hx, hpost⟩
  · exact .inr ⟨⟨σ, hσ⟩, fun k hk => h.lasts hr hm haccepted hfits (hwhole.trans hσ) hk⟩

-- A variable that is a number in the first round of a loop, and a text in all others. What is recorded
-- for its use behind the loop is not right if there are no rounds.
def widening : String :=
  "in <long> [n]\nvar [i] = [0]\nvar [last] = [0]\nvar [text] = [\"\"]\nwhile [i < n] do\n" ++
    "var [text] = [text + last]\nvar [last] = [i + \".\"]\nvar [i]++\nend\nreturn [text + last]"

theorem widening_counted : ∃ s checked a, compile .empty {} widening = .ok s ∧
    Script.analyze .empty ["system"] widening = .ok (checked, a) ∧
    Stmt.AllBorneOut Ty.refersTo .empty (Facts.start a.inputs) checked ∧
    (∀ k m', (Machine.new {} {}).firstSteps ⟨.empty, s⟩ [("n", .number 3)] k = (.outOfFuel, m') →
      m'.Spared ⟨.empty, s⟩) ∧
    ∀ x, (Machine.new {} {}).Halts ⟨.empty, s⟩ [("n", .number 3)] x →
      x.warnings = #[] ∧ ∀ f, x.outcome = .failed f → f.code ≠ .invalidReference := by
  obtain ⟨s, checked, a, hcompile, hanalyze, hborne⟩ :
      ∃ s checked a, compile .empty {} widening = .ok s ∧
        Script.analyze .empty ["system"] widening = .ok (checked, a) ∧
        Stmt.AllBorneOut Ty.refersTo .empty (Facts.start a.inputs) checked :=
    exists_compiled .empty {} widening (by decide +kernel) (by decide +kernel)
  exact ⟨s, checked, a, hcompile, hanalyze, hborne,
    counted_where_borne_out .empty hcompile hanalyze hborne (Machine.idle_new {} {}) _⟩

theorem widening_well_typed : ∃ s checked a, compile .empty {} widening = .ok s ∧
    Script.analyze .empty ["system"] widening = .ok (checked, a) ∧
    Stmt.AllBorneOut Ty.conformsTo .empty (Facts.start a.inputs) (checked.take 5) ∧
    (∀ v ∈ a.inputs, v.accepted .empty [("n", .number 3)] = true) ∧
    ∀ rounds, Upholds (fun e _ => e.Sound ∨ e = .outOfFuel)
      (fun _ σ => ∀ x, (σ.vars x).conforms
        (Stmt.allAfter Ty.conformsTo .empty (Facts.start a.inputs) (checked.take 5) x) = true)
      ((Dialect.watched .empty a.symbols 1 rounds).execAll false (checked.take 5)
        (Store.start a.inputs [("n", .number 3)] {})) := by
  obtain ⟨s, checked, a, hcompile, hanalyze, hborne, haccepted⟩ :
      ∃ s checked a, compile .empty {} widening = .ok s ∧
        Script.analyze .empty ["system"] widening = .ok (checked, a) ∧
        Stmt.AllBorneOut Ty.conformsTo .empty (Facts.start a.inputs) (checked.take 5) ∧
        ∀ v ∈ a.inputs, v.accepted .empty [("n", .number 3)] = true :=
    exists_compiled .empty {} widening (by decide +kernel) (by decide +kernel)
  refine ⟨s, checked, a, hcompile, hanalyze, hborne, haccepted, fun rounds => ?_⟩
  rw [← List.take_append_drop 5 checked] at hanalyze
  exact (well_typed_where_borne_out .empty hcompile hanalyze hborne (Machine.idle_new {} {})
    haccepted rounds rfl).1

end CompiledScript

end HostScript
