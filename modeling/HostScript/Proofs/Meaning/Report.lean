import HostScript.Proofs.Compile.Stack
import HostScript.Proofs.Machine.Tiers
import HostScript.Proofs.Meaning.Run
import HostScript.Proofs.Semantics.Safety

namespace HostScript

namespace Machine

-- What a script makes of a run: how it ends, what it returns, and what it leaves outside.
def Report.verdict (x : Report) : Outcome × Value × Outside :=
  (x.outcome, x.returned, ⟨x.world, x.printed⟩)

-- A run that was cut short because the machine is too small.
def Report.Exhausted (x : Report) : Prop :=
  ∃ f, x.outcome = .failed f ∧ f.exhausts = true ∧ x.warnings = #[]

-- A machine that has room for every run of a script: for as many values as the compiler noted, and
-- for a reference from every place.
structure Houses (m : Machine) (s : CompiledScript) : Prop where
  stack : s.maxStack ≤ m.stackCapacity
  references : s.maxStack + max m.locals.size s.localsCount + 2 < m.refs.capacity

-- A run of a script that the machine is too small for.
def CutsShort (m : Machine) (s : CompiledScript) (x : Report) : Prop :=
  x.Exhausted ∧ ¬m.Houses s

-- A run comes to an end and is reported.
def Halts (env : RunEnv) (inputs : List (String × Value)) (m : Machine) (x : Report) : Prop :=
  x.outcome ≠ .outOfFuel ∧ ∃ fuel, m.report env fuel inputs = x

-- A run comes to an instruction that finds a text or an object where it expects none.
def Misreads (env : RunEnv) (inputs : List (String × Value)) (m : Machine) : Prop :=
  ∃ k m', m.firstSteps env inputs k = (.outOfFuel, m') ∧ ¬m'.Spares env

-- If a run of one script ends, a run of the other one ends in the same way, unless there is too little
-- room in one of them or the first one misreads a variable.
def EndsLike (env env' : RunEnv) (inputs : List (String × Value)) (m : Machine) : Prop :=
  ∀ x, m.Halts env inputs x → m.CutsShort env.script x ∨ m.Misreads env inputs ∨
    ∃ y, m.Halts env' inputs y ∧
      (y.verdict = x.verdict ∧ y.warnings = x.warnings ∨ m.CutsShort env'.script y)

variable {env : RunEnv} {inputs : List (String × Value)} {m m₁ m' : Machine} {x y : Report}
  {outcome : Outcome} {k fuel : Nat}

theorem Clean.reset_warnings (h : m.Clean) : m.reset.warnings = #[] := by
  obtain ⟨v, hs, hw⟩ := h
  rw [hs.reset_warnings, hs.warnings, hw]

-- A run that has ended stays as it is, from its inputs on.
theorem firstSteps_ended (hle : k ≤ fuel) (h : m.firstSteps env inputs k = (outcome, m'))
    (hended : outcome ≠ .outOfFuel) : m.firstSteps env inputs fuel = (outcome, m') := by
  unfold firstSteps execute at h ⊢
  split
  · rename_i hbind
    rw [hbind] at h
    exact runSteps_ended hle h hended
  · rename_i hbind
    rw [hbind] at h
    exact h

theorem halts_of_firstSteps (h : m.firstSteps env inputs k = (outcome, m'))
    (hended : outcome ≠ .outOfFuel) : m.Halts env inputs (reportOf outcome m') :=
  ⟨hended, k, by rw [report_eq, h]⟩

theorem Halts.unique (h : m.Halts env inputs x) (h' : m.Halts env inputs y) : x = y := by
  obtain ⟨hx, k, rfl⟩ := h
  obtain ⟨hy, n, rfl⟩ := h'
  rw [report_eq] at hx hy
  rw [report_eq, report_eq]
  have h₁ := firstSteps_ended (Nat.le_max_left k n) (Prod.eta _).symm hx
  have h₂ := firstSteps_ended (Nat.le_max_right k n) (Prod.eta _).symm hy
  rw [Prod.eta] at h₁ h₂
  rw [← h₁, h₂]

theorem GaveUp.exhausted (h : GaveUp outcome m') : (reportOf outcome m').Exhausted := by
  obtain ⟨f, rfl, hf, hclean⟩ := h
  exact ⟨f, rfl, hf.exhausts, hclean.reset_warnings⟩

theorem GaveUp.ended (h : GaveUp outcome m') : outcome ≠ .outOfFuel := by
  obtain ⟨f, rfl, -⟩ := h
  simp

end Machine

open Machine

-- The way a machine carries a script out: no value is compared with its recorded type, and every loop
-- is given so many rounds.
def Dialect.machine (r : Registry) (symbols : SymbolTable) (level rounds : Nat) : Dialect where
  registry := r
  symbols := symbols
  strict := false
  folds := true
  near := true
  counts := decide (level ≥ 1)
  rounds := rounds

theorem Dialect.regular_of_special {D : Dialect} (hfolds : D.folds = true) (hnear : D.near = true)
    (e : Expr) : D.Regular e := by
  cases e <;> simp [Regular, hfolds, hnear]

-- What comes of a script that means something: how a run ends, its result, and what is outside then.
def verdict? : EStateM.Result Stop Store Unit → Option (Outcome × Value × Outside)
  | .ok _ s | .error .exit s => some (.finished, .null, s.outside)
  | .error (.ret x) s => some (.finished, x, s.outside)
  | .error (.fault f) s => some (.failed f, .null, s.outside)
  | _ => none

namespace CompiledScript

variable {r : Registry} {options : CompileOptions} {source : String} {s : CompiledScript}
  {parsed checked : Script} {a : Analysis} {L : Layout} {supplied : List (String × Value)}
  {m : Machine} {D : Dialect}

theorem Stages.check (h : Stages r options source s parsed checked a L) :
    parsed.check r options.imports = .ok (checked, a) := by
  obtain ⟨parsed', hparse, hcheck⟩ := except_bind_ok.mp h.analyze
  cases hparse.symm.trans h.parse
  exact hcheck

theorem Stages.proper (hr : r.Built) (h : Stages r options source s parsed checked a L) :
    a.Proper := by
  have hplain := Script.plain_of_parse h.parse
  obtain ⟨⟨Γ, htyped⟩, hinputs, hnodup⟩ := Script.typed_of_check hr.numbered h.check
  refine ⟨(Script.sound_of_check hr.numbered hplain h.check).2, hinputs ▸ hnodup, ?_⟩
  intro v hv href
  exact (htyped.holds (hinputs ▸ hv) href).mayHoldRef

-- A dialect for the code of a source text.
structure Stages.Fits (r : Registry) (options : CompileOptions) (checked : Script) (a : Analysis)
    (D : Dialect) : Prop where
  registry : D.registry = r
  symbols : D.symbols = a.symbols
  counts : D.counts = decide (options.level ≥ 1)
  regular : Stmt.EveryOne D.Regular checked

theorem Stages.fits_machine (r : Registry) (options : CompileOptions) (checked : Script)
    (a : Analysis) (rounds : Nat) :
    Fits r options checked a (.machine r a.symbols options.level rounds) :=
  ⟨rfl, rfl, rfl, Stmt.everyOne_of_always (Dialect.regular_of_special rfl rfl) checked⟩

-- A run starts with its inputs in their places, unless there is no room for one or it is refused.
theorem Stages.opens (hr : r.Built) (h : Stages r options source s parsed checked a L) (hm : m.Idle)
    (supplied : List (String × Value)) :
    ((∀ v ∈ a.inputs, v.accepted r supplied = true) ∧
      ∃ m₁, (∀ k, m.firstSteps ⟨r, s⟩ supplied k = runSteps ⟨r, s⟩ k m₁) ∧
        m₁.Shows [] [] (View.startWith m s supplied)) ∨
    ∃ f m', (∀ k, m.firstSteps ⟨r, s⟩ supplied k = (.failed f, m')) ∧ m'.Clean ∧
      (m'.Exhausted f ∨ f.code = .inVarTypeError ∧ ∃ v ∈ a.inputs, v.accepted r supplied = false) := by
  obtain ⟨htable, hnodup⟩ := h.carries.table (h.proper hr).distinct
  have hsize := h.carries.size
  rw [h.script] at htable hnodup hsize
  have hslots : ∀ entry ∈ s.inputs,
      (View.start m s.localsCount).locals[entry.2.slot]? = some .null := by
    rintro ⟨name, slot⟩ hmem
    obtain ⟨v, -, -, -, hplace⟩ := (htable name slot).mp hmem
    refine View.getElem?_start ?_
    rw [hsize]
    exact (List.getElem?_eq_some_iff.mp hplace).choose
  have hbind := (hm.prepare s.localsCount).bindInputs r supplied s.inputs hnodup hslots
  simp only [firstSteps, execute]
  rcases hbind with ⟨m₁, hok, hall, hs⟩ | ⟨f, m', v', herror, hs, -, hw, hf⟩
  · refine .inl ⟨fun v hv => ?_, m₁, fun k => by rw [hok], hs⟩
    obtain ⟨slot, hmem, hty⟩ := h.carries.entered (h.proper hr).distinct hv
    rw [h.script] at hmem
    exact (InputVar.accepted_eq hty).trans (hall _ hmem)
  · refine .inr ⟨f, m', fun k => by rw [herror], ⟨v', hs, hw⟩, hf.imp_right ?_⟩
    rintro ⟨hcode, ⟨name, slot⟩, hmem, hrefused⟩
    obtain ⟨v, hv, rfl, hty, -⟩ := (htable name slot).mp hmem
    exact ⟨hcode, v, hv, (InputVar.accepted_eq hty.symm).trans hrefused⟩

-- A run starts with its inputs in their places, if there is room for them.
theorem Stages.starts (hr : r.Built) (h : Stages r options source s parsed checked a L)
    (hm : m.Idle) (haccepted : ∀ v ∈ a.inputs, v.accepted r supplied = true) :
    (∃ m₁, (∀ k, m.firstSteps ⟨r, s⟩ supplied k = runSteps ⟨r, s⟩ k m₁) ∧
      m₁.Shows [] [] (View.startWith m s supplied)) ∨
    ∃ outcome m', (∀ k, m.firstSteps ⟨r, s⟩ supplied k = (outcome, m')) ∧ GaveUp outcome m' := by
  rcases h.opens hr hm supplied with ⟨-, hstart⟩ |
    ⟨f, m', hsteps, hclean, hexhausted | ⟨-, v, hv, hrefused⟩⟩
  · exact .inl hstart
  · exact .inr ⟨.failed f, m', hsteps, f, rfl, hexhausted, hclean⟩
  · rw [haccepted v hv] at hrefused
    cases hrefused

-- A run is only given up in a machine that is too small.
theorem Stages.cutsShort (h : Stages r options source s parsed checked a L) {k : Nat}
    {outcome : Outcome} {m' : Machine} (hrun : m.firstSteps ⟨r, s⟩ supplied k = (outcome, m'))
    (hgave : GaveUp outcome m') : m.CutsShort s (reportOf outcome m') := by
  refine ⟨hgave.exhausted, fun hhouses => ?_⟩
  have hbounded := firstSteps_bounded h.safe m supplied k
  have hsize := sameSize_firstSteps ⟨r, s⟩ supplied k m
  obtain ⟨f, rfl, hexhausted, -⟩ := hgave
  rw [hrun] at hbounded hsize
  obtain ⟨hheight, -, -, hoverflow⟩ := hbounded
  have hlocals : m'.locals.size = max m.locals.size s.localsCount := by
    simpa [prepare] using hsize.locals
  have hreferences : m'.refs.capacity = m.refs.capacity := hsize.references
  have hstack := hhouses.stack
  have hroom := hhouses.references
  simp only [bounds] at hheight hoverflow
  cases f with
  | stackOverflow capacity => exact absurd (hoverflow capacity rfl) (Nat.not_lt.mpr hstack)
  | referencesFull capacity =>
      simp only [Machine.Exhausted] at hexhausted
      omega
  | _ => exact hexhausted

-- The code ends as the script means.
theorem Stages.ends (hr : r.Built) (h : Stages r options source s parsed checked a L)
    (hD : Stages.Fits r options checked a D)
    (haccepted : ∀ v ∈ a.inputs, v.accepted r supplied = true) :
    Ends ⟨r, s⟩ D.strict D.rounds (View.startWith m s supplied)
      (D.execAll false checked (Store.start a.inputs supplied m.world)) := by
  have hsuits : L.Suits ⟨r, s⟩ D :=
    { script := h.script.symm
      machine := h.registry.symm
      registry := hD.registry.trans h.registry.symm
      symbols := hD.symbols.trans h.symbols.symm
      counts := by rw [hD.counts, h.level]
      nodup := h.carries.nodup }
  have hready := h.carries.ready (h.proper hr) h.symbols haccepted m
  rw [h.script] at hready
  exact script_ends hsuits h.sound.plain hD.regular h.carries hready rfl

-- The first part of a checked script stops as a reading of its recorded types says, if they are borne
-- out.
theorem Stages.upholds {R : Value → Ty → Prop} {E : Stop → Prop} {le : Ty → Ty → Bool}
    {first rest : Script} (hr : r.Built) (h : Stages r options source s parsed (first ++ rest) a L)
    (hD : Stages.Fits r options (first ++ rest) a D) (hreading : D.Reading R E)
    (hcontrol : Dialect.Control R E) (hcompares : Dialect.Compares R le) {K : Facts}
    (hborne : Stmt.AllBorneOut le r K first) (hlasts : Stmt.AllLoopFree first ∨ E .outOfFuel)
    {σ : Store} (hK : Dialect.Hold R K σ.vars) :
    Upholds (fun e _ => E e ∨ e.Jumps) (fun _ σ' => Dialect.Hold R (Stmt.allAfter le r K first) σ'.vars)
      (D.execAll false first σ) := by
  obtain ⟨⟨Γ, htyped⟩, -, -⟩ := Script.typed_of_check hr.numbered h.check
  obtain ⟨Γ₁, hfirst⟩ := htyped.of_append
  have hsettled := Stmt.AllSettled.of_append (Script.settled_of_check h.check).1
  have hlinked := Stmt.AllLinked.of_append h.sound.linked
  rw [← hD.registry] at hfirst hlinked hborne ⊢
  rw [← hD.symbols] at hfirst
  exact Dialect.script_upholds hreading hcontrol hcompares hfirst hlinked hsettled hborne hlasts hK

-- A checked script is never found to be malformed while it is carried out, and faults for no reason
-- that has to do with its code.
theorem Stages.sane (hr : r.Built) (h : Stages r options source s parsed checked a L)
    (hD : Stages.Fits r options checked a D) (σ : Store) :
    Upholds (fun e _ => e.Sane D.strict) (fun _ _ => True) (D.execAll false checked σ) := by
  rw [← List.append_nil checked] at h hD
  have hborne : Stmt.AllBorneOut (fun _ _ => true) r (Facts.start a.inputs) checked :=
    Stmt.allBorneOut_of_always (fun _ _ => rfl) r _ checked
  refine (h.upholds hr hD D.reading_any (Dialect.control_any _) Dialect.compares_any hborne
    (.inr ⟨trivial, id⟩) fun _ => trivial).imp ?_ fun _ _ _ => trivial
  exact fun e _ hstop => hstop.elim And.left Stop.sane_of_jumps

-- A run of a source text that means something ends as it says, unless the machine is too small, and
-- keeps references counted on the way.
theorem Stages.halts (hr : r.Built) (h : Stages r options source s parsed checked a L)
    (hm : m.Idle) (haccepted : ∀ v ∈ a.inputs, v.accepted r supplied = true)
    (hD : Stages.Fits r options checked a D) {w : Outcome × Value × Outside}
    (hmeans : verdict? (D.execAll false checked (Store.start a.inputs supplied m.world)) = some w) :
    (∃ x, m.Halts ⟨r, s⟩ supplied x ∧ (x.verdict = w ∧ x.warnings = #[] ∨ m.CutsShort s x)) ∧
    ∀ k m', m.firstSteps ⟨r, s⟩ supplied k = (.outOfFuel, m') → m'.Spared ⟨r, s⟩ := by
  rcases h.starts hr hm haccepted with ⟨m₁, hsteps, hs⟩ | ⟨outcome, m', hsteps, hgave⟩
  · have hends := h.ends hr hD haccepted (m := m)
    have hsane := h.sane hr hD (Store.start a.inputs supplied m.world)
    have hcompletes : Completes ⟨r, s⟩ m₁ fun outcome m' =>
        (reportOf outcome m').verdict = w ∧ m'.Clean := by
      have hfinish : ∀ {x : Value} {o : Outside}, w = (.finished, x, o) →
          Stops ⟨r, s⟩ (View.startWith m s supplied) x o → Completes ⟨r, s⟩ m₁ fun outcome m' =>
            (reportOf outcome m').verdict = w ∧ m'.Clean := by
        rintro x o rfl hstops
        refine (hstops.completes hs rfl).imp ?_
        rintro _ m' ⟨rfl, hreturned, hout, hclean⟩
        exact ⟨by simp only [Report.verdict, reportOf, world_reset fun _ _ => rfl, hreturned, hout],
          hclean⟩
      cases hresult : D.execAll false checked (Store.start a.inputs supplied m.world) with
      | ok _ σ =>
          rw [hresult] at hends hmeans
          exact hfinish (Option.some.inj hmeans).symm hends
      | error e σ =>
          rw [hresult] at hends hmeans hsane
          cases e with
          | exit => exact hfinish (Option.some.inj hmeans).symm hends
          | ret x => exact hfinish (Option.some.inj hmeans).symm hends
          | fault f =>
              cases hmeans
              have hf : f ≠ .stackUnderflow := by
                rintro rfl
                cases (show Fault.usual false .stackUnderflow = true from hsane)
              refine (Fails.completes hends hs rfl hf).imp ?_
              rintro _ m' ⟨rfl, hout, hclean⟩
              exact ⟨by simp only [Report.verdict, reportOf, world_reset fun _ _ => rfl, hout],
                hclean⟩
          | _ => cases hmeans
    obtain ⟨n, outcome, m', hrun, hended, hpost⟩ := hcompletes.ends
    refine ⟨⟨reportOf outcome m', halts_of_firstSteps ((hsteps n).trans hrun) hended, ?_⟩, ?_⟩
    · exact hpost.imp (And.imp_right Clean.reset_warnings) (h.cutsShort ((hsteps n).trans hrun))
    · exact fun k m' hk => hcompletes.spared k m' ((hsteps k).symm.trans hk)
  · refine ⟨⟨_, halts_of_firstSteps (hsteps 0) hgave.ended, .inr (h.cutsShort (hsteps 0) hgave)⟩, ?_⟩
    exact fun k m' hk => absurd (Prod.mk.inj ((hsteps k).symm.trans hk)).1 hgave.ended

-- Where a loop takes more rounds than it is given, the run takes at least as many steps, and keeps
-- references counted so far.
theorem Stages.goesOn (hr : r.Built) (h : Stages r options source s parsed checked a L)
    (hm : m.Idle) (haccepted : ∀ v ∈ a.inputs, v.accepted r supplied = true)
    (hD : Stages.Fits r options checked a D) {σ : Store}
    (hmeans : D.execAll false checked (Store.start a.inputs supplied m.world) = .error .outOfFuel σ)
    {k : Nat} (hk : k < D.rounds) {outcome : Outcome} {m' : Machine}
    (hrun : m.firstSteps ⟨r, s⟩ supplied k = (outcome, m')) :
    (outcome = .outOfFuel ∧ m'.Spared ⟨r, s⟩) ∨ GaveUp outcome m' := by
  rcases h.starts hr hm haccepted with ⟨m₁, hsteps, hs⟩ | ⟨outcome', m₁, hsteps, hgave⟩
  · have hends := h.ends hr hD haccepted (m := m)
    rw [hmeans] at hends
    exact Lasts.runs hends hs rfl hk ((hsteps k).symm.trans hrun)
  · cases (hsteps k).symm.trans hrun
    exact .inr hgave

theorem Stages.lasts (hr : r.Built) (h : Stages r options source s parsed checked a L)
    (hm : m.Idle) (haccepted : ∀ v ∈ a.inputs, v.accepted r supplied = true)
    (hD : Stages.Fits r options checked a D) {σ : Store}
    (hmeans : D.execAll false checked (Store.start a.inputs supplied m.world) = .error .outOfFuel σ)
    {k : Nat} (hk : k < D.rounds) :
    (m.report ⟨r, s⟩ k supplied).outcome = .outOfFuel ∨
      m.CutsShort s (m.report ⟨r, s⟩ k supplied) := by
  have hrun := (Prod.eta (m.firstSteps ⟨r, s⟩ supplied k)).symm
  rw [report_eq]
  exact (h.goesOn hr hm haccepted hD hmeans hk hrun).imp And.left (h.cutsShort hrun)

-- Where a text or an object turns up unexpectedly, the run comes to an instruction that finds it.
theorem Stages.strays (hr : r.Built) (h : Stages r options source s parsed checked a L)
    (hm : m.Idle) (haccepted : ∀ v ∈ a.inputs, v.accepted r supplied = true)
    (hD : Stages.Fits r options checked a D) {σ : Store}
    (hmeans : D.execAll false checked (Store.start a.inputs supplied m.world) = .error .stray σ) :
    m.Misreads ⟨r, s⟩ supplied ∨ ∃ x, m.Halts ⟨r, s⟩ supplied x ∧ m.CutsShort s x := by
  rcases h.starts hr hm haccepted with ⟨m₁, hsteps, hs⟩ | ⟨outcome, m', hsteps, hgave⟩
  · have hends := h.ends hr hD haccepted (m := m)
    rw [hmeans] at hends
    obtain ⟨k, outcome, m', hrun, ⟨rfl, hnot⟩ | hgave⟩ := Strays.runs hends hs rfl
    · exact .inl ⟨k, m', (hsteps k).trans hrun, hnot⟩
    · exact .inr ⟨_, halts_of_firstSteps ((hsteps k).trans hrun) hgave.ended,
        h.cutsShort ((hsteps k).trans hrun) hgave⟩
  · exact .inr ⟨_, halts_of_firstSteps (hsteps 0) hgave.ended, h.cutsShort (hsteps 0) hgave⟩

-- Where types are not looked at, nothing else can come of a script.
theorem Stages.means (hr : r.Built) (h : Stages r options source s parsed checked a L)
    (haccepted : ∀ v ∈ a.inputs, v.accepted r supplied = true)
    (hD : Stages.Fits r options checked a D) (hstrict : D.strict = false) (m : Machine) :
    (∃ w, verdict? (D.execAll false checked (Store.start a.inputs supplied m.world)) = some w) ∨
    (∃ σ, D.execAll false checked (Store.start a.inputs supplied m.world) = .error .outOfFuel σ) ∨
    ∃ σ, D.execAll false checked (Store.start a.inputs supplied m.world) = .error .stray σ := by
  have hends := h.ends hr hD haccepted (m := m)
  have hsane := h.sane hr hD (Store.start a.inputs supplied m.world)
  cases hresult : D.execAll false checked (Store.start a.inputs supplied m.world) with
  | ok _ σ => exact .inl ⟨_, rfl⟩
  | error e σ =>
      rw [hresult] at hsane
      cases e with
      | outOfFuel => exact .inr (.inl ⟨σ, rfl⟩)
      | stray => exact .inr (.inr ⟨σ, rfl⟩)
      | mistyped inLoop => cases hstrict.symm.trans hsane
      | malformed => exact hsane.elim
      | leave =>
          rw [hresult] at hends
          exact hends.elim
      | again =>
          rw [hresult] at hends
          exact hends.elim
      | _ => exact .inl ⟨_, rfl⟩

-- Two source texts that mean the same from the start have runs that end in the same way.
theorem Stages.endsLike {options' : CompileOptions} {source' : String} {s' : CompiledScript}
    {parsed' checked' : Script} {a' : Analysis} {L' : Layout} (hr : r.Built)
    (h : Stages r options source s parsed checked a L)
    (h' : Stages r options' source' s' parsed' checked' a' L') (hm : m.Idle)
    (haccepted : ∀ v ∈ a.inputs, v.accepted r supplied = true)
    (haccepted' : ∀ v ∈ a'.inputs, v.accepted r supplied = true)
    (hsame : ∀ n, (Dialect.machine r a.symbols options.level n).execAll false checked
        (Store.start a.inputs supplied m.world) =
      (Dialect.machine r a'.symbols options'.level n).execAll false checked'
        (Store.start a'.inputs supplied m.world)) :
    m.EndsLike ⟨r, s⟩ ⟨r, s'⟩ supplied := by
  intro x hx
  obtain ⟨hended, k, hreport⟩ := id hx
  have hD := fits_machine r options checked a (k + 1)
  rcases h.means hr haccepted hD rfl m with ⟨w, hw⟩ | ⟨σ, hσ⟩ | ⟨σ, hσ⟩
  · obtain ⟨⟨x', hx', hverdict⟩, -⟩ := h.halts hr hm haccepted hD hw
    cases hx'.unique hx
    refine hverdict.symm.imp id fun ⟨hverdict, hwarnings⟩ => .inr ?_
    have hw' := hsame (k + 1) ▸ hw
    obtain ⟨⟨y, hy, hpost⟩, -⟩ :=
      h'.halts hr hm haccepted' (fits_machine r options' checked' a' (k + 1)) hw'
    refine ⟨y, hy, hpost.imp_left fun hend => ?_⟩
    exact ⟨hend.1.trans hverdict.symm, hend.2.trans hwarnings.symm⟩
  · rcases h.lasts hr hm haccepted hD hσ (Nat.lt_succ_self k) with hout | hgave
    · rw [hreport] at hout
      exact absurd hout hended
    · exact .inl (hreport ▸ hgave)
  · rcases h.strays hr hm haccepted hD hσ with hmisreads | ⟨y, hy, hgave⟩
    · exact .inr (.inl hmisreads)
    · exact .inl (hy.unique hx ▸ hgave)

end CompiledScript

end HostScript
