import HostScript.Proofs.Meaning.Report

namespace HostScript

-- What a script means as it is written: operators look at their operands, arguments are checked, and
-- loops count their rounds. Every value has to be of the type that was recorded for it, and no text or
-- object may be put where the code takes for granted that there is none.
def Dialect.written (r : Registry) (symbols : SymbolTable) (rounds : Nat) : Dialect where
  registry := r
  symbols := symbols
  strict := true
  folds := false
  near := false
  counts := false
  rounds := rounds

-- An expression that is translated as it is written: it is no operator on a literal, and all arguments
-- of a call are within reach of their checks.
def Expr.Direct : Expr → Prop
  | .unary _ op operand => Emit.folded? op operand = none
  | .static _ _ args _ | .member _ _ _ args _ | .new _ _ args _ => args.length ≤ 256
  | _ => True

instance : DecidablePred Expr.Direct
  | .unary _ op operand => inferInstanceAs (Decidable (Emit.folded? op operand = none))
  | .static _ _ args _ | .member _ _ _ args _ | .new _ _ args _ =>
    inferInstanceAs (Decidable (args.length ≤ 256))
  | .name _ _ | .literal _ _ | .binary _ _ _ _ | .cast _ _ _ => .isTrue trivial

theorem Dialect.regular_written (r : Registry) (symbols : SymbolTable) (rounds : Nat) :
    (written r symbols rounds).Regular = Expr.Direct := by
  funext e
  cases e <;> simp [Regular, Expr.Direct, written]

open Machine

namespace CompiledScript

variable {r : Registry} {options : CompileOptions} {source : String} {s : CompiledScript}
  {checked : Script} {a : Analysis} {m : Machine}

-- The code of a source text does what the text means, if it is not optimised. A run that has a meaning
-- ends as it says, unless the machine is too small for the script, and keeps references counted on the
-- way. A run whose inputs are refused ends with that.
theorem halts_as_written (hr : r.Built) (hcompile : compile r options source = .ok s)
    (hlevel : options.level = 0) (hanalyze : Script.analyze r options.imports source = .ok (checked, a))
    (hdirect : Stmt.EveryOne Expr.Direct checked) (hm : m.Idle) (supplied : List (String × Value)) :
    (∀ rounds w, (∀ v ∈ a.inputs, v.accepted r supplied = true) →
      verdict? ((Dialect.written r a.symbols rounds).execAll false checked
        (Store.start a.inputs supplied m.world)) = some w →
      (∃ x, m.Halts ⟨r, s⟩ supplied x ∧ (x.verdict = w ∧ x.warnings = #[] ∨ m.CutsShort s x)) ∧
      ∀ k m', m.firstSteps ⟨r, s⟩ supplied k = (.outOfFuel, m') → m'.Spared ⟨r, s⟩) ∧
    ((∃ v ∈ a.inputs, v.accepted r supplied = false) → ∃ x, m.Halts ⟨r, s⟩ supplied x ∧
      ((∃ f, x.outcome = .failed f ∧ f.code = .inVarTypeError) ∨ m.CutsShort s x)) := by
  obtain ⟨parsed, _, _, L, hstages⟩ := exists_stages hr hcompile
  cases hanalyze.symm.trans hstages.analyze
  constructor
  · intro rounds w haccepted hmeans
    have hfits : Stages.Fits r options checked a (.written r a.symbols rounds) :=
      ⟨rfl, rfl, by simp [Dialect.written, hlevel], Dialect.regular_written _ _ _ ▸ hdirect⟩
    exact hstages.halts hr hm haccepted hfits hmeans
  · rintro ⟨v, hv, hrefused⟩
    rcases hstages.opens hr hm supplied with ⟨haccepted, -⟩ | ⟨f, m', hsteps, hclean, hend⟩
    · rw [haccepted v hv] at hrefused
      cases hrefused
    · refine ⟨_, halts_of_firstSteps (hsteps 0) (by simp), ?_⟩
      rcases hend with hexhausted | ⟨hcode, -⟩
      · exact .inr (hstages.cutsShort (hsteps 0) ⟨f, rfl, hexhausted, hclean⟩)
      · exact .inl ⟨f, rfl, hcode⟩

-- The numbers up to an input that are not two, one behind the other.
def skipping : String :=
  "in <long> [n]\nvar [k] = [0]\nvar [text] = [\"\"]\nwhile [true] do\nvar [k]++\n" ++
    "if [k == 2] do\ncontinue\nend\nif [k > n] do\nbreak\nend\nvar [text] = [text + k]\nend\nreturn [text]"

-- The text that a script returns that is translated as it is written, and whose inputs are accepted.
def returned? (source : String) (supplied : List (String × Value)) (rounds : Nat) : Option String :=
  match Script.analyze .empty ["system"] source with
  | .ok (checked, a) =>
    if (∀ v ∈ a.inputs, v.accepted .empty supplied = true) ∧ Stmt.EveryOne Expr.Direct checked then
      match verdict? ((Dialect.written .empty a.symbols rounds).execAll false checked
        (Store.start a.inputs supplied {})) with
      | some (.finished, .text t, _) => some t
      | _ => none
    else none
  | .error _ => none

theorem returned?_spec {supplied : List (String × Value)} {rounds : Nat} {t : String}
    (h : returned? source supplied rounds = some t) : ∃ checked a out,
      Script.analyze .empty ["system"] source = .ok (checked, a) ∧
      (∀ v ∈ a.inputs, v.accepted .empty supplied = true) ∧ Stmt.EveryOne Expr.Direct checked ∧
      verdict? ((Dialect.written .empty a.symbols rounds).execAll false checked
        (Store.start a.inputs supplied {})) = some (.finished, .text t, out) := by
  unfold returned? at h
  split at h
  · rename_i checked a hanalyze
    split at h
    · rename_i hfine
      split at h
      · rename_i t' out hmeans
        cases h
        exact ⟨checked, a, out, hanalyze, hfine.1, hfine.2, hmeans⟩
      · cases h
    · cases h
  · cases h

theorem skipping_halts_as_written : ∃ s x, compile .empty { level := 0 } skipping = .ok s ∧
    (Machine.new {} {}).Halts ⟨.empty, s⟩ [("n", .number 4)] x ∧ x.outcome = .finished ∧
    x.returned = .text "134" := by
  have hreturned : returned? skipping [("n", .number 4)] 9 = some "134" := by decide +kernel
  have hroom : (compile .empty { level := 0 } skipping).toOption.any
      (fun s => s.maxStack ≤ 256 && s.maxStack + max 64 s.localsCount + 2 < 4096) = true := by
    decide +kernel
  cases hcompile : compile .empty { level := 0 } skipping with
  | error d =>
      rw [hcompile] at hroom
      cases hroom
  | ok s =>
      rw [hcompile] at hroom
      simp only [Except.toOption, Option.any_some, Bool.and_eq_true, decide_eq_true_eq] at hroom
      have hhouses : (Machine.new {} {}).Houses s := ⟨hroom.1, by
        simpa [Machine.new, References.ofCapacity] using hroom.2⟩
      obtain ⟨checked, a, out, hanalyze, haccepted, hdirect, hmeans⟩ := returned?_spec hreturned
      obtain ⟨⟨x, hx, hend⟩, -⟩ := (halts_as_written .empty hcompile rfl hanalyze hdirect
        (Machine.idle_new {} {}) [("n", .number 4)]).1 9 _ haccepted hmeans
      obtain ⟨hverdict, -⟩ := hend.resolve_right fun hshort => hshort.2 hhouses
      exact ⟨s, x, rfl, hx, congrArg Prod.fst hverdict, congrArg (·.2.1) hverdict⟩

end CompiledScript

end HostScript
