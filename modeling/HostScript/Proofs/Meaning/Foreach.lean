import HostScript.Proofs.Meaning.Report
import HostScript.Proofs.Semantics.Iteration

namespace HostScript

-- The variables start the same where the inputs have the same names.
theorem Store.start_congr {inputs inputs' : List InputVar}
    (h : inputs'.map (·.name) = inputs.map (·.name)) (supplied : List (String × Value))
    (world : World) : Store.start inputs' supplied world = Store.start inputs supplied world := by
  have hany : ∀ x, inputs'.any (·.name = x) = inputs.any (·.name = x) := fun x => by
    have hnames := congrArg (List.any · (· = x)) h
    simpa only [List.any_map, Function.comp_def] using hnames
  simp only [Store.start, hany]

-- A loop over items, at any place in a source text, and what the text compiles to.
structure Foreach (r : Registry) (options : CompileOptions) where
  text : String
  script : CompiledScript
  checked : Script
  analysis : Analysis
  offset : Nat
  item : String
  source : Expr
  body : List Stmt
  how : Iteration
  compiles : CompiledScript.compile r options text = .ok script
  checks : Script.analyze r options.imports text = .ok (checked, analysis)
  inside : .eachLoop offset item source body how ∈ Stmt.allWithin checked

namespace Foreach

variable {r : Registry} {options : CompileOptions} (F F' : Foreach r options)

def loop : Stmt :=
  .eachLoop F.offset F.item F.source F.body F.how

def env : RunEnv :=
  ⟨r, F.script⟩

-- What the text means, with so many rounds for every loop.
def dialect (rounds : Nat) : Dialect :=
  .machine r F.analysis.symbols options.level rounds

-- The sources of two loops are one object of a type.
def SameSource (ty rounds : Nat) (σ : Store) : Prop :=
  ∃ o out, r.typeOf (.object o) = .object ty ∧
    (F.dialect rounds).eval true σ.vars F.source σ.outside = .ok (.object o) out ∧
    (F'.dialect rounds).eval true σ.vars F'.source σ.outside = .ok (.object o) out

-- Two loops with bodies that do the same with an item of a type, wherever `I` holds of the variables.
def SameRounds (returns : Ty) (I : (String → Value) → Prop) (rounds : Nat) : Prop :=
  F'.item = F.item ∧
    Dialect.Agree r (F.dialect rounds) (F'.dialect rounds) I F.item returns F.body F'.body

-- Two texts that are one such loop each between other statements. Those in front of the loops do the
-- same and lead to one source; those behind them do the same wherever the first loop ends.
structure Alike (ty : Nat) (returns : Ty) (I : (String → Value) → Prop) (start : Store)
    (before before' after after' : List Stmt) : Prop where
  checked : F.checked = before ++ F.loop :: after
  checked' : F'.checked = before' ++ F'.loop :: after'
  rounds : ∀ n, F.SameRounds F' returns I n
  front : ∀ n, (F.dialect n).execAll false before start = (F'.dialect n).execAll false before' start
  source : ∀ n σ, (F.dialect n).execAll false before start = .ok () σ →
    I σ.vars ∧ F.SameSource F' ty n σ
  back : ∀ n σ, (F.dialect n).execAll false (before ++ [F.loop]) start = .ok () σ →
    (F.dialect n).execAll false after σ = (F'.dialect n).execAll false after' σ

variable {F F'} {ty : Nat} {p : PropertyDef} {d : MethodDef}

theorem exists_stages (hr : r.Built) (F : Foreach r options) :
    ∃ parsed L, CompiledScript.Stages r options F.text F.script parsed F.checked F.analysis L := by
  obtain ⟨parsed, checked, analysis, L, hstages⟩ := CompiledScript.exists_stages hr F.compiles
  cases hstages.analyze.symm.trans F.checks
  exact ⟨parsed, L, hstages⟩

theorem typed (hr : r.Built) (F : Foreach r options) :
    ∃ itemTy, F.how.Walks r itemTy F.source.ty ∧
      (itemTy.mayBeRef = true → F.analysis.symbols.Holds F.item) := by
  obtain ⟨parsed, -, hcheck⟩ := except_bind_ok.mp F.checks
  obtain ⟨⟨Γ, htyped⟩, -⟩ := Script.typed_of_check hr.numbered hcheck
  exact htyped.eachLoop F.inside

-- Where the type of the source is known, the registered members are used.
theorem how_known (hr : r.Built) (h : r.Enumerates ty p d) (hty : F.source.ty = .object ty) :
    F.how = .members p.id d.id ∧
      (d.returns.mayBeRef = true → F.analysis.symbols.Holds F.item) := by
  obtain ⟨itemTy, hwalks, hholds⟩ := F.typed hr
  rw [hty] at hwalks
  obtain ⟨it, hit, hhow, hreturns⟩ := hwalks
  cases hit.symm.trans h.iteration
  exact ⟨hhow, hreturns d (h.method hr).1 ▸ hholds⟩

theorem how_unknown (hr : r.Built) (hty : F.source.ty = .dynamic) :
    F.how = .dynamic ∧ F.analysis.symbols.Holds F.item := by
  obtain ⟨itemTy, hwalks, hholds⟩ := F.typed hr
  rw [hty] at hwalks
  obtain ⟨hhow, rfl⟩ := hwalks
  exact ⟨hhow, hholds rfl⟩

section

variable (hr : r.Built) (h : r.Enumerates ty p d) (hty : F.source.ty = .object ty)
  (hty' : F'.source.ty = .dynamic)

include hr h hty hty'

-- The items of an object are the same, and come in the same order.
theorem items_eq {o : ObjectRef} (ho : r.typeOf (.object o) = .object ty) (n : Nat) :
    (F.dialect n).itemCount F.how (.object o) = (F'.dialect n).itemCount F'.how (.object o) ∧
    ∀ k ≤ 2 ^ 53, (F.dialect n).itemAt F.how (.object o) (Number.whole k) =
      (F'.dialect n).itemAt F'.how (.object o) (Number.whole k) := by
  rw [(how_known hr h hty).1, (how_unknown hr hty').1]
  exact ⟨Dialect.itemCount_eq hr h rfl rfl ho, fun k hk =>
    Dialect.itemAt_eq hr h rfl rfl ho (Number.isWhole_whole hk)⟩

-- The loops do the same, wherever they stand.
theorem loop_eq {I : (String → Value) → Prop} {n : Nat} (hrounds : F.SameRounds F' d.returns I n)
    {σ : Store} (hσ : I σ.vars) (hsource : F.SameSource F' ty n σ) (inLoop inLoop' : Bool) :
    (F.dialect n).exec inLoop F.loop σ = (F'.dialect n).exec inLoop' F'.loop σ := by
  obtain ⟨o, out, ho, heval, heval'⟩ := hsource
  obtain ⟨hitem, hbodies⟩ := hrounds
  obtain ⟨hhow, hholds⟩ := how_known hr h hty
  obtain ⟨hhow', hholds'⟩ := how_unknown hr hty'
  have hregistry : (F'.dialect n).registry = r := rfl
  have hlimit : (F.dialect n).rounds = (F'.dialect n).rounds := rfl
  rw [hitem] at hholds'
  rw [loop, loop, hhow, hhow', hitem]
  exact Dialect.eachLoop_eq hr h rfl hregistry hlimit hholds hholds' hbodies hσ ho heval heval'

theorem means_eq {I : (String → Value) → Prop} {start : Store}
    {before before' after after' : List Stmt}
    (halike : F.Alike F' ty d.returns I start before before' after after') (n : Nat) :
    (F.dialect n).execAll false F.checked start = (F'.dialect n).execAll false F'.checked start := by
  rw [halike.checked, halike.checked', Dialect.execAll_append, Dialect.execAll_append]
  have hfront := halike.front n
  have hsource := halike.source n
  have hback := halike.back n
  simp only [Dialect.execAll_append, Dialect.execAll, bind, EStateM.bind] at hback ⊢
  rw [← hfront]
  cases hresult : (F.dialect n).execAll false before start with
  | error e σ => rfl
  | ok _ σ =>
      obtain ⟨hσ, hsame⟩ := hsource σ hresult
      rw [hresult] at hback
      have hloop := loop_eq hr h hty hty' (halike.rounds n) hσ hsame false false
      dsimp only at hback ⊢
      rw [← hloop]
      cases hend : (F.dialect n).exec false F.loop σ with
      | error e σ₁ => rfl
      | ok _ σ₁ =>
          rw [hend] at hback
          exact hback σ₁ rfl

end

-- Whether the type of a source is known makes no difference to a loop over the items of an object, if
-- its type is walked by the members that are looked up otherwise: it has the same items in the same
-- order, and does the same wherever it stands, as its body does. Two texts that are one such loop
-- each between other statements end in the same way.
theorem ends_alike (hr : r.Built) (h : r.Enumerates ty p d) (hty : F.source.ty = .object ty)
    (hty' : F'.source.ty = .dynamic) :
    (∀ o n, r.typeOf (.object o) = .object ty →
      (F.dialect n).itemCount F.how (.object o) = (F'.dialect n).itemCount F'.how (.object o) ∧
      ∀ k ≤ 2 ^ 53, (F.dialect n).itemAt F.how (.object o) (Number.whole k) =
        (F'.dialect n).itemAt F'.how (.object o) (Number.whole k)) ∧
    (∀ I n σ, F.SameRounds F' d.returns I n → I σ.vars → F.SameSource F' ty n σ →
      ∀ inLoop inLoop', (F.dialect n).exec inLoop F.loop σ = (F'.dialect n).exec inLoop' F'.loop σ) ∧
    ∀ (m : Machine) (supplied : List (String × Value)) I before before' after after', m.Idle →
      (∀ v ∈ F.analysis.inputs, v.accepted r supplied = true) →
      (∀ v ∈ F'.analysis.inputs, v.accepted r supplied = true) →
      F'.analysis.inputs.map (·.name) = F.analysis.inputs.map (·.name) →
      F.Alike F' ty d.returns I (Store.start F.analysis.inputs supplied m.world)
        before before' after after' →
      m.EndsLike F.env F'.env supplied ∧ m.EndsLike F'.env F.env supplied := by
  refine ⟨fun o n ho => items_eq hr h hty hty' ho n,
    fun I n σ hrounds hσ hsource => loop_eq hr h hty hty' hrounds hσ hsource, ?_⟩
  intro m supplied I before before' after after' hm haccepted haccepted' hnames halike
  obtain ⟨_, _, hstages⟩ := F.exists_stages hr
  obtain ⟨_, _, hstages'⟩ := F'.exists_stages hr
  have hsame : ∀ n, (F.dialect n).execAll false F.checked
        (Store.start F.analysis.inputs supplied m.world) =
      (F'.dialect n).execAll false F'.checked
        (Store.start F'.analysis.inputs supplied m.world) := fun n => by
    rw [Store.start_congr hnames]
    exact means_eq hr h hty hty' halike n
  exact ⟨hstages.endsLike hr hstages' hm haccepted haccepted' hsame,
    hstages'.endsLike hr hstages hm haccepted' haccepted fun n => (hsame n).symm⟩

-- A host with ranges and their parts. It takes anything that it is told, and weighs parts.
def rangesBy (count item : String) (returns : Ty) (part : Value → Value) : Registry :=
  let r := (Registry.addType .empty (.record 0) "app" "range").2
  let r := (r.addType (.record 1) "app" "part").2
  let r := (r.addMethod "app" "tell" none [.dynamic] .void fun _ _ _ => pure .null).2
  let r := (r.addMethod "app" "weigh" (some 1) [.long] .void fun _ _ _ => pure .null).2
  let r := (r.addProperty "app" count (some 0) .long (some fun _ => pure (.number 2)) none).2
  let r := (r.addMethod "app" item (some 0) [.long] returns
    fun _ _ args => pure (part (args.headD .null))).2
  match r.addIteration 0 count item with
  | .ok r => r
  | .error _ => .empty

theorem rangesBy_built (count item : String) (returns : Ty) (part : Value → Value) :
    (rangesBy count item returns part).Built := by
  unfold rangesBy
  dsimp only
  split
  · rename_i hadd
    refine .iteration _ _ _ ?_ hadd
    refine .method _ _ _ _ _ _ (.property _ _ _ _ _ _ ?_ (by decide)) ?_
    · exact .method _ _ _ _ _ _ (.method _ _ _ _ _ _ (.type _ _ _ (.type _ _ _ .empty))
        (by decide)) (by decide)
    · simp [Registry.addMethod, Registry.addProperty, Registry.addType, Registry.empty,
        Registry.room]
  · exact .empty

-- The type of the range is known in the first text and not in the second one.
def byType (body : String) : String :=
  "in <range> [d]\nin [v]\nforeach [i] in [d]\n" ++ body ++ "\nend"

def byName (body : String) : String :=
  "in [d]\nin [v]\nforeach [i] in [d]\n" ++ body ++ "\nend"

def range : ObjectRef :=
  ⟨.record 0, 0, "range"⟩

def supplied : List (String × Value) :=
  [("d", .object range), ("v", .text "x")]

-- The loop of a text that takes two inputs and does nothing else.
def ofText? (r : Registry) (text : String) : Option (Foreach r { imports := ["app"] }) :=
  match hs : CompiledScript.compile r { imports := ["app"] } text,
      hc : Script.analyze r ["app"] text with
  | .ok s, .ok ([.input _ _ _ _, .input _ _ _ _, .eachLoop offset item source body how], a) =>
    some ⟨text, s, _, a, offset, item, source, body, how, hs, hc, by simp [Stmt.allWithin, Stmt.within]⟩
  | _, _ => none

theorem ofText?_spec {text : String} {F : Foreach r { imports := ["app"] }}
    (h : ofText? r text = some F) :
    F.text = text ∧ ∃ before, F.checked = before ++ [F.loop] ∧
      ∀ D : Dialect, D.execAll false before = pure () := by
  unfold ofText? at h
  split at h
  · cases h
    refine ⟨rfl, [_, _], rfl, fun D => ?_⟩
    simp only [Dialect.execAll, Dialect.exec, pure_bind]
  · cases h

theorem exists_ofText {text : String} {P : Foreach r { imports := ["app"] } → Bool}
    (h : (ofText? r text).any P = true) : ∃ F, ofText? r text = some F ∧ P F = true :=
  (Option.any_eq_true _ _).mp h

-- What a run says that has ended: nothing, or why it failed.
def said? : Outcome → Option (Option String)
  | .finished => some none
  | .failed f => some (some f.message)
  | .outOfFuel => none

-- How the run of a text ends in a new machine.
def Says (F : Foreach r options) (message : Option String) : Prop :=
  ∃ x, (Machine.new {} {}).Halts F.env supplied x ∧ said? x.outcome = some message

theorem says_of_report {F : Foreach r options} {message : Option String} {fuel : Nat}
    (h : said? ((Machine.new {} {}).report F.env fuel supplied).outcome = some message) :
    F.Says message := by
  refine ⟨_, ⟨fun hfuel => ?_, fuel, rfl⟩, h⟩
  rw [hfuel] at h
  cases h

-- Two texts with one body, of which only the first one knows what it walks.
def Apart (r : Registry) (body : String) (message message' : Option String) : Prop :=
  ∃ F F' : Foreach r { imports := ["app"] }, F.text = byType body ∧ F'.text = byName body ∧
    F.source.ty = .object 0 ∧ F'.source.ty = .dynamic ∧ F.Says message ∧ F'.Says message'

theorem apart_of_reports {body : String} {message message' : Option String}
    (h : (ofText? r (byType body)).any (fun F => F.source.ty = .object 0 &&
      said? ((Machine.new {} {}).report F.env 100 supplied).outcome = some message) = true)
    (h' : (ofText? r (byName body)).any (fun F => F.source.ty = .dynamic &&
      said? ((Machine.new {} {}).report F.env 100 supplied).outcome = some message') = true) :
    Apart r body message message' := by
  obtain ⟨F, hF, hends⟩ := exists_ofText h
  obtain ⟨F', hF', hends'⟩ := exists_ofText h'
  simp only [Bool.and_eq_true, decide_eq_true_eq] at hends hends'
  exact ⟨F, F', (ofText?_spec hF).1, (ofText?_spec hF').1, hends.1, hends'.1,
    says_of_report hends.2, says_of_report hends'.2⟩

-- Ranges that are walked by members of other names have no items where their type is not known. And
-- where it is known what the items are, their members may refuse a value in other words.
theorem ends_apart :
    Apart (rangesBy "size" "at" .long id) "tell [i]" none
      (some "app.range has no readable member 'count'") ∧
    Apart (rangesBy "count" "getitem" (.object 1) fun _ => .object ⟨.record 1, 1, "part"⟩)
      "[i]:weigh [v]" (some "Invalid Type: expected long, found string")
      (some "Invalid Type: argument 1 of 'weigh' expected long, found string") :=
  ⟨apart_of_reports (by decide +kernel) (by decide +kernel),
    apart_of_reports (by decide +kernel) (by decide +kernel)⟩

-- A loop over the first input that tells its items.
def tells (F : Foreach r options) : Bool :=
  F.analysis.inputs.map (·.name) = ["d", "v"] && F.analysis.inputs.all (·.accepted r supplied) &&
    match F.item, F.source, F.body with
    | item, .name _ x, [.call _ (.static _ _ [.name _ y] (.method id))] =>
      item = "i" && x = "d" && y = item && id = 0
    | _, _, _ => false

theorem tells_spec {F : Foreach r options} (h : F.tells = true) :
    F.analysis.inputs.map (·.name) = ["d", "v"] ∧
    (∀ v ∈ F.analysis.inputs, v.accepted r supplied = true) ∧ F.item = "i" ∧
    (∃ m, F.source = .name m "d") ∧
    ∃ o m n m', F.body = [.call o (.static m n [.name m' "i"] (.method 0))] := by
  unfold tells at h
  split at h
  · rename_i item m x o m' n m₂ y id hitem hsource hbody
    simp only [Bool.and_eq_true, decide_eq_true_eq, List.all_eq_true] at h
    obtain ⟨⟨hnames, haccepted⟩, ⟨⟨hi, rfl⟩, hy⟩, rfl⟩ := h
    exact ⟨hnames, haccepted, hi, ⟨_, hsource⟩, _, _, _, _, by rw [hbody, hy, hi]⟩
  · simp at h

-- What telling an item means does not depend on what is known of it.
theorem execAll_tell {D : Dialect} {d : MethodDef} {o : Nat} {m m' : Mark} {n x : String}
    (hstrict : D.strict = false) (hd : D.registry.methods[0]? = some d)
    (hparams : d.params = [.dynamic]) :
    D.execAll true [.call o (.static m n [.name m' x] (.method 0))] = (do
      let _ ← Exec.value fun vars => Eval.ofCalc (Calc.callStatic D.registry d [vars x])
      return) := by
  have htyped : ∀ ty v, D.typed true ty v = pure v := fun ty v => by simp [Dialect.typed, hstrict]
  have hmember : Eval.member D.registry.methods 0 (·.params.length = 1) = pure d := by
    simp [Eval.member, hd, hparams]
  have hpure : Eval.ofCalc (pure () : Calc Unit) = pure () := rfl
  simp [Dialect.execAll, Dialect.exec, Dialect.eval, Dialect.evalAll, htyped, hmember, hparams, hpure,
    Dialect.checkArgs, Dialect.checkArg, Dialect.reach, Dialect.check, Emit.needsGuard]

-- Working something out leaves the variables alone.
theorem vars_of_goesOn {α : Type} {f : (String → Value) → Eval α} {σ σ' : Store} {more : Bool}
    (h : Exec.goesOn (do let _ ← Exec.value f; return) σ = .ok more σ') : σ'.vars = σ.vars := by
  simp only [Exec.goesOn, Exec.value, bind, EStateM.bind] at h
  cases hf : f σ.vars σ.outside with
  | ok a out =>
      rw [hf] at h
      cases h
      rfl
  | error e out =>
      rw [hf] at h
      cases e <;> cases h <;> rfl

theorem sameRounds_of_tells {F F' : Foreach r options} {d : MethodDef} (h : F.tells = true)
    (h' : F'.tells = true) (hd : r.methods[0]? = some d) (hparams : d.params = [.dynamic])
    (returns : Ty) (n : Nat) :
    F.SameRounds F' returns (fun vars => vars "d" = .object range) n := by
  obtain ⟨-, -, hitem, -, _, _, _, _, hbody⟩ := tells_spec h
  obtain ⟨-, -, hitem', -, _, _, _, _, hbody'⟩ := tells_spec h'
  refine ⟨hitem'.trans hitem.symm, fun vars v hI _ => ?_, fun σ _ _ => ?_, fun σ σ' hI _ hgoes => ?_⟩
  · rw [hitem]
    simpa using hI
  · rw [hbody, hbody', execAll_tell rfl hd hparams, execAll_tell rfl hd hparams]
    rfl
  · rw [hbody, execAll_tell rfl hd hparams] at hgoes
    rw [vars_of_goesOn hgoes]
    exact hI

theorem alike_of_tells {F F' : Foreach r { imports := ["app"] }} {text text' : String} {d : MethodDef}
    (hF : ofText? r text = some F) (hF' : ofText? r text' = some F') (h : F.tells = true)
    (h' : F'.tells = true) (hd : r.methods[0]? = some d) (hparams : d.params = [.dynamic])
    (hrange : r.typeOf (.object range) = .object 0) (returns : Ty) (world : World) :
    ∃ before before', F.Alike F' 0 returns (fun vars => vars "d" = .object range)
      (Store.start F.analysis.inputs supplied world) before before' [] [] := by
  obtain ⟨-, before, hchecked, hbefore⟩ := ofText?_spec hF
  obtain ⟨-, before', hchecked', hbefore'⟩ := ofText?_spec hF'
  obtain ⟨hnames, -, -, ⟨m, hsource⟩, -⟩ := tells_spec h
  obtain ⟨-, -, -, ⟨m', hsource'⟩, -⟩ := tells_spec h'
  refine ⟨before, before', hchecked, hchecked', sameRounds_of_tells h h' hd hparams returns,
    fun n => by rw [hbefore, hbefore'], fun n σ hrun => ?_, fun n σ _ => rfl⟩
  rw [hbefore] at hrun
  cases hrun
  have hread : (Store.start F.analysis.inputs supplied world).vars "d" = .object range := by
    have hinput := congrArg (List.any · (· = "d")) hnames
    simp only [List.any_map, Function.comp_def] at hinput
    simp only [Store.start, hinput]
    rfl
  refine ⟨hread, range, (Store.start F.analysis.inputs supplied world).outside, hrange, ?_, ?_⟩
  · rw [hsource]
    simp only [Dialect.eval, hread]
    rfl
  · rw [hsource']
    simp only [Dialect.eval, hread]
    rfl

theorem ends_alike_telling :
    ∃ F F' : Foreach (rangesBy "count" "getitem" .long id) { imports := ["app"] },
      F.text = byType "tell [i]" ∧ F'.text = byName "tell [i]" ∧
      F.source.ty = .object 0 ∧ F'.source.ty = .dynamic ∧
      (∃ p d, (rangesBy "count" "getitem" .long id).Enumerates 0 p d) ∧
      (Machine.new {} {}).EndsLike F.env F'.env supplied ∧
      (Machine.new {} {}).EndsLike F'.env F.env supplied := by
  obtain ⟨F, hF, hspec⟩ := @exists_ofText (rangesBy "count" "getitem" .long id) (byType "tell [i]")
    (fun F => F.tells && F.source.ty = .object 0) (by decide +kernel)
  obtain ⟨F', hF', hspec'⟩ := @exists_ofText (rangesBy "count" "getitem" .long id) (byName "tell [i]")
    (fun F => F.tells && F.source.ty = .dynamic) (by decide +kernel)
  simp only [Bool.and_eq_true, decide_eq_true_eq] at hspec hspec'
  obtain ⟨htells, hty⟩ := hspec
  obtain ⟨htells', hty'⟩ := hspec'
  have h : (rangesBy "count" "getitem" .long id).Enumerates 0 _ _ :=
    ⟨rfl, rfl, rfl, rfl, _, rfl, rfl⟩
  obtain ⟨before, before', halike⟩ := alike_of_tells hF hF' htells htells' rfl rfl
    rfl .long (Machine.new {} {}).world
  obtain ⟨hnames, haccepted, -⟩ := tells_spec htells
  obtain ⟨hnames', haccepted', -⟩ := tells_spec htells'
  refine ⟨F, F', (ofText?_spec hF).1, (ofText?_spec hF').1, hty, hty', ⟨_, _, h⟩, ?_⟩
  exact (ends_alike (rangesBy_built _ _ _ _) h hty hty').2.2 _ supplied _ before before' [] []
    (Machine.idle_new {} {}) haccepted haccepted' (hnames'.trans hnames.symm) halike

end Foreach

end HostScript
