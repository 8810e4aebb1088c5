import HostScript.Proofs.Script.Blocks
import HostScript.Proofs.Script.Grammar

namespace HostScript

namespace Parser

variable {ts : List Token} {stop fuel : Nat}

mutual

-- The parser reads a statement back: by cases over the statement, as it is written.
theorem stmt_reads : ∀ {stmt : Stmt} {ts : List Token}, stmt.Bare → FitAll stmt.render ts →
    ReadsStmt stmt ts
  | .using offset ns, ts, _, h => by
      obtain ⟨start, _, hname, rfl⟩ := fitAll_fixed.mp h
      obtain ⟨_, _, hnil, rfl⟩ := fitAll_fixed.mp hname
      cases fitAll_nil.mp hnil
      exact readsStmt_cons fun stop fuel o rest _ => ⟨_, rfl, rfl⟩
  | .input offset x none declared, ts, hbare, h => by
      cases hbare
      obtain ⟨start, _, hname, rfl⟩ := fitAll_fixed.mp h
      obtain ⟨_, _, _, _, hnil, rfl⟩ := (fitAll_name []).mp hname
      cases fitAll_nil.mp hnil
      exact readsStmt_cons fun stop fuel o rest _ => ⟨_, rfl, rfl⟩
  | .input offset x (some typeName) declared, ts, hbare, h => by
      cases hbare
      obtain ⟨start, _, hopen, rfl⟩ := fitAll_fixed.mp h
      obtain ⟨_, _, htype, rfl⟩ := fitAll_fixed.mp hopen
      obtain ⟨_, _, hclose, rfl⟩ := fitAll_fixed.mp htype
      obtain ⟨_, _, hname, rfl⟩ := fitAll_fixed.mp hclose
      obtain ⟨_, _, _, _, hnil, rfl⟩ := (fitAll_name []).mp hname
      cases fitAll_nil.mp hnil
      exact readsStmt_cons fun stop fuel o rest _ => ⟨_, rfl, rfl⟩
  | .var v, ts, hbare, h => by
      obtain ⟨start, ts, rfl⟩ := varStmt_first h
      refine readsStmt_cons fun stop fuel o rest hfuel => ?_
      change Yields (varStmt stop fuel >>= fun v => (pure (.var v) : Parser Stmt))
        (⟨"var", .keyword, start⟩ :: ts ++ ⟨"\n", .endLine, o⟩ :: rest) _ _
      exact (varStmt_reads hbare h (by simp only [List.length_cons]; omega)).bind fun v' hv =>
        .pure (by simp [Stmt.unplaced, hv])
  | .cond offset test body others, ts, ⟨htest, hbody, hothers⟩, h => by
      obtain ⟨start, _, hcond, rfl⟩ := fitAll_fixed.mp h
      obtain ⟨_, cs, hblock, hcs, rfl⟩ := fitAll_append.mp hcond
      obtain ⟨ts, _, hts, hline, rfl⟩ := fitAll_append.mp hblock
      obtain ⟨line, bs, hbs, rfl⟩ := fitAll_fixed.mp hline
      refine readsStmt_cons fun stop fuel o rest hfuel => ?_
      simp only [List.length_cons, List.length_append] at hfuel
      simp only [List.cons_append, List.append_assoc]
      change Yields (do
        let test ← header stop fuel
        let body ← block stop ["elseif", "else", "end"] fuel
        let others ← branches stop fuel
        return Stmt.cond start test body others) _ _ _
      refine branch_reads htest hts hbs (block_reads hbody hbs) hcs
        (branches_reads hothers hcs) (by omega) fun test' body' others' htest' hbody' hothers' => ?_
      simp [Stmt.unplaced, htest', hbody', hothers']
  | .whileLoop offset test body, ts, ⟨htest, hbody⟩, h => by
      obtain ⟨start, _, hloop, rfl⟩ := fitAll_fixed.mp h
      obtain ⟨ts, line, bs, c, hts, hbs, rfl⟩ := (fitAll_body _).mp hloop
      refine readsStmt_cons fun stop fuel o rest hfuel => ?_
      simp only [List.length_cons, List.length_append, List.length_nil] at hfuel
      simp only [List.cons_append, List.append_assoc, List.nil_append]
      refine headed_reads (f := .whileLoop start) htest hts hbs (block_reads hbody hbs) (by omega)
        fun test' body' htest' hbody' => ?_
      simp [Stmt.unplaced, htest', hbody']
  | .forLoop offset init test step body, ts, ⟨hinit, htest, hstep, hbody⟩, h => by
      obtain ⟨start, _, hloop, rfl⟩ := fitAll_fixed.mp h
      obtain ⟨_, l₃, bs, c, hhead, hbs, rfl⟩ := (fitAll_body _).mp hloop
      obtain ⟨_, _, hfirst, hsecond, rfl⟩ := fitAll_append.mp hhead
      obtain ⟨is, _, his, hline, rfl⟩ := fitAll_append.mp hfirst
      obtain ⟨l₁, ts, hts, rfl⟩ := fitAll_fixed.mp hline
      obtain ⟨l₂, ss, hss, rfl⟩ := fitAll_fixed.mp hsecond
      refine readsStmt_cons fun stop fuel o rest hfuel => ?_
      simp only [List.length_cons, List.length_append, List.length_nil] at hfuel
      simp only [List.cons_append, List.append_assoc, List.nil_append]
      exact forLoop_reads hinit his htest hts hstep hss hbs (block_reads hbody hbs) (by omega)
  | .eachLoop offset item source body iteration, ts, ⟨hsource, hbody, hiteration⟩, h => by
      subst hiteration
      obtain ⟨start, _, hloop, rfl⟩ := fitAll_fixed.mp h
      obtain ⟨_, _, _, _, hin, rfl⟩ := (fitAll_name _).mp hloop
      obtain ⟨_, _, hrest, rfl⟩ := fitAll_fixed.mp hin
      obtain ⟨ts, line, bs, c, hts, hbs, rfl⟩ := (fitAll_body _).mp hrest
      refine readsStmt_cons fun stop fuel o rest hfuel => ?_
      simp only [List.length_cons, List.length_append, List.length_nil] at hfuel
      simp only [List.cons_append, List.append_assoc, List.nil_append]
      refine headed_reads (f := fun source body => .eachLoop start item source body .unresolved)
        hsource hts hbs (block_reads hbody hbs) (by omega) fun source' body' hsource' hbody' => ?_
      simp [Stmt.unplaced, hsource', hbody']
  | .countLoop offset count body, ts, ⟨hcount, hbody⟩, h => by
      obtain ⟨start, _, hloop, rfl⟩ := fitAll_fixed.mp h
      obtain ⟨ts, line, bs, c, hts, hbs, rfl⟩ := (fitAll_body _).mp hloop
      refine readsStmt_cons fun stop fuel o rest hfuel => ?_
      simp only [List.length_cons, List.length_append, List.length_nil] at hfuel
      simp only [List.cons_append, List.append_assoc, List.nil_append]
      refine headed_reads (f := .countLoop start) hcount hts hbs (block_reads hbody hbs) (by omega)
        fun count' body' hcount' hbody' => ?_
      simp [Stmt.unplaced, hcount', hbody']
  | .leave offset, ts, _, h => by
      obtain ⟨start, _, hnil, rfl⟩ := fitAll_fixed.mp h
      cases fitAll_nil.mp hnil
      exact readsStmt_cons fun stop fuel o rest _ => ⟨_, rfl, rfl⟩
  | .again offset, ts, _, h => by
      obtain ⟨start, _, hnil, rfl⟩ := fitAll_fixed.mp h
      cases fitAll_nil.mp hnil
      exact readsStmt_cons fun stop fuel o rest _ => ⟨_, rfl, rfl⟩
  | .exit offset, ts, _, h => by
      obtain ⟨start, _, hnil, rfl⟩ := fitAll_fixed.mp h
      cases fitAll_nil.mp hnil
      exact readsStmt_cons fun stop fuel o rest _ => ⟨_, rfl, rfl⟩
  | .ret offset none, ts, _, h => by
      obtain ⟨start, _, hnil, rfl⟩ := fitAll_fixed.mp h
      cases fitAll_nil.mp hnil
      exact readsStmt_cons fun stop fuel o rest _ => ⟨_, rfl, rfl⟩
  | .ret offset (some value), ts, hbare, h => by
      obtain ⟨start, vs, hvalue, rfl⟩ := fitAll_fixed.mp h
      exact readsStmt_cons fun stop fuel o rest hfuel =>
        returnStmt_reads (hbare value rfl) hvalue (by omega)
  | .func offset name params body, ts, hbody, h => by
      obtain ⟨start, _, hname, rfl⟩ := fitAll_fixed.mp h
      obtain ⟨o', _, hrest, rfl⟩ := fitAll_fixed.mp hname
      obtain ⟨ts, line, bs, c, hts, hbs, rfl⟩ := (fitAll_body _).mp hrest
      refine readsStmt_cons fun stop fuel o rest hfuel => ?_
      simp only [List.length_cons, List.length_append, List.length_nil] at hfuel
      simp only [List.cons_append, List.append_assoc, List.nil_append]
      change Yields (do
        let names ← Parser.params stop fuel
        let body ← closedBlock stop fuel
        return Stmt.func start name names body)
        (ts ++ ⟨"\n", .endLine, line⟩ :: (bs ++ ⟨"end", .keyword, c⟩ :: _)) _ _
      refine (params_reads hts (by omega) (lacks_cons (by simp))).bind fun names hnames => ?_
      refine (closedBlock_line (closedBlock_reads (block_reads hbody hbs) (by omega))).bind
        fun body' hbody' => .pure ?_
      simp [Stmt.unplaced, hnames, hbody']
  | .call offset target, ts, ⟨htarget, hcall⟩, h => call_reads htarget hcall h
  | .assign offset target value, ts, ⟨htarget, hcall, hargs, hvalue⟩, h => by
      obtain ⟨before, _, hbefore, hop, rfl⟩ := fitAll_append.mp h
      obtain ⟨eq, vs, hvs, rfl⟩ := fitAll_fixed.mp hop
      exact assign_reads htarget hcall hargs hbefore hvalue hvs

theorem block_reads : ∀ {stmts : List Stmt} {ts : List Token}, Stmt.AllBare stmts →
    FitAll (Stmt.renderAll stmts) ts → ReadsBlock stmts ts
  | [], ts, _, h => by
      cases fitAll_nil.mp h
      exact block_nil
  | stmt :: stmts, ts, ⟨hstmt, hstmts⟩, h => by
      obtain ⟨before, _, hbefore, hline, rfl⟩ := fitAll_append.mp h
      obtain ⟨line, after, hafter, rfl⟩ := fitAll_fixed.mp hline
      exact block_cons (led_stmt hbefore) (stmt_reads hstmt hbefore) (block_reads hstmts hafter)

theorem branches_reads : ∀ {branches : Branches} {ts : List Token}, Stmt.BranchesBare branches →
    FitAll (Stmt.renderBranches branches) ts → ReadsBranches branches ts
  | .done, ts, _, h => by
      obtain ⟨o, _, hnil, rfl⟩ := fitAll_fixed.mp h
      cases fitAll_nil.mp hnil
      exact readsBranches_cons fun stop fuel rest hfuel => ⟨_, rfl, rfl⟩
  | .otherwise body, ts, hbody, h => by
      obtain ⟨o, _, hline, rfl⟩ := fitAll_fixed.mp h
      obtain ⟨_, line, bs, c, hnil, hbs, rfl⟩ := (fitAll_body []).mp hline
      cases fitAll_nil.mp hnil
      refine readsBranches_cons fun stop fuel rest hfuel => ?_
      simp only [List.length_cons, List.length_append, List.length_nil] at hfuel
      simp only [List.cons_append, List.append_assoc, List.nil_append]
      change Yields (closedBlock stop fuel >>= fun body =>
        (pure (.otherwise body) : Parser Branches)) _ _ _
      refine (closedBlock_line (closedBlock_reads (block_reads hbody hbs) (by omega))).bind
        fun body' hbody' => .pure ?_
      simp [Stmt.unplacedBranches, hbody']
  | .elseIf test body others, ts, ⟨htest, hbody, hothers⟩, h => by
      obtain ⟨start, _, hcond, rfl⟩ := fitAll_fixed.mp h
      obtain ⟨_, cs, hblock, hcs, rfl⟩ := fitAll_append.mp hcond
      obtain ⟨ts, _, hts, hline, rfl⟩ := fitAll_append.mp hblock
      obtain ⟨line, bs, hbs, rfl⟩ := fitAll_fixed.mp hline
      refine readsBranches_cons fun stop fuel rest hfuel => ?_
      simp only [List.length_cons, List.length_append] at hfuel
      simp only [List.cons_append, List.append_assoc]
      change Yields (do
        let test ← header stop fuel
        let body ← block stop ["elseif", "else", "end"] fuel
        let others ← branches stop fuel
        return Branches.elseIf test body others) _ _ _
      refine branch_reads htest hts hbs (block_reads hbody hbs) hcs
        (branches_reads hothers hcs) (by omega) fun test' body' others' htest' hbody' hothers' => ?_
      simp [Stmt.unplacedBranches, htest', hbody', hothers']

end

-- A whole script: no closing word is needed.
theorem stmts_reads {script : List Stmt} (hbare : Stmt.AllBare script)
    (h : FitAll (Stmt.renderAll script) ts) (hfuel : 3 * ts.length + 1 ≤ fuel) :
    Yields (stmts stop fuel) ts [] (Stmt.unplacedAll · = Stmt.unplacedAll script) := by
  obtain ⟨fuel, rfl⟩ : ∃ n, fuel = n + 1 := Nat.exists_eq_succ_of_ne_zero (by omega)
  induction script generalizing ts fuel with
  | nil =>
      cases fitAll_nil.mp h
      exact ⟨[], rfl, rfl⟩
  | cons stmt script ih =>
      obtain ⟨before, _, hbefore, hline, rfl⟩ := fitAll_append.mp h
      obtain ⟨line, after, hafter, rfl⟩ := fitAll_fixed.mp hline
      simp only [List.length_append, List.length_cons] at hfuel
      obtain ⟨fuel, rfl⟩ : ∃ n, fuel = n + 1 := Nat.exists_eq_succ_of_ne_zero (by omega)
      have hled := led_stmt hbefore
      refine hled.append.skipLines.bind fun _ _ => ?_
      have hfirst := stmt_reads hbare.1 hbefore stop (fuel + 1) line after (by omega)
      obtain ⟨t, ts, rfl, -⟩ := hled
      change Yields (do
        let first ← Parser.stmt stop (fuel + 1)
        stmtEnd
        let rest ← stmts stop (fuel + 1)
        return first :: rest) (t :: ts ++ ⟨"\n", .endLine, line⟩ :: after) _ _
      refine hfirst.bind fun first hfirst' => ?_
      refine Yields.bind (Q := fun _ => True) ⟨(), rfl, trivial⟩ fun _ _ => ?_
      refine (ih hbare.2 hafter fuel (by omega)).bind fun others hothers => .pure ?_
      simp [Stmt.unplacedAll, hfirst', hothers]

-- What is read is bare.
theorem builds_bare : Builds (fun _ => True) (fun _ => True) (·.Every Expr.Bare)
    (Expr.EveryOne Expr.Bare) VarStmt.Bare Stmt.Bare Stmt.AllBare Stmt.BranchesBare where
  name _ _ _ _ _ := rfl
  literal _ _ _ := rfl
  static _ _ _ _ hne hargs := ⟨⟨rfl, hne, rfl⟩, hargs⟩
  member _ _ _ _ _ htarget hargs := ⟨⟨rfl, rfl⟩, htarget, hargs⟩
  new _ _ _ _ hargs := ⟨⟨rfl, rfl⟩, hargs⟩
  binary _ _ _ hlhs hrhs := ⟨rfl, hlhs, hrhs⟩
  unary _ _ _ _ hoperand := ⟨rfl, hoperand⟩
  cast _ _ _ _ hoperand := ⟨rfl, hoperand⟩
  noArgs := trivial
  args _ _ hfirst hothers := ⟨hfirst, hothers⟩
  declare _ _ _ _ _ _ hvalue := hvalue
  update _ _ change _ _ _ hchange := by
    refine ⟨?_, rfl, rfl⟩
    cases change with
    | compound op value => exact hchange op value rfl
    | increment => trivial
    | decrement => trivial
  uses _ _ _ := trivial
  input _ _ _ _ _ _ := rfl
  var _ hv := hv
  cond _ _ _ _ _ htest hbody hrest := ⟨htest, hbody, hrest⟩
  whileLoop _ _ _ _ htest hbody := ⟨htest, hbody⟩
  forLoop _ _ _ _ _ _ hinit htest hstep hbody := ⟨hinit, htest, hstep, hbody⟩
  eachLoop _ _ _ _ _ _ _ hsource hbody := ⟨hsource, hbody, rfl⟩
  countLoop _ _ _ _ hcount hbody := ⟨hcount, hbody⟩
  leave _ _ := trivial
  again _ _ := trivial
  exit _ _ := trivial
  ret _ _ _ hvalue := hvalue
  func _ _ _ _ _ hbody := hbody
  call _ _ _ htarget hcall := ⟨htarget, hcall⟩
  assign _ _ _ _ htarget hcall hargs hvalue := ⟨htarget, hcall, hargs, hvalue⟩
  noStmts := trivial
  stmts _ _ hfirst hothers := ⟨hfirst, hothers⟩
  done := trivial
  otherwise _ hbody := hbody
  elseIf _ _ _ htest hbody hrest := ⟨htest, hbody, hrest⟩

-- A script is read to the end of its tokens.
theorem stmts_consumes {script : List Stmt} {s s' : List Token}
    (h : stmts stop fuel s = .ok (script, s')) : s' = [] := by
  induction fuel generalizing script s with
  | zero => exact (throw_ok.mp h).elim
  | succ fuel ih =>
      unfold stmts at h
      obtain ⟨_, s₁, hskip, h⟩ := bind_ok.mp h
      obtain ⟨t?, s₂, hpeek, h⟩ := bind_ok.mp h
      cases hs : s₁ with
      | nil =>
          subst hs
          cases hpeek
          cases pure_ok.mp h
          rfl
      | cons t rest =>
          subst hs
          cases hpeek
          obtain ⟨first, s₃, -, h⟩ := bind_ok.mp h
          obtain ⟨_, s₄, -, h⟩ := bind_ok.mp h
          obtain ⟨others, s₅, hothers, h⟩ := bind_ok.mp h
          cases pure_ok.mp h
          exact ih hothers

end Parser

-- A script is read back from any tokens that it is written in, and whatever is read can be written
-- so. Nothing is left behind.
theorem Script.reads_rendering :
    (∀ (script : Script) (tokens : List Token), Stmt.AllBare script →
      FitAll (Stmt.renderAll script) tokens →
        ∃ read, ofTokens tokens = .ok read ∧ Stmt.unplacedAll read = Stmt.unplacedAll script) ∧
    (∀ (tokens : List Token) (script : Script), ofTokens tokens = .ok script →
      Stmt.AllBare script ∧
        Parser.stmts (Parser.stopOffset tokens) (Parser.fuelFor tokens)
          (tokens.filter (·.kind ≠ .comment)) = .ok (script, [])) := by
  constructor
  · intro script tokens hbare h
    have hyields : Parser.Yields (Parser.stmts (Parser.stopOffset tokens) (Parser.fuelFor tokens))
        tokens [] (Stmt.unplacedAll · = Stmt.unplacedAll script) :=
      Parser.stmts_reads hbare h (by unfold Parser.fuelFor; omega)
    obtain ⟨read, hread, hsame⟩ := hyields
    refine ⟨read, ?_, hsame⟩
    simp only [ofTokens, Parser.runOn, StateT.run, filter_comments (Stmt.speak_renderAll script) h,
      hread]
    rfl
  · intro tokens script h
    have hspots : Parser.Reads.Spots (fun _ => True) (fun _ => True) (Parser.stopOffset tokens) :=
      ⟨fun _ _ => trivial, trivial⟩
    have hbare : Stmt.AllBare script :=
      (Parser.Reads.script Parser.builds_bare hspots fun _ _ => trivial).1 script h
    unfold ofTokens Parser.runOn at h
    cases hrun : StateT.run (Parser.stmts (Parser.stopOffset tokens) (Parser.fuelFor tokens))
        (tokens.filter (·.kind ≠ .comment)) with
    | error d =>
        rw [hrun] at h
        cases h
    | ok result =>
        rw [hrun] at h
        cases h
        obtain ⟨script, left⟩ := result
        cases Parser.stmts_consumes hrun
        exact ⟨hbare, hrun⟩

-- A part above 1_0 is turned over and becomes the lid of a box, any other is shown.
theorem Script.reads_rendering_box :
    ∃ read, ofTokens
      [⟨"if", .keyword, 0⟩, ⟨"part", .identifier, 3⟩, ⟨">", .operator, 8⟩,
        ⟨"1_0", .numLiteral, 10⟩, ⟨"\n", .endLine, 13⟩,
        ⟨"[", .openBracket, 14⟩, ⟨"box", .identifier, 15⟩, ⟨"]", .closedBracket, 18⟩,
        ⟨":", .colon, 19⟩, ⟨"lid", .identifier, 20⟩, ⟨"=", .operator, 24⟩, ⟨"-", .operator, 26⟩,
        ⟨"part", .identifier, 27⟩, ⟨"\n", .endLine, 31⟩,
        ⟨"else", .keyword, 32⟩, ⟨"\n", .endLine, 36⟩,
        ⟨"show", .identifier, 37⟩, ⟨"[", .openBracket, 42⟩, ⟨"part", .identifier, 43⟩,
        ⟨"]", .closedBracket, 47⟩, ⟨"\n", .endLine, 48⟩,
        ⟨"end", .keyword, 49⟩, ⟨"\n", .endLine, 52⟩] = .ok read ∧
      Stmt.unplacedAll read = Stmt.unplacedAll
        [.cond 0 (.binary ⟨3, .dynamic⟩ (.order .gt) (.name ⟨3, .dynamic⟩ "part")
            (.literal ⟨10, .dynamic⟩ (.long 10)))
          [.assign 14 (.member ⟨20, .dynamic⟩ (.name ⟨15, .dynamic⟩ "box") "lid" [] .unresolved)
            (.unary ⟨26, .dynamic⟩ .neg (.name ⟨27, .dynamic⟩ "part"))]
          (.otherwise [.call 37
            (.static ⟨37, .dynamic⟩ "show" [.name ⟨43, .dynamic⟩ "part"] .unresolved)])] := by
  refine reads_rendering.1 _ _ ?_ ?_
  · simp [Stmt.AllBare, Stmt.Bare, Stmt.BranchesBare, Expr.Every, Expr.EveryOne, Expr.Bare,
      Expr.ty, Expr.mark, Stmt.IsCall, Expr.args]
  · have hnumber : Literal.ofNumeral? "1_0".toList = some (.long 10) := by cbv
    repeat (first | exact .nil | refine .cons ⟨rfl, ?_⟩ ?_ | exact hnumber | rfl)

end HostScript
