import HostScript.Proofs.Script.Reading

namespace HostScript

namespace Parser

variable {e : Expr} {ts vs bs rest s : List Token} {stop fuel : Nat}

-- A token that begins a statement or an expression: it ends no line and belongs to no block.
def Leads (t : Token) : Prop :=
  t.kind ≠ .endLine ∧ ∀ word ∈ ["do", "end", "else", "elseif"], t.isKeyword word = false

def Led (ts : List Token) : Prop :=
  ∃ t rest, ts = t :: rest ∧ Leads t

theorem leads_of_kind {t : Token} (hline : t.kind ≠ .endLine) (hword : t.kind ≠ .keyword) :
    Leads t :=
  ⟨hline, fun word _ => by simp [Token.isKeyword, hword]⟩

theorem leads_keyword {word : String} {o : Nat} (h : word ∉ ["do", "end", "else", "elseif"]) :
    Leads ⟨word, .keyword, o⟩ := by
  refine ⟨by simp, fun other hother => ?_⟩
  have hne : word ≠ other := fun heq => h (heq ▸ hother)
  simp [Token.isKeyword, hne]

theorem leads_ofLiteral {value : Literal} {t : Token} (h : (Piece.ofLiteral value).Fits t) :
    Leads t := by
  refine leads_of_kind ?_ ?_ <;>
  · cases value with
    | bool b => cases b <;> simp [h.1]
    | _ => simp [h.1]

theorem Led.append (h : Led ts) : Led (ts ++ rest) := by
  obtain ⟨t, more, rfl, ht⟩ := h
  exact ⟨t, more ++ rest, rfl, ht⟩

theorem led_of_fitAll : ∀ {e : Expr} {ts : List Token}, FitAll e.render ts → Led ts
  | .name m x, ts, h => by
      obtain ⟨o, rest, -, rfl⟩ := fitAll_fixed.mp h
      exact ⟨_, _, rfl, leads_of_kind (by simp) (by simp)⟩
  | .literal m value, ts, h => by
      obtain ⟨t, rest, ht, -, rfl⟩ := fitAll_cons.mp h
      exact ⟨_, _, rfl, leads_ofLiteral ht⟩
  | .static m x args binding, ts, h => by
      obtain ⟨o, rest, -, rfl⟩ := fitAll_fixed.mp h
      exact ⟨_, _, rfl, leads_of_kind (by simp) (by simp)⟩
  | .member m target x args binding, ts, h => by
      obtain ⟨o, rest, -, rfl⟩ := fitAll_fixed.mp h
      exact ⟨_, _, rfl, leads_of_kind (by simp) (by simp)⟩
  | .new m typeName args binding, ts, h => by
      obtain ⟨o, rest, -, rfl⟩ := fitAll_fixed.mp h
      exact ⟨_, _, rfl, leads_keyword (by decide)⟩
  | .binary m op lhs rhs, ts, h => by
      obtain ⟨before, after, hbefore, -, rfl⟩ := fitAll_append.mp h
      unfold Expr.asOperand at hbefore
      split at hbefore
      · exact (led_of_fitAll hbefore).append
      · obtain ⟨o, rest, -, rfl⟩ := fitAll_fixed.mp hbefore
        exact ⟨_, _, rfl, leads_of_kind (by simp) (by simp)⟩
  | .unary m op operand, ts, h => by
      obtain ⟨o, rest, -, rfl⟩ := fitAll_fixed.mp h
      exact ⟨_, _, rfl, leads_of_kind (by simp) (by simp)⟩
  | .cast m typeName operand, ts, h => by
      obtain ⟨o, rest, -, rfl⟩ := fitAll_fixed.mp h
      exact ⟨_, _, rfl, leads_of_kind (by simp) (by simp)⟩

-- What stands behind a header: the body of a block or the word that ends it.
def Resumes (s : List Token) : Prop :=
  ∃ t rest, s = t :: rest ∧ t.kind ≠ .endLine ∧ t.isKeyword "do" = false

theorem Led.resumes (h : Led ts) : Resumes ts := by
  obtain ⟨t, more, rfl, ht⟩ := h
  exact ⟨t, more, rfl, ht.1, ht.2 "do" (by simp)⟩

-- Nothing is skipped before a token that is no line end, and one line end is skipped before it.
theorem skipLines_stays {t : Token} (h : t.kind ≠ .endLine) :
    skipLines (t :: s) = .ok ((), t :: s) := by
  change Except.ok ((), (t :: s).dropWhile (·.kind = .endLine)) = _
  rw [List.dropWhile_cons_of_neg (by simpa using h)]

theorem skipLines_line {t : Token} {o : Nat} (h : t.kind ≠ .endLine) :
    skipLines (⟨"\n", .endLine, o⟩ :: t :: s) = .ok ((), t :: s) := by
  change Except.ok ((), (⟨"\n", .endLine, o⟩ :: t :: s : List Token).dropWhile
    (·.kind = .endLine)) = _
  rw [List.dropWhile_cons_of_pos (by simp), List.dropWhile_cons_of_neg (by simpa using h)]

theorem Led.skipLines (h : Led ts) : Yields skipLines ts ts (fun _ => True) := by
  obtain ⟨t, more, rfl, ht⟩ := h
  exact ⟨(), skipLines_stays ht.1, trivial⟩

theorem Resumes.skipLines {o : Nat} (h : Resumes s) :
    Yields skipLines (⟨"\n", .endLine, o⟩ :: s) s (fun _ => True) := by
  obtain ⟨t, more, rfl, ht, -⟩ := h
  exact ⟨(), skipLines_line ht, trivial⟩

theorem Resumes.skipDo (h : Resumes s) :
    Yields (skipKeyword "do") s s (fun _ => True) := by
  obtain ⟨t, more, rfl, -, hdo⟩ := h
  refine ⟨(), ?_, trivial⟩
  change (if t.isKeyword "do" = true then advance else pure () : Parser Unit) (t :: more) = _
  rw [hdo]
  rfl

theorem stops_line (o : Nat) (s : List Token) : Stops (⟨"\n", .endLine, o⟩ :: s) :=
  ⟨closes_cons nofun nofun, rfl⟩

theorem header_reads {o : Nat} (he : ReadsExpr e ts) (hled : Led ts) (hfuel : 3 * ts.length ≤ fuel)
    (hrest : Resumes rest) :
    Yields (header stop fuel) (ts ++ ⟨"\n", .endLine, o⟩ :: rest) rest
      (·.unplaced = e.unplaced) :=
  hled.append.skipLines.bind fun _ _ => (he stop fuel _ hfuel (stops_line o rest)).bind
    fun _ hread => hrest.skipLines.bind fun _ _ => hrest.skipDo.bind fun _ _ => .pure hread

theorem fitAll_name {x : String} (ps : List Piece) :
    FitAll (Piece.inBrackets [.name x] ++ ps) ts ↔ ∃ o n c after, FitAll ps after ∧
      ts = ⟨"[", .openBracket, o⟩ :: ⟨x, .identifier, n⟩ :: ⟨"]", .closedBracket, c⟩ :: after := by
  rw [fitAll_inBrackets]
  constructor
  · rintro ⟨o, _, c, after, hname, hafter, rfl⟩
    obtain ⟨n, _, hnil, rfl⟩ := fitAll_fixed.mp hname
    cases fitAll_nil.mp hnil
    exact ⟨o, n, c, after, hafter, rfl⟩
  · rintro ⟨o, n, c, after, hafter, rfl⟩
    exact ⟨o, _, c, after, fitAll_fixed.mpr ⟨n, [], fitAll_nil.mpr rfl, rfl⟩, hafter, rfl⟩

theorem varStmt_reads {v : VarStmt} {o : Nat} (hbare : v.Bare) (h : FitAll v.render ts)
    (hfuel : 3 * ts.length ≤ fuel + 1) :
    Yields (varStmt stop fuel) (ts ++ ⟨"\n", .endLine, o⟩ :: rest) (⟨"\n", .endLine, o⟩ :: rest)
      (·.unplaced = v.unplaced) := by
  cases v with
  | declare offset x value =>
      obtain ⟨start, _, hname, rfl⟩ := fitAll_fixed.mp h
      obtain ⟨_, _, _, _, hop, rfl⟩ := (fitAll_name _).mp hname
      obtain ⟨_, vs, hvalue, rfl⟩ := fitAll_fixed.mp hop
      simp only [List.length_cons] at hfuel
      change Yields (expr stop fuel >>= fun value =>
        (pure (.declare start x value) : Parser VarStmt)) (vs ++ ⟨"\n", .endLine, o⟩ :: rest) _ _
      refine ((readable_of_fitAll hbare hvalue).expr stop fuel _ (by omega)
        (stops_line o rest)).bind fun read hread => .pure ?_
      simp [VarStmt.unplaced, hread]
  | update offset x change current result =>
      obtain ⟨hchange, rfl, rfl⟩ := hbare
      obtain ⟨start, _, hname, rfl⟩ := fitAll_fixed.mp h
      obtain ⟨_, _, _, _, hop, rfl⟩ := (fitAll_name _).mp hname
      cases change with
      | compound op value =>
          obtain ⟨_, vs, hvalue, rfl⟩ := fitAll_fixed.mp hop
          simp only [List.length_cons] at hfuel
          have hread : Yields (expr stop fuel >>= fun value =>
              (pure (.update start x (.compound op value) .dynamic .dynamic) : Parser VarStmt))
              (vs ++ ⟨"\n", .endLine, o⟩ :: rest) (⟨"\n", .endLine, o⟩ :: rest)
              (·.unplaced =
                (VarStmt.update offset x (.compound op value) .dynamic .dynamic).unplaced) := by
            refine ((readable_of_fitAll hchange hvalue).expr stop fuel _ (by omega)
              (stops_line o rest)).bind fun read hread => .pure ?_
            simp [VarStmt.unplaced, Change.unplaced, hread]
          cases op <;> exact hread
      | increment =>
          obtain ⟨_, _, hnil, rfl⟩ := fitAll_fixed.mp hop
          cases fitAll_nil.mp hnil
          exact ⟨_, rfl, rfl⟩
      | decrement =>
          obtain ⟨_, _, hnil, rfl⟩ := fitAll_fixed.mp hop
          cases fitAll_nil.mp hnil
          exact ⟨_, rfl, rfl⟩

theorem varStmt_first {v : VarStmt} (h : FitAll v.render ts) :
    ∃ o rest, ts = ⟨"var", .keyword, o⟩ :: rest := by
  cases v <;>
  · obtain ⟨o, rest, -, rfl⟩ := fitAll_fixed.mp h
    exact ⟨o, rest, rfl⟩

theorem led_varStmt {v : VarStmt} (h : FitAll v.render ts) : Led ts := by
  obtain ⟨o, rest, rfl⟩ := varStmt_first h
  exact ⟨_, _, rfl, leads_keyword (by decide)⟩

-- Tokens that are read as a statement up to the end of its line.
def ReadsStmt (stmt : Stmt) (ts : List Token) : Prop :=
  ∀ stop fuel o rest, 3 * ts.length ≤ fuel →
    Yields (Parser.stmt stop fuel) (ts ++ ⟨"\n", .endLine, o⟩ :: rest)
      (⟨"\n", .endLine, o⟩ :: rest) (·.unplaced = stmt.unplaced)

-- Tokens that are read as statements up to a word that closes their block.
def ReadsBlock (stmts : List Stmt) (ts : List Token) : Prop :=
  ∀ stop closers fuel word o rest, closers ⊆ ["elseif", "else", "end"] → word ∈ closers →
    3 * ts.length + 1 ≤ fuel →
      Yields (block stop closers fuel) (ts ++ ⟨word, .keyword, o⟩ :: rest)
        (⟨word, .keyword, o⟩ :: rest) (Stmt.unplacedAll · = Stmt.unplacedAll stmts)

def ReadsBranches (branches : Branches) (ts : List Token) : Prop :=
  ∀ stop fuel rest, 3 * ts.length ≤ fuel →
    Yields (Parser.branches stop fuel) (ts ++ rest) rest
      (Stmt.unplacedBranches · = Stmt.unplacedBranches branches)

-- A statement that begins with no keyword is a call or an assignment.
theorem stmt_member {t : Token} {s' : List Token} {Q : Stmt → Prop} (ht : t.kind ≠ .keyword)
    (h : Yields (memberStmt stop fuel) (t :: s) s' Q) :
    Yields (Parser.stmt stop (fuel + 1)) (t :: s) s' Q := by
  have hfirst : (t.kind ≠ .keyword || t.lexeme = "new") = true := by simp [ht]
  change Yields (if (t.kind ≠ .keyword || t.lexeme = "new") = true then memberStmt stop fuel else _)
    (t :: s) s' Q
  rw [if_pos hfirst]
  exact h

theorem begins_call {target : Expr} (hcall : Stmt.IsCall target) (h : FitAll target.render ts) :
    ∃ t rest, ts = t :: rest ∧ t.kind ≠ .keyword := by
  cases target with
  | name m x =>
      obtain ⟨o, rest, -, rfl⟩ := fitAll_fixed.mp h
      exact ⟨_, _, rfl, by simp⟩
  | static m x args binding =>
      obtain ⟨o, rest, -, rfl⟩ := fitAll_fixed.mp h
      exact ⟨_, _, rfl, by simp⟩
  | member m target x args binding =>
      obtain ⟨o, rest, -, rfl⟩ := fitAll_fixed.mp h
      exact ⟨_, _, rfl, by simp⟩
  | _ => exact hcall.elim

theorem memberStmt_call {target : Expr} {offset o : Nat} (htarget : ReadsOperand target ts)
    (hcall : Stmt.IsCall target) (hfuel : 3 * ts.length ≤ fuel + 2) :
    Yields (memberStmt stop fuel) (ts ++ ⟨"\n", .endLine, o⟩ :: rest) (⟨"\n", .endLine, o⟩ :: rest)
      (·.unplaced = (Stmt.call offset target).unplaced) := by
  refine Yields.bind (Q := fun _ => True) ⟨_, rfl, trivial⟩ fun start _ =>
    (htarget stop fuel _ hfuel (stops_line o rest).1).bind fun read hread => ?_
  have hsame : (Stmt.call start read).unplaced = (Stmt.call offset target).unplaced := by
    simp [Stmt.unplaced, hread]
  cases read with
  | name m x => exact ⟨_, rfl, hsame⟩
  | static m x args binding => exact ⟨_, rfl, hsame⟩
  | member m owner x args binding => exact ⟨_, rfl, hsame⟩
  | _ => cases target <;> first | exact hcall.elim | cases hread

theorem memberStmt_assign {target value : Expr} {offset eq o : Nat}
    (htarget : ReadsOperand target ts) (hbare : target.Every Expr.Bare)
    (hcall : Stmt.IsCall target) (hargs : target.args = [])
    (hvalue : ReadsExpr value vs) (hfuel : 3 * (ts.length + vs.length) ≤ fuel) :
    Yields (memberStmt stop fuel)
      (ts ++ ⟨"=", .operator, eq⟩ :: (vs ++ ⟨"\n", .endLine, o⟩ :: rest))
      (⟨"\n", .endLine, o⟩ :: rest) (·.unplaced = (Stmt.assign offset target value).unplaced) := by
  have hcloses : Closes (⟨"=", .operator, eq⟩ :: (vs ++ ⟨"\n", .endLine, o⟩ :: rest)) :=
    closes_cons nofun nofun
  refine Yields.bind (Q := fun _ => True) ⟨_, rfl, trivial⟩ fun start _ =>
    (htarget stop fuel _ (by omega) hcloses).bind fun read hread => ?_
  have hassign : Yields (expr stop fuel >>= fun value =>
      (pure (.assign start read value) : Parser Stmt)) (vs ++ ⟨"\n", .endLine, o⟩ :: rest)
      (⟨"\n", .endLine, o⟩ :: rest) (·.unplaced = (Stmt.assign offset target value).unplaced) := by
    refine (hvalue stop fuel _ (by omega) (stops_line o rest)).bind fun value' hvalue' => .pure ?_
    simp [Stmt.unplaced, hread, hvalue']
  -- What was read can be assigned to as well: it differs in places only.
  cases target with
  | name m x => cases read <;> first | exact hassign | cases hread
  | static m x args binding => exact (hbare.1.2.1 hargs).elim
  | member m owner x args binding =>
      cases hargs
      cases read with
      | member m' owner' x' args' binding' =>
          cases args' with
          | nil => exact hassign
          | cons first others => simp [Expr.unplaced, Expr.unplacedAll] at hread
      | _ => cases hread
  | _ => exact hcall.elim

theorem params_reads {names : List String} (h : FitAll (Stmt.renderParams names) ts)
    (hfuel : ts.length ≤ fuel) (hrest : Lacks .openBracket rest) :
    Yields (params stop fuel) (ts ++ rest) rest (· = names) := by
  induction names generalizing ts fuel with
  | nil =>
      cases fitAll_nil.mp h
      cases fuel with
      | zero => exact ⟨_, rfl, rfl⟩
      | succ fuel =>
          refine ⟨[], ?_, rfl⟩
          unfold params
          rw [List.nil_append, isNext_lacks hrest]
          rfl
  | cons x names ih =>
      rw [Stmt.renderParams, List.flatMap_cons] at h
      obtain ⟨_, _, _, others, hothers, rfl⟩ := (fitAll_name _).mp h
      simp only [List.length_cons] at hfuel
      obtain ⟨fuel, rfl⟩ : ∃ n, fuel = n + 1 := Nat.exists_eq_succ_of_ne_zero (by omega)
      change Yields (params stop fuel >>= fun names =>
        (pure (x :: names) : Parser (List String))) (others ++ rest) rest _
      exact (ih hothers (by omega)).bind fun names' hnames => .pure (by rw [hnames])

theorem block_nil : ReadsBlock [] [] := by
  intro stop closers fuel word o rest _ hword hfuel
  obtain ⟨fuel, rfl⟩ : ∃ n, fuel = n + 1 := Nat.exists_eq_succ_of_ne_zero (by omega)
  refine ⟨[], ?_, rfl⟩
  change (if (decide (Token.Kind.keyword = .keyword) && closers.contains word) = true then
    (pure [] : Parser (List Stmt)) else _) (⟨word, .keyword, o⟩ :: rest) = _
  rw [if_pos (by simpa using hword)]
  rfl

theorem block_cons {stmt : Stmt} {stmts : List Stmt} {line : Nat} (hled : Led ts)
    (hstmt : ReadsStmt stmt ts) (hstmts : ReadsBlock stmts vs) :
    ReadsBlock (stmt :: stmts) (ts ++ ⟨"\n", .endLine, line⟩ :: vs) := by
  intro stop closers fuel word o rest hclosers hword hfuel
  simp only [List.length_append, List.length_cons] at hfuel
  obtain ⟨fuel, rfl⟩ : ∃ n, fuel = n + 1 := Nat.exists_eq_succ_of_ne_zero (by omega)
  rw [List.append_assoc, List.cons_append]
  refine hled.append.skipLines.bind fun _ _ => ?_
  obtain ⟨t, ts', rfl, ht⟩ := hled
  have hinside : ¬(decide (t.kind = .keyword) && closers.contains t.lexeme) = true := by
    simp only [Bool.and_eq_true, decide_eq_true_eq, List.contains_iff_mem, not_and]
    intro hkind hmem
    have hcloser : t.lexeme ∈ ["do", "end", "else", "elseif"] := by
      have := hclosers hmem
      simp only [List.mem_cons, List.not_mem_nil, or_false] at this ⊢
      tauto
    simpa [Token.isKeyword, hkind] using ht.2 _ hcloser
  change Yields (if (decide (t.kind = .keyword) && closers.contains t.lexeme) = true then
    (pure [] : Parser (List Stmt)) else do
      let first ← Parser.stmt stop fuel
      stmtEnd
      let rest ← block stop closers fuel
      return first :: rest) (t :: ts' ++ _) _ _
  rw [if_neg hinside]
  refine (hstmt stop fuel line _ (by omega)).bind fun first hfirst => ?_
  refine Yields.bind (Q := fun _ => True) ⟨(), rfl, trivial⟩ fun _ _ => ?_
  refine (hstmts stop closers fuel word o rest hclosers hword (by omega)).bind fun others hothers =>
    .pure ?_
  simp [Stmt.unplacedAll, hfirst, hothers]

-- The statements of a block with the `end` behind them.
theorem closedBlock_reads {stmts : List Stmt} {o : Nat} (hstmts : ReadsBlock stmts ts)
    (hfuel : 3 * ts.length + 2 ≤ fuel) :
    Yields (closedBlock stop fuel) (ts ++ ⟨"end", .keyword, o⟩ :: rest) rest
      (Stmt.unplacedAll · = Stmt.unplacedAll stmts) := by
  obtain ⟨fuel, rfl⟩ : ∃ n, fuel = n + 1 := Nat.exists_eq_succ_of_ne_zero (by omega)
  exact (hstmts stop ["end"] fuel "end" o rest (by simp) (by simp) (by omega)).bind fun _ hbody =>
    (expect_yields _ rfl).bind fun _ _ => .pure hbody

theorem led_stmt {stmt : Stmt} (h : FitAll stmt.render ts) : Led ts := by
  cases stmt with
  | var v => exact led_varStmt h
  | call offset target => exact led_of_fitAll h
  | assign offset target value =>
      obtain ⟨before, after, hbefore, -, rfl⟩ := fitAll_append.mp h
      exact (led_of_fitAll hbefore).append
  | input offset x typeName declared =>
      cases typeName <;>
      · obtain ⟨o, rest, -, rfl⟩ := fitAll_fixed.mp h
        exact ⟨_, _, rfl, leads_keyword (by decide)⟩
  | ret offset value =>
      cases value <;>
      · obtain ⟨o, rest, -, rfl⟩ := fitAll_fixed.mp h
        exact ⟨_, _, rfl, leads_keyword (by decide)⟩
  | _ =>
      obtain ⟨o, rest, -, rfl⟩ := fitAll_fixed.mp h
      exact ⟨_, _, rfl, leads_keyword (by decide)⟩

theorem resumes_block {stmts : List Stmt} {word : String} {o : Nat}
    (h : FitAll (Stmt.renderAll stmts) ts) (hword : word ∈ ["elseif", "else", "end"]) :
    Resumes (ts ++ ⟨word, .keyword, o⟩ :: rest) := by
  cases stmts with
  | nil =>
      cases fitAll_nil.mp h
      refine ⟨_, _, rfl, by simp, ?_⟩
      simp only [List.mem_cons, List.not_mem_nil, or_false] at hword
      rcases hword with rfl | rfl | rfl <;> rfl
  | cons stmt stmts =>
      obtain ⟨before, after, hbefore, -, rfl⟩ := fitAll_append.mp h
      exact (led_stmt hbefore).append.append.resumes

-- A block under a header, as loops have it.
theorem headed_reads {stmts : List Stmt} {f : Expr → List Stmt → Stmt} {Q : Stmt → Prop}
    {line o : Nat} (htest : e.Every Expr.Bare) (hts : FitAll e.render ts)
    (hbs : FitAll (Stmt.renderAll stmts) bs) (hbody : ReadsBlock stmts bs)
    (hfuel : 3 * (ts.length + bs.length) + 2 ≤ fuel)
    (hf : ∀ test body, test.unplaced = e.unplaced →
      Stmt.unplacedAll body = Stmt.unplacedAll stmts → Q (f test body)) :
    Yields (do
      let test ← header stop fuel
      let body ← closedBlock stop fuel
      return f test body)
      (ts ++ ⟨"\n", .endLine, line⟩ :: (bs ++ ⟨"end", .keyword, o⟩ :: rest)) rest Q := by
  refine (header_reads (readable_of_fitAll htest hts).expr (led_of_fitAll hts) (by omega)
    (resumes_block hbs (by simp))).bind fun test htest' => ?_
  exact (closedBlock_reads hbody (by omega)).bind fun body hbody' =>
    .pure (hf test body htest' hbody')

theorem branches_first {branches : Branches} (h : FitAll (Stmt.renderBranches branches) ts) :
    ∃ word o rest, ts = ⟨word, .keyword, o⟩ :: rest ∧ word ∈ ["elseif", "else", "end"] := by
  cases branches <;>
  · obtain ⟨o, rest, -, rfl⟩ := fitAll_fixed.mp h
    exact ⟨_, o, rest, rfl, by simp⟩

-- A branch under its test, with the branches behind it.
theorem branch_reads {α : Type} {stmts : List Stmt} {others : Branches}
    {f : Expr → List Stmt → Branches → α} {Q : α → Prop} {line : Nat} {cs : List Token}
    (htest : e.Every Expr.Bare) (hts : FitAll e.render ts)
    (hbs : FitAll (Stmt.renderAll stmts) bs) (hbody : ReadsBlock stmts bs)
    (hcs : FitAll (Stmt.renderBranches others) cs) (hothers : ReadsBranches others cs)
    (hfuel : 3 * (ts.length + bs.length + cs.length) + 1 ≤ fuel)
    (hf : ∀ test body rest, test.unplaced = e.unplaced →
      Stmt.unplacedAll body = Stmt.unplacedAll stmts →
        Stmt.unplacedBranches rest = Stmt.unplacedBranches others → Q (f test body rest)) :
    Yields (do
      let test ← header stop fuel
      let body ← block stop ["elseif", "else", "end"] fuel
      let rest ← branches stop fuel
      return f test body rest) (ts ++ ⟨"\n", .endLine, line⟩ :: (bs ++ (cs ++ rest))) rest Q := by
  have hread := hothers stop fuel rest (by omega)
  obtain ⟨word, o, cs, rfl, hword⟩ := branches_first hcs
  refine (header_reads (readable_of_fitAll htest hts).expr (led_of_fitAll hts) (by omega)
    (resumes_block hbs hword)).bind fun test htest' => ?_
  refine (hbody stop _ fuel word o (cs ++ rest) (List.Subset.refl _) hword (by omega)).bind
    fun body hbody' => ?_
  exact hread.bind fun others' hothers' => .pure (hf test body others' htest' hbody' hothers')

-- A block that begins with the end of a line is read as the block behind it.
theorem closedBlock_line {o : Nat} {s' : List Token} {Q : List Stmt → Prop}
    (h : Yields (closedBlock stop fuel) s s' Q) :
    Yields (closedBlock stop fuel) (⟨"\n", .endLine, o⟩ :: s) s' Q := by
  match fuel, h with
  | 0, h => exact h
  | 1, h => exact h
  | fuel + 2, h => exact h

-- The tokens behind a header: a line end, a body and `end`.
theorem fitAll_body (ps : List Piece) {stmts : List Stmt} :
    FitAll (ps ++ .endLine :: Stmt.renderAll stmts ++ [.word "end"]) ts ↔
      ∃ before line bs o, FitAll ps before ∧ FitAll (Stmt.renderAll stmts) bs ∧
        ts = before ++ ⟨"\n", .endLine, line⟩ :: (bs ++ [⟨"end", .keyword, o⟩]) := by
  rw [List.append_assoc, fitAll_append]
  constructor
  · rintro ⟨before, _, hbefore, hline, rfl⟩
    obtain ⟨line, _, hbody, rfl⟩ := fitAll_fixed.mp hline
    obtain ⟨bs, _, hbs, hend, rfl⟩ := fitAll_append.mp hbody
    obtain ⟨o, _, hnil, rfl⟩ := fitAll_fixed.mp hend
    cases fitAll_nil.mp hnil
    exact ⟨before, line, bs, o, hbefore, hbs, rfl⟩
  · rintro ⟨before, line, bs, o, hbefore, hbs, rfl⟩
    refine ⟨before, _, hbefore, fitAll_fixed.mpr ⟨line, _, fitAll_append.mpr ⟨bs, _, hbs, ?_, rfl⟩,
      rfl⟩, rfl⟩
    exact fitAll_fixed.mpr ⟨o, _, fitAll_nil.mpr rfl, rfl⟩

theorem returnStmt_reads {start offset o : Nat} (hvalue : e.Every Expr.Bare)
    (hvs : FitAll e.render vs) (hfuel : 3 * vs.length ≤ fuel) :
    Yields (returnStmt stop fuel start) (vs ++ ⟨"\n", .endLine, o⟩ :: rest)
      (⟨"\n", .endLine, o⟩ :: rest) (·.unplaced = (Stmt.ret offset (some e)).unplaced) := by
  have hread := (readable_of_fitAll hvalue hvs).expr stop fuel _ hfuel (stops_line o rest)
  obtain ⟨t, vs, rfl, hline, hwords⟩ := led_of_fitAll hvs
  have hgoes : endsStmt t = false := by
    simp [endsStmt, hline, hwords "end" (by simp), hwords "else" (by simp),
      hwords "elseif" (by simp)]
  change Yields (if endsStmt t = true then (pure (.ret start none) : Parser Stmt) else do
    return .ret start (some (← expr stop fuel))) (t :: vs ++ ⟨"\n", .endLine, o⟩ :: rest) _ _
  rw [hgoes]
  refine hread.bind fun value hvalue => .pure ?_
  simp [Stmt.unplaced, hvalue]

theorem readsStmt_cons {stmt : Stmt} {t : Token}
    (h : ∀ stop fuel o rest, 3 * ts.length + 2 ≤ fuel →
      Yields (Parser.stmt stop (fuel + 1)) (t :: (ts ++ ⟨"\n", .endLine, o⟩ :: rest))
        (⟨"\n", .endLine, o⟩ :: rest) (·.unplaced = stmt.unplaced)) : ReadsStmt stmt (t :: ts) := by
  intro stop fuel o rest hfuel
  simp only [List.length_cons] at hfuel
  obtain ⟨fuel, rfl⟩ : ∃ n, fuel = n + 1 := Nat.exists_eq_succ_of_ne_zero (by omega)
  exact h stop fuel o rest (by omega)

theorem stands_call {target : Expr} (htarget : target.Every Expr.Bare) (hcall : Stmt.IsCall target)
    (h : FitAll target.render ts) : Stands target ts := by
  refine (readable_of_fitAll htarget h).stands ?_ ?_
  · rintro m op lhs rhs rfl
    exact hcall
  · rintro m op inner rfl
    exact hcall

theorem call_reads {target : Expr} {offset : Nat} (htarget : target.Every Expr.Bare)
    (hcall : Stmt.IsCall target) (h : FitAll target.render ts) :
    ReadsStmt (.call offset target) ts := by
  have hstands := stands_call htarget hcall h
  obtain ⟨t, ts, rfl, ht⟩ := begins_call hcall h
  refine readsStmt_cons fun stop fuel o rest hfuel => stmt_member ht ?_
  rw [← List.cons_append]
  exact memberStmt_call hstands.reads hcall (by simp only [List.length_cons]; omega)

theorem assign_reads {target value : Expr} {offset eq : Nat} (htarget : target.Every Expr.Bare)
    (hcall : Stmt.IsCall target) (hargs : target.args = []) (h : FitAll target.render ts)
    (hvalue : value.Every Expr.Bare) (hvs : FitAll value.render vs) :
    ReadsStmt (.assign offset target value) (ts ++ ⟨"=", .operator, eq⟩ :: vs) := by
  have hstands := stands_call htarget hcall h
  obtain ⟨t, ts, rfl, ht⟩ := begins_call hcall h
  rw [List.cons_append]
  refine readsStmt_cons fun stop fuel o rest hfuel => stmt_member ht ?_
  simp only [List.length_append, List.length_cons] at hfuel
  rw [List.append_assoc, List.cons_append, ← List.cons_append]
  exact memberStmt_assign hstands.reads htarget hcall hargs (readable_of_fitAll hvalue hvs).expr
    (by simp only [List.length_cons]; omega)

theorem forLoop_reads {init step : VarStmt} {stmts : List Stmt} {is ss : List Token}
    {start offset l₁ l₂ l₃ c : Nat} (hinit : init.Bare) (his : FitAll init.render is)
    (htest : e.Every Expr.Bare) (hts : FitAll e.render ts) (hstep : step.Bare)
    (hss : FitAll step.render ss) (hbs : FitAll (Stmt.renderAll stmts) bs)
    (hbody : ReadsBlock stmts bs)
    (hfuel : 3 * (is.length + ts.length + ss.length + bs.length) + 2 ≤ fuel) :
    Yields (Parser.stmt stop (fuel + 1)) (⟨"for", .keyword, start⟩ :: (is ++
      ⟨"\n", .endLine, l₁⟩ :: (ts ++ ⟨"\n", .endLine, l₂⟩ :: (ss ++ ⟨"\n", .endLine, l₃⟩ :: (bs ++
        ⟨"end", .keyword, c⟩ :: rest))))) rest
      (·.unplaced = (Stmt.forLoop offset init e step stmts).unplaced) := by
  change Yields (do
    skipLines
    let init ← varStmt stop fuel
    skipLines
    let test ← expr stop fuel
    skipLines
    let step ← varStmt stop fuel
    skipLines
    skipKeyword "do"
    let body ← closedBlock stop fuel
    return Stmt.forLoop start init test step body) (is ++ _) _ _
  refine (led_varStmt his).append.skipLines.bind fun _ _ => ?_
  refine (varStmt_reads hinit his (by omega)).bind fun init' hinit' => ?_
  refine (led_of_fitAll hts).append.resumes.skipLines.bind fun _ _ => ?_
  refine ((readable_of_fitAll htest hts).expr stop fuel _ (by omega) (stops_line _ _)).bind
    fun test' htest' => ?_
  refine (led_varStmt hss).append.resumes.skipLines.bind fun _ _ => ?_
  refine (varStmt_reads hstep hss (by omega)).bind fun step' hstep' => ?_
  have hresumes : Resumes (bs ++ ⟨"end", .keyword, c⟩ :: rest) := resumes_block hbs (by simp)
  refine hresumes.skipLines.bind fun _ _ => hresumes.skipDo.bind fun _ _ => ?_
  refine (closedBlock_reads hbody (by omega)).bind fun body' hbody' => .pure ?_
  simp [Stmt.unplaced, hinit', htest', hstep', hbody']

theorem readsBranches_cons {branches : Branches} {t : Token}
    (h : ∀ stop fuel rest, 3 * ts.length + 2 ≤ fuel →
      Yields (Parser.branches stop (fuel + 1)) (t :: (ts ++ rest)) rest
        (Stmt.unplacedBranches · = Stmt.unplacedBranches branches)) :
    ReadsBranches branches (t :: ts) := by
  intro stop fuel rest hfuel
  simp only [List.length_cons] at hfuel
  obtain ⟨fuel, rfl⟩ : ∃ n, fuel = n + 1 := Nat.exists_eq_succ_of_ne_zero (by omega)
  exact h stop fuel rest (by omega)

end Parser

end HostScript
