import HostScript.Proofs.Script.Rendering

namespace HostScript

namespace Parser

-- A number is only called bad where a token for it cannot be read.
def Grounded (T : Token → Prop) (problem : Diagnostic.Problem) : Prop :=
  ∀ lexeme, problem = .badNumber lexeme →
    ∃ t, T t ∧ t.kind = .numLiteral ∧ Literal.ofNumeral? t.lexeme.toList = none

-- A parser that, on tokens as `T` says, answers as `Q` says, or finds a problem in a place as `O`
-- says.
def Reads {α : Type} (O : Nat → Prop) (T : Token → Prop) (Q : α → Prop) (p : Parser α) : Prop :=
  ∀ tokens : List Token, (∀ t ∈ tokens, T t) →
    (∀ a rest, p tokens = .ok (a, rest) → (∀ t ∈ rest, T t) ∧ Q a) ∧
    ∀ d, p tokens = .error d → O d.offset ∧ Grounded T d.problem

namespace Reads

variable {α β : Type} {O : Nat → Prop} {T : Token → Prop} {Q : α → Prop} {R : β → Prop}
  {stop fuel : Nat}

theorem pure {a : α} (h : Q a) : Reads O T Q (Pure.pure a : Parser α) := by
  refine fun tokens htokens => ⟨fun b rest hrun => ?_, fun d hrun => by cases hrun⟩
  cases pure_ok.mp hrun
  exact ⟨htokens, h⟩

theorem fail (problem : Diagnostic.Problem) {offset : Nat} (h : O offset)
    (hproblem : Grounded T problem := by exact nofun) :
    Reads O T Q (Parser.fail problem offset : Parser α) := by
  refine fun tokens _ => ⟨fun _ _ hrun => (throw_ok.mp hrun).elim, fun d hrun => ?_⟩
  cases hrun
  exact ⟨h, hproblem⟩

theorem bind {x : Parser α} {f : α → Parser β} (hx : Reads O T Q x)
    (hf : ∀ a, Q a → Reads O T R (f a)) : Reads O T R (x >>= f) := by
  intro tokens htokens
  refine ⟨fun b rest hrun => ?_, fun d hrun => ?_⟩
  · obtain ⟨a, ts, hfirst, hrest⟩ := bind_ok.mp hrun
    obtain ⟨hts, ha⟩ := (hx tokens htokens).1 a ts hfirst
    exact (hf a ha ts hts).1 b rest hrest
  · rcases bind_error.mp hrun with hfirst | ⟨a, ts, hfirst, hrest⟩
    · exact (hx tokens htokens).2 d hfirst
    · obtain ⟨hts, ha⟩ := (hx tokens htokens).1 a ts hfirst
      exact (hf a ha ts hts).2 d hrest

theorem modify {f : List Token → List Token} (h : ∀ tokens, ∀ t ∈ f tokens, t ∈ tokens) :
    Reads O T (fun _ => True) (modify f : Parser PUnit) := by
  refine fun tokens htokens => ⟨fun a rest hrun => ?_, fun d hrun => by cases hrun⟩
  cases modify_ok.mp hrun
  exact ⟨fun t ht => htokens t (h tokens t ht), trivial⟩

-- What would follow a problem is not read any more.
theorem refuse (problem : Diagnostic.Problem) {offset : Nat} (h : O offset) {f : α → Parser β}
    (hproblem : Grounded T problem := by exact nofun) :
    Reads O T R (Parser.fail problem offset >>= f) :=
  (fail (Q := fun _ => False) _ h hproblem).bind fun _ h => h.elim

theorem ite {c : Prop} [Decidable c] {x y : Parser α} (hx : Reads O T Q x)
    (hy : Reads O T Q y) : Reads O T Q (if c then x else y) := by
  split
  · exact hx
  · exact hy

theorem peek : Reads O T (fun t? : Option Token => ∀ t, t? = some t → T t) Parser.peek := by
  intro tokens htokens
  refine ⟨fun t? rest hrun => ?_, fun d hrun => by cases hrun⟩
  obtain ⟨_, _, hget, hrun⟩ := bind_ok.mp hrun
  cases get_ok.mp hget
  cases pure_ok.mp hrun
  exact ⟨htokens, fun t ht => htokens t (List.mem_of_head? ht)⟩

theorem advance : Reads O T (fun _ => True) Parser.advance :=
  modify fun _ _ => List.mem_of_mem_tail

theorem skipLines : Reads O T (fun _ => True) Parser.skipLines :=
  modify fun _ _ => (List.dropWhile_sublist _).mem

theorem isNext (p : Token → Bool) : Reads O T (fun _ => True) (Parser.isNext p) :=
  peek.bind fun _ _ => pure trivial

theorem skipKeyword (word : String) : Reads O T (fun _ => True) (Parser.skipKeyword word) := by
  refine (isNext _).bind fun b _ => ?_
  cases b with
  | true => exact advance
  | false => exact pure trivial

theorem atStmtEnd : Reads O T (fun _ => True) Parser.atStmtEnd :=
  peek.bind fun _ _ => pure trivial

-- Where parsers find problems: at tokens, or where the tokens end.
structure Spots (O : Nat → Prop) (T : Token → Prop) (stop : Nat) : Prop where
  token : ∀ t, T t → O t.offset
  stop : O stop

section Problems

variable (h : Spots O T stop)

include h

theorem offset : Reads O T O (Parser.offset stop) := by
  refine peek.bind fun t? ht => pure ?_
  cases t? with
  | none => exact h.stop
  | some t => exact h.token t (ht t rfl)

theorem unexpected (expected : String) :
    Reads O T Q (Parser.unexpected stop expected : Parser α) := by
  refine peek.bind fun t? ht => ?_
  cases t? with
  | none => exact fail _ h.stop
  | some t => exact fail _ (h.token t (ht t rfl))

theorem expect (p : Token → Bool) (expected : String) :
    Reads O T T (Parser.expect stop p expected) := by
  refine peek.bind fun t? ht => ?_
  cases t? with
  | none => exact unexpected h expected
  | some t =>
      dsimp only
      split
      · exact advance.bind fun _ _ => pure (ht t rfl)
      · exact unexpected h expected

theorem expectName (expected : String) :
    Reads O T (fun t : Token => T t ∧ t.kind = .identifier) (Parser.expectName stop expected) := by
  refine peek.bind fun t? ht => ?_
  cases t? with
  | none => exact unexpected h expected
  | some t =>
      dsimp only
      split
      · rename_i hkind
        exact advance.bind fun _ _ => pure ⟨ht t rfl, hkind⟩
      · exact fail _ (h.token t (ht t rfl))

theorem bracketedName :
    Reads O T (fun name => ∃ t : Token, (T t ∧ t.kind = .identifier) ∧ t.lexeme = name)
      (Parser.bracketedName stop) :=
  (expect h _ _).bind fun _ _ => (expectName h _).bind fun t ht => (expect h _ _).bind fun _ _ =>
    pure ⟨t, ht, rfl⟩

theorem typeRef : Reads O T (fun _ => True) (Parser.typeRef stop) :=
  (expect h _ _).bind fun _ _ => (expectName h _).bind fun _ _ => (expect h _ _).bind fun _ _ =>
    pure trivial

theorem stmtEnd : Reads O T (fun _ => True) Parser.stmtEnd := by
  refine peek.bind fun t? ht => ?_
  cases t? with
  | none => exact pure trivial
  | some t =>
      dsimp only
      split
      · exact advance
      · split
        · exact pure trivial
        · exact fail _ (h.token t (ht t rfl))

theorem params : ∀ fuel, Reads O T (fun _ => True) (Parser.params stop fuel)
  | 0 => pure trivial
  | fuel + 1 => by
      unfold Parser.params
      refine (isNext _).bind fun b _ => ?_
      split
      · exact (bracketedName h).bind fun _ _ => (params fuel).bind fun _ _ => pure trivial
      · exact pure trivial

end Problems

end Reads

-- Properties of expressions, statements and their parts that hold of whatever the parser puts
-- together, in places as `O` says.
structure Builds (O : Nat → Prop) (T : Token → Prop) (E : Expr → Prop) (A : List Expr → Prop)
    (V : VarStmt → Prop) (S : Stmt → Prop) (L : List Stmt → Prop) (B : Branches → Prop) :
    Prop where
  name : ∀ o t, O o → T t → t.kind = .identifier → E (.name ⟨o, .dynamic⟩ t.lexeme)
  literal : ∀ o value, O o → E (.literal ⟨o, .dynamic⟩ value)
  static : ∀ o x args, O o → args ≠ [] → A args → E (.static ⟨o, .dynamic⟩ x args .unresolved)
  member : ∀ o target x args, O o → E target → A args →
    E (.member ⟨o, .dynamic⟩ target x args .unresolved)
  new : ∀ o x args, O o → A args → E (.new ⟨o, .dynamic⟩ x args none)
  binary : ∀ op lhs rhs, E lhs → E rhs → E (.binary ⟨lhs.offset, .dynamic⟩ op lhs rhs)
  unary : ∀ o op operand, O o → E operand → E (.unary ⟨o, .dynamic⟩ op operand)
  cast : ∀ o x operand, O o → E operand → E (.cast ⟨o, .dynamic⟩ x operand)
  noArgs : A []
  args : ∀ first others, E first → A others → A (first :: others)
  declare : ∀ o t value, O o → T t → t.kind = .identifier → E value → V (.declare o t.lexeme value)
  update : ∀ o t change, O o → T t → t.kind = .identifier →
    (∀ op value, change = .compound op value → E value) →
      V (.update o t.lexeme change .dynamic .dynamic)
  uses : ∀ o ns, O o → S (.using o ns)
  input : ∀ o t typeName, O o → T t → t.kind = .identifier → S (.input o t.lexeme typeName .dynamic)
  var : ∀ v, V v → S (.var v)
  cond : ∀ o test body rest, O o → E test → L body → B rest → S (.cond o test body rest)
  whileLoop : ∀ o test body, O o → E test → L body → S (.whileLoop o test body)
  forLoop : ∀ o init test step body, O o → V init → E test → V step → L body →
    S (.forLoop o init test step body)
  eachLoop : ∀ o t source body, O o → T t → t.kind = .identifier → E source → L body →
    S (.eachLoop o t.lexeme source body .unresolved)
  countLoop : ∀ o count body, O o → E count → L body → S (.countLoop o count body)
  leave : ∀ o, O o → S (.leave o)
  again : ∀ o, O o → S (.again o)
  exit : ∀ o, O o → S (.exit o)
  ret : ∀ o value, O o → (∀ e, value = some e → E e) → S (.ret o value)
  func : ∀ o name params body, O o → L body → S (.func o name params body)
  call : ∀ o target, O o → E target → Stmt.IsCall target → S (.call o target)
  assign : ∀ o target value, O o → E target → Stmt.IsCall target → target.args = [] → E value →
    S (.assign o target value)
  noStmts : L []
  stmts : ∀ first others, S first → L others → L (first :: others)
  done : B .done
  otherwise : ∀ body, L body → B (.otherwise body)
  elseIf : ∀ test body rest, E test → L body → B rest → B (.elseIf test body rest)

namespace Reads

variable {O : Nat → Prop} {T : Token → Prop} {E : Expr → Prop} {A : List Expr → Prop}
  {V : VarStmt → Prop} {S : Stmt → Prop} {L : List Stmt → Prop} {B : Branches → Prop} {stop : Nat}

section

variable (h : Builds O T E A V S L B) (hs : Spots O T stop)
include h hs

mutual

-- What is read is put together from parts: the cases follow the grammar, and fuel goes down with
-- each call.
theorem expr : ∀ fuel, Reads O T E (Parser.expr stop fuel)
  | 0 => fail _ hs.stop
  | fuel + 1 => by
      unfold Parser.expr
      refine (unary fuel).bind fun lhs hlhs => peek.bind fun t? _ => ?_
      split
      · exact advance.bind fun _ _ => (expr fuel).bind fun rhs hrhs =>
          pure (h.binary _ _ _ hlhs hrhs)
      · exact pure hlhs

theorem unary : ∀ fuel, Reads O T E (Parser.unary stop fuel)
  | 0 => fail _ hs.stop
  | fuel + 1 => by
      unfold Parser.unary
      refine (offset hs).bind fun start hstart => peek.bind fun t? _ => ?_
      split
      · exact advance.bind fun _ _ => (unary fuel).bind fun e he => pure (h.unary _ _ _ hstart he)
      · exact operand fuel

theorem operand : ∀ fuel, Reads O T E (Parser.operand stop fuel)
  | 0 => fail _ hs.stop
  | fuel + 1 => by
      unfold Parser.operand
      refine peek.bind fun t? ht => ?_
      cases t? with
      | none => exact fail _ hs.stop
      | some t =>
          have hplace : O t.offset := hs.token t (ht t rfl)
          dsimp only
          split
          · exact advance.bind fun _ _ => (expr fuel).bind fun inner hinner =>
              (expect hs _ _).bind fun _ _ => suffixes inner hinner fuel
          · rename_i hkind
            refine advance.bind fun _ _ => ?_
            split
            · exact pure (h.literal _ _ hplace)
            · rename_i hread
              exact fail _ hplace fun _ _ => ⟨t, ht t rfl, hkind, hread⟩
          · exact advance.bind fun _ _ => pure (h.literal _ _ hplace)
          · exact advance.bind fun _ _ => pure (h.literal _ _ hplace)
          · exact advance.bind fun _ _ => pure (h.literal _ _ hplace)
          · exact advance.bind fun _ _ => pure (h.literal _ _ hplace)
          · rename_i hkind
            refine advance.bind fun _ _ => (args fuel).bind fun given hgiven => ?_
            split
            · exact suffixes _ (h.name _ _ hplace (ht t rfl) hkind) fuel
            · rename_i hne
              exact suffixes _ (h.static _ _ _ hplace hne hgiven) fuel
          · split
            · exact advance.bind fun _ _ => (expectName hs _).bind fun _ _ =>
                (args fuel).bind fun given hgiven => suffixes _ (h.new _ _ _ hplace hgiven) fuel
            · split
              · exact (typeRef hs).bind fun _ _ => (operand fuel).bind
                  fun inner hinner => pure (h.cast _ _ _ hplace hinner)
              · exact fail _ hplace

theorem args : ∀ fuel, Reads O T A (Parser.args stop fuel)
  | 0 => pure h.noArgs
  | fuel + 1 => by
      unfold Parser.args
      refine (isNext _).bind fun b _ => ?_
      split
      · exact advance.bind fun _ _ => (expr fuel).bind fun first hfirst =>
          (expect hs _ _).bind fun _ _ => (args fuel).bind fun others hothers =>
            pure (h.args _ _ hfirst hothers)
      · exact pure h.noArgs

theorem suffixes (target : Expr) (htarget : E target) :
    ∀ fuel, Reads O T E (Parser.suffixes stop target fuel)
  | 0 => pure htarget
  | fuel + 1 => by
      unfold Parser.suffixes
      refine (isNext _).bind fun b _ => ?_
      split
      · exact advance.bind fun _ _ => (expectName hs _).bind fun name hname =>
          (args fuel).bind fun given hgiven =>
            suffixes _ (h.member _ _ _ _ (hs.token name hname.1) htarget hgiven) fuel
      · exact pure htarget

end

theorem header (fuel : Nat) : Reads O T E (Parser.header stop fuel) :=
  skipLines.bind fun _ _ => (expr h hs fuel).bind fun _ he => skipLines.bind fun _ _ =>
    (skipKeyword _).bind fun _ _ => pure he

theorem varStmt (fuel : Nat) : Reads O T V (Parser.varStmt stop fuel) := by
  unfold Parser.varStmt
  refine (offset hs).bind fun start hstart => (isNext _).bind fun b _ => ?_
  dsimp only
  split
  · exact refuse _ hstart
  · refine advance.bind fun _ _ => (bracketedName hs).bind fun name hname =>
      (offset hs).bind fun _ hplace => peek.bind fun t? _ => ?_
    obtain ⟨t, ⟨ht, hkind⟩, rfl⟩ := hname
    cases t? with
    | none => exact fail _ hplace
    | some op =>
        dsimp only
        split
        · exact fail _ hplace
        refine advance.bind fun _ _ => ?_
        split
        · exact (expr h hs fuel).bind fun value hvalue =>
            pure (h.declare _ _ _ hstart ht hkind hvalue)
        split
        · exact pure (h.update _ _ _ hstart ht hkind nofun)
        split
        · exact pure (h.update _ _ _ hstart ht hkind nofun)
        split
        · refine (expr h hs fuel).bind fun value hvalue =>
            pure (h.update _ _ _ hstart ht hkind fun _ _ hchange => ?_)
          cases hchange
          exact hvalue
        · exact fail _ hplace

theorem memberStmt (fuel : Nat) : Reads O T S (Parser.memberStmt stop fuel) := by
  unfold Parser.memberStmt
  refine (offset hs).bind fun start hstart => (operand h hs fuel).bind fun target htarget => ?_
  extract_lets assigns rest
  have hrest : ∀ assignable, Stmt.IsCall target → (assignable = true → target.args = []) →
      Reads O T S (rest assignable) := by
    intro assignable hcall hargs
    refine (isNext _).bind fun b _ => ite ?_ ?_
    · refine (offset hs).bind fun _ hplace => advance.bind fun _ _ => ?_
      split
      · exact refuse _ hplace
      · rename_i hassignable
        exact (expr h hs fuel).bind fun value hvalue =>
          pure (h.assign _ _ _ hstart htarget hcall (hargs (by simpa using hassignable)) hvalue)
    · split
      · exact fail _ hstart
      · exact pure (h.call _ _ hstart htarget hcall)
  cases target with
  | name m name => exact hrest true trivial fun _ => rfl
  | static m name given binding => exact hrest given.isEmpty trivial List.isEmpty_iff.mp
  | member m owner name given binding => exact hrest given.isEmpty trivial List.isEmpty_iff.mp
  | new m typeName given binding =>
      -- A constructor is neither assigned to nor does it stand alone.
      change Reads O T S (rest false)
      refine (isNext _).bind fun b _ => ite ?_ (fail _ hstart)
      exact (offset hs).bind fun _ hplace => advance.bind fun _ _ => refuse _ hplace
  | literal m value => exact refuse _ hstart
  | binary m op lhs rhs => exact refuse _ hstart
  | unary m op operand => exact refuse _ hstart
  | cast m typeName operand => exact refuse _ hstart

theorem inputStmt {start : Nat} (hstart : O start) :
    Reads O T S (Parser.inputStmt stop start) := by
  unfold Parser.inputStmt
  refine (isNext _).bind fun b _ => ?_
  extract_lets rest
  have hrest : ∀ typeName, Reads O T S (rest typeName) := by
    intro typeName
    refine (bracketedName hs).bind fun name hname => ?_
    obtain ⟨t, ⟨ht, hkind⟩, rfl⟩ := hname
    exact pure (h.input _ _ _ hstart ht hkind)
  refine ite ?_ (hrest none)
  rw [map_eq_pure_bind, bind_assoc]
  exact (typeRef hs).bind fun ty _ => hrest (some ty)

theorem returnStmt (fuel : Nat) {start : Nat} (hstart : O start) :
    Reads O T S (Parser.returnStmt stop fuel start) := by
  unfold Parser.returnStmt
  refine atStmtEnd.bind fun b _ => ?_
  split
  · exact pure (h.ret _ _ hstart fun _ heq => by cases heq)
  · refine (expr h hs fuel).bind fun value hvalue => pure (h.ret _ _ hstart fun _ heq => ?_)
    cases heq
    exact hvalue

end

mutual

theorem stmt (h : Builds O T E A V S L B) (hs : Spots O T stop) :
    ∀ fuel, Reads O T S (Parser.stmt stop fuel)
  | 0 => fail _ hs.stop
  | fuel + 1 => by
      unfold Parser.stmt
      refine peek.bind fun t? ht => ?_
      cases t? with
      | none => exact unexpected hs _
      | some t =>
          have hplace : O t.offset := hs.token t (ht t rfl)
          refine ite (memberStmt h hs fuel) ?_
          refine ite ?_ ?_
          · exact advance.bind fun _ _ => (expectName hs _).bind fun _ _ =>
              pure (h.uses _ _ hplace)
          refine ite ?_ ?_
          · exact advance.bind fun _ _ => inputStmt h hs hplace
          refine ite ?_ ?_
          · exact (varStmt h hs fuel).bind fun _ hv => pure (h.var _ hv)
          refine ite ?_ ?_
          · exact advance.bind fun _ _ => (header h hs fuel).bind fun test htest =>
              (block h hs _ fuel).bind fun body hbody => (branches h hs fuel).bind
                fun rest hrest => pure (h.cond _ _ _ _ hplace htest hbody hrest)
          refine ite ?_ ?_
          · exact advance.bind fun _ _ => (header h hs fuel).bind fun test htest =>
              (closedBlock h hs fuel).bind fun body hbody =>
                pure (h.whileLoop _ _ _ hplace htest hbody)
          refine ite ?_ ?_
          · exact advance.bind fun _ _ => skipLines.bind fun _ _ => (varStmt h hs fuel).bind
              fun init hinit => skipLines.bind fun _ _ => (expr h hs fuel).bind
                fun test htest => skipLines.bind fun _ _ => (varStmt h hs fuel).bind
                  fun step hstep => skipLines.bind fun _ _ => (skipKeyword _).bind fun _ _ =>
                    (closedBlock h hs fuel).bind fun body hbody =>
                      pure (h.forLoop _ _ _ _ _ hplace hinit htest hstep hbody)
          refine ite ?_ ?_
          · refine advance.bind fun _ _ => skipLines.bind fun _ _ => (bracketedName hs).bind
              fun item hitem => skipLines.bind fun _ _ => (expect hs _ _).bind fun _ _ =>
                (header h hs fuel).bind fun source hsource => (closedBlock h hs fuel).bind
                  fun body hbody => ?_
            obtain ⟨t, ⟨ht, hkind⟩, rfl⟩ := hitem
            exact pure (h.eachLoop _ _ _ _ hplace ht hkind hsource hbody)
          refine ite ?_ ?_
          · exact advance.bind fun _ _ => (header h hs fuel).bind fun count hcount =>
              (closedBlock h hs fuel).bind fun body hbody =>
                pure (h.countLoop _ _ _ hplace hcount hbody)
          refine ite ?_ ?_
          · exact advance.bind fun _ _ => pure (h.leave _ hplace)
          refine ite ?_ ?_
          · exact advance.bind fun _ _ => pure (h.again _ hplace)
          refine ite ?_ ?_
          · exact advance.bind fun _ _ => pure (h.exit _ hplace)
          refine ite ?_ ?_
          · exact advance.bind fun _ _ => returnStmt h hs fuel hplace
          refine ite ?_ (fail _ hplace)
          exact advance.bind fun _ _ => (expectName hs _).bind fun _ _ => (params hs fuel).bind
            fun _ _ => (closedBlock h hs fuel).bind fun body hbody =>
              pure (h.func _ _ _ _ hplace hbody)

theorem block (h : Builds O T E A V S L B) (hs : Spots O T stop) (closers : List String) :
    ∀ fuel, Reads O T L (Parser.block stop closers fuel)
  | 0 => fail _ hs.stop
  | fuel + 1 => by
      unfold Parser.block
      refine skipLines.bind fun _ _ => peek.bind fun t? _ => ?_
      cases t? with
      | none => exact fail _ hs.stop
      | some t =>
          refine ite (pure h.noStmts) ?_
          exact (stmt h hs fuel).bind fun first hfirst => (stmtEnd hs).bind fun _ _ =>
            (block h hs closers fuel).bind fun others hothers => pure (h.stmts _ _ hfirst hothers)

theorem closedBlock (h : Builds O T E A V S L B) (hs : Spots O T stop) :
    ∀ fuel, Reads O T L (Parser.closedBlock stop fuel)
  | 0 => fail _ hs.stop
  | fuel + 1 => by
      unfold Parser.closedBlock
      exact (block h hs _ fuel).bind fun body hbody => (expect hs _ _).bind fun _ _ => pure hbody

theorem branches (h : Builds O T E A V S L B) (hs : Spots O T stop) :
    ∀ fuel, Reads O T B (Parser.branches stop fuel)
  | 0 => fail _ hs.stop
  | fuel + 1 => by
      unfold Parser.branches
      refine peek.bind fun t? _ => ?_
      split
      · exact advance.bind fun _ _ => (header h hs fuel).bind fun test htest =>
          (block h hs _ fuel).bind fun body hbody => (branches h hs fuel).bind
            fun rest hrest => pure (h.elseIf _ _ _ htest hbody hrest)
      · exact advance.bind fun _ _ => (closedBlock h hs fuel).bind fun body hbody =>
          pure (h.otherwise _ hbody)
      · exact (expect hs _ _).bind fun _ _ => pure h.done

end

theorem stmts (h : Builds O T E A V S L B) (hs : Spots O T stop) :
    ∀ fuel, Reads O T L (Parser.stmts stop fuel)
  | 0 => fail _ hs.stop
  | fuel + 1 => by
      unfold Parser.stmts
      refine skipLines.bind fun _ _ => peek.bind fun t? _ => ?_
      cases t? with
      | none => exact pure h.noStmts
      | some t =>
          exact (stmt h hs fuel).bind fun first hfirst => (stmtEnd hs).bind fun _ _ =>
            (stmts h hs fuel).bind fun others hothers => pure (h.stmts _ _ hfirst hothers)

end Reads

-- What holds of a parser holds of what it makes of the tokens of a source.
theorem Reads.runOn {α : Type} {O : Nat → Prop} {T : Token → Prop} {Q : α → Prop}
    {p : Nat → Nat → Parser α} {tokens : List Token}
    (hp : Reads O T Q (p (stopOffset tokens) (fuelFor tokens))) (htokens : ∀ t ∈ tokens, T t) :
    (∀ a, Parser.runOn tokens p = .ok a → Q a) ∧
      ∀ d, Parser.runOn tokens p = .error d → O d.offset ∧ Grounded T d.problem := by
  have hreads := hp (tokens.filter (·.kind ≠ .comment))
    fun t ht => htokens t (List.mem_filter.mp ht).1
  unfold Parser.runOn StateT.run
  cases hrun : p (stopOffset tokens) (fuelFor tokens) (tokens.filter (·.kind ≠ .comment)) with
  | error d =>
      refine ⟨nofun, fun d' h' => ?_⟩
      cases h'
      exact hreads.2 d hrun
  | ok found =>
      refine ⟨fun a ha => ?_, nofun⟩
      cases ha
      exact (hreads.1 found.1 found.2 hrun).2

-- A script that was read from tokens is put together from them.
theorem Reads.script {O : Nat → Prop} {T : Token → Prop} {E : Expr → Prop} {A : List Expr → Prop}
    {V : VarStmt → Prop} {S : Stmt → Prop} {L : List Stmt → Prop} {B : Branches → Prop}
    (h : Builds O T E A V S L B) {tokens : List Token} (hs : Spots O T (stopOffset tokens))
    (htokens : ∀ t ∈ tokens, T t) :
    (∀ script, Script.ofTokens tokens = .ok script → L script) ∧
      ∀ d, Script.ofTokens tokens = .error d → O d.offset ∧ Grounded T d.problem :=
  (stmts h hs (fuelFor tokens)).runOn htokens

end Parser

end HostScript
