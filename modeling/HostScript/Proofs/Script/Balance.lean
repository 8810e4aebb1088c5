import HostScript.Command.Repl
import HostScript.Proofs.Stateful

namespace HostScript

namespace Command.Repl

-- How many brackets and how many blocks a list of tokens leaves open.
def tally (tokens : List Token) : Int × Int :=
  (balance bracketStep tokens, balance blockStep tokens)

def step (t : Token) : Int × Int :=
  (bracketStep t, blockStep t)

variable {f : Token → Int} {t : Token} {tokens : List Token}

theorem balance_cons : balance f (t :: tokens) = f t + balance f tokens := by
  have hadd : ∀ (ts : List Token) (n : Int),
      ts.foldl (fun n t => n + f t) n = n + ts.foldl (fun n t => n + f t) 0 := by
    intro ts
    induction ts with
    | nil => simp
    | cons u rest ih =>
        intro n
        rw [List.foldl_cons, List.foldl_cons, ih, ih (0 + f u)]
        omega
  simp only [balance, List.foldl_cons]
  rw [hadd]
  omega

-- A balance is the difference of two numbers.
theorem balance_eq {p q : Token → Bool}
    (h : ∀ t, f t = (if p t then 1 else 0) - (if q t then 1 else 0)) :
    balance f tokens = tokens.countP p - tokens.countP q := by
  induction tokens with
  | nil => rfl
  | cons t rest ih =>
      rw [balance_cons, ih, h, List.countP_cons, List.countP_cons]
      split <;> split <;> omega

theorem balance_filter {keep : Token → Bool} (h : ∀ t, keep t = false → f t = 0) :
    balance f (tokens.filter keep) = balance f tokens := by
  induction tokens with
  | nil => rfl
  | cons t rest ih =>
      rw [balance_cons, List.filter_cons]
      cases hkeep : keep t with
      | true => simp only [if_true, balance_cons, ih]
      | false => simp [ih, h t hkeep]

theorem tally_cons : tally (t :: tokens) = step t + tally tokens := by
  simp only [tally, balance_cons]
  rfl

theorem tally_nil : tally [] = 0 :=
  rfl

-- Neither a bracket nor a word around a block.
def Flat (t : Token) : Prop :=
  step t = 0

theorem flat_of_kind {kind : Token.Kind} (h : t.kind = kind)
    (hkind : kind ∉ [.keyword, .openBracket, .closedBracket]) : Flat t := by
  have hblock : blockStep t = 0 := by
    simp only [List.mem_cons, not_or] at hkind
    simp [blockStep, Token.isKeyword, h, hkind.1]
  have hbracket : bracketStep t = 0 := by
    unfold bracketStep
    rw [h]
    split
    · simp at hkind
    · simp at hkind
    · rfl
  exact Prod.ext hbracket hblock

theorem step_of_keyword (h : t.kind = .keyword) :
    step t = (0, if t.lexeme ∈ blockKeywords then 1 else if t.lexeme = "end" then -1 else 0) := by
  simp [step, bracketStep, blockStep, Token.isKeyword, h]

theorem step_openBracket (h : t.kind = .openBracket) : step t = (1, 0) := by
  simp [step, bracketStep, blockStep, Token.isKeyword, h]

theorem step_closedBracket (h : t.kind = .closedBracket) : step t = (-1, 0) := by
  simp [step, bracketStep, blockStep, Token.isKeyword, h]

end Command.Repl

namespace Parser

open Command.Repl

-- What a parser does where `pre` holds of the tokens: those it takes leave so many brackets and
-- blocks open, and `post` holds of the others.
def Opens {α : Type} (pre : List Token → Prop) (n : Int × Int) (post : List Token → Prop)
    (p : Parser α) : Prop :=
  ∀ tokens a rest, pre tokens → p tokens = .ok (a, rest) →
    tally tokens = n + tally rest ∧ post rest

namespace Opens

variable {α β : Type} {pre mid post : List Token → Prop} {n n₁ n₂ : Int × Int}

theorem pure {b : β} (h : ∀ tokens, pre tokens → post tokens) :
    Opens pre 0 post (Pure.pure b : Parser β) := by
  intro tokens a rest hpre hrun
  cases pure_ok.mp hrun
  exact ⟨(zero_add _).symm, h _ hpre⟩

theorem fail (problem : Diagnostic.Problem) (offset : Nat) :
    Opens pre n post (Parser.fail problem offset : Parser β) :=
  fun _ _ _ _ hrun => (throw_ok.mp hrun).elim

theorem bind {x : Parser α} {f : α → Parser β} (hn : n₁ + n₂ = n) (hx : Opens pre n₁ mid x)
    (hf : ∀ a, Opens mid n₂ post (f a)) : Opens pre n post (x >>= f) := by
  intro tokens b rest hpre hrun
  obtain ⟨a, ts, hfirst, hrest⟩ := bind_ok.mp hrun
  obtain ⟨htally, hmid⟩ := hx tokens a ts hpre hfirst
  obtain ⟨htally', hpost⟩ := hf a ts b rest hmid hrest
  exact ⟨by rw [htally, htally', ← add_assoc, hn], hpost⟩

theorem ite {c : Prop} [Decidable c] {x y : Parser β} (hx : c → Opens pre n post x)
    (hy : ¬c → Opens pre n post y) : Opens pre n post (if c then x else y) := by
  by_cases h : c
  · rw [if_pos h]
    exact hx h
  · rw [if_neg h]
    exact hy h

theorem imp {pre' post' : List Token → Prop} {x : Parser β} (h : Opens pre n post x)
    (hpre : ∀ ts, pre' ts → pre ts) (hpost : ∀ ts, post ts → post' ts) : Opens pre' n post' x :=
  fun tokens b rest htokens hrun =>
    (h tokens b rest (hpre _ htokens) hrun).imp_right (hpost rest)

theorem anywhere {x : Parser β} (h : Opens (fun _ => True) n post x) : Opens pre n post x :=
  h.imp (fun _ _ => trivial) fun _ => id

-- What is known of the tokens in advance.
theorem given {q : Prop} {x : Parser β} (hq : ∀ tokens, pre tokens → q)
    (h : q → Opens pre n post x) : Opens pre n post x :=
  fun tokens a rest hpre => h (hq tokens hpre) tokens a rest hpre

theorem refuse (problem : Diagnostic.Problem) (offset : Nat) {f : α → Parser β} :
    Opens pre n post (Parser.fail problem offset >>= f) := by
  have hfail : Opens pre 0 (fun _ => False) (Parser.fail problem offset : Parser α) := fail _ _
  exact bind (zero_add n) hfail fun _ _ _ _ hfalse => hfalse.elim

-- A parser that looks at the next token first.
theorem peek {f : Option Token → Parser β}
    (hnone : Opens (fun tokens => pre tokens ∧ tokens = []) n post (f none))
    (hsome : ∀ t, Opens (fun tokens => pre tokens ∧ tokens.head? = some t) n post (f (some t))) :
    Opens pre n post (Parser.peek >>= f) := by
  intro tokens b rest hpre hrun
  obtain ⟨t?, ts, hpeek, hrun⟩ := bind_ok.mp hrun
  obtain ⟨_, _, hget, hpeek⟩ := bind_ok.mp hpeek
  cases get_ok.mp hget
  cases pure_ok.mp hpeek
  cases tokens with
  | nil => exact hnone [] b rest ⟨hpre, rfl⟩ hrun
  | cons t ts => exact hsome t _ b rest ⟨hpre, rfl⟩ hrun

theorem isNext {q : Token → Bool} {f : Bool → Parser β}
    (hyes : ∀ t, q t = true →
      Opens (fun tokens => pre tokens ∧ tokens.head? = some t) n post (f true))
    (hno : Opens pre n post (f false)) : Opens pre n post (Parser.isNext q >>= f) := by
  intro tokens b rest hpre hrun
  obtain ⟨found, ts, hnext, hrun⟩ := bind_ok.mp hrun
  obtain ⟨_, _, hpeek, hnext⟩ := bind_ok.mp hnext
  obtain ⟨_, _, hget, hpeek⟩ := bind_ok.mp hpeek
  cases get_ok.mp hget
  cases pure_ok.mp hpeek
  cases pure_ok.mp hnext
  cases tokens with
  | nil => exact hno [] b rest hpre hrun
  | cons t ts =>
      cases hq : q t with
      | true => exact hyes t hq _ b rest ⟨hpre, rfl⟩ (by simpa [hq] using hrun)
      | false => exact hno _ b rest hpre (by simpa [hq] using hrun)

theorem offset (stop : Nat) : Opens pre 0 pre (Parser.offset stop) :=
  peek (pure fun _ => And.left) fun _ => pure fun _ => And.left

-- The next token is taken.
theorem advance (t : Token) :
    Opens (fun tokens => pre tokens ∧ tokens.head? = some t) (step t) (fun _ => True)
      Parser.advance := by
  intro tokens a rest hpre hrun
  cases modify_ok.mp hrun
  obtain ⟨rest, rfl⟩ := List.head?_eq_some_iff.mp hpre.2
  exact ⟨tally_cons, trivial⟩

theorem take {t : Token} {f : Unit → Parser β} (hn : step t + n₂ = n)
    (hf : ∀ u, Opens (fun _ => True) n₂ post (f u)) :
    Opens (fun tokens => pre tokens ∧ tokens.head? = some t) n post (Parser.advance >>= f) :=
  bind hn (advance t) hf

theorem flat {t : Token} {f : Unit → Parser β} (ht : Flat t)
    (hf : ∀ u, Opens (fun _ => True) n post (f u)) :
    Opens (fun tokens => pre tokens ∧ tokens.head? = some t) n post (Parser.advance >>= f) :=
  take (by rw [show step t = 0 from ht, zero_add]) hf

end Opens

-- The same, whatever comes next and whatever is left.
abbrev Leaves {α : Type} (n : Int × Int) (p : Parser α) : Prop :=
  Opens (fun _ => True) n (fun _ => True) p

namespace Leaves

variable {α β : Type} {n n₁ n₂ : Int × Int} {stop fuel : Nat}

theorem pure {pre : List Token → Prop} {b : β} :
    Opens pre 0 (fun _ => True) (Pure.pure b : Parser β) :=
  Opens.pure fun _ _ => trivial

-- A part that leaves nothing open, in front of another one.
theorem first {post : List Token → Prop} {x : Parser α} {f : α → Parser β} (hx : Leaves 0 x)
    (hf : ∀ a, Opens (fun _ => True) n post (f a)) : Opens (fun _ => True) n post (x >>= f) :=
  Opens.bind (zero_add n) hx hf

theorem skipLines : Leaves 0 Parser.skipLines := by
  intro tokens a rest _ hrun
  cases modify_ok.mp hrun
  refine ⟨?_, trivial⟩
  rw [zero_add]
  clear hrun
  induction tokens with
  | nil => rfl
  | cons t ts ih =>
      rw [List.dropWhile_cons]
      split
      · rename_i hkind
        have hflat : Flat t := flat_of_kind (by simpa using hkind) (by decide)
        rw [tally_cons, hflat, zero_add]
        exact ih
      · rfl

theorem unexpected (stop : Nat) (expected : String) :
    Leaves n (Parser.unexpected stop expected : Parser α) :=
  Opens.peek (Opens.fail _ _) fun _ => Opens.fail _ _

theorem expect (stop : Nat) {q : Token → Bool} (expected : String)
    (hq : ∀ t, q t = true → step t = n) : Leaves n (Parser.expect stop q expected) := by
  refine Opens.peek (unexpected stop expected).anywhere fun t => ?_
  refine Opens.ite (fun h => ?_) fun _ => (unexpected stop expected).anywhere
  exact Opens.take (by rw [hq t h, add_zero]) fun _ => pure

theorem expectKind (stop : Nat) {kind : Token.Kind} (expected : String)
    (hq : ∀ t : Token, t.kind = kind → step t = n) :
    Leaves n (Parser.expectKind stop kind expected) :=
  expect stop expected fun t h => hq t (by simpa using h)

theorem expectName (stop : Nat) (expected : String) :
    Leaves 0 (Parser.expectName stop expected) := by
  refine Opens.peek (unexpected stop expected).anywhere fun t => ?_
  refine Opens.ite (fun h => ?_) fun _ => Opens.fail _ _
  exact Opens.flat (flat_of_kind h (by decide)) fun _ => pure

theorem flat_of_isOperator {t : Token} {op : String} (h : t.isOperator op = true) : Flat t := by
  simp only [Token.isOperator, Bool.and_eq_true, decide_eq_true_eq] at h
  exact flat_of_kind h.1 (by decide)

theorem step_of_isKeyword {t : Token} {word : String} (h : t.isKeyword word = true) :
    step t = (0, if word ∈ blockKeywords then 1 else if word = "end" then -1 else 0) := by
  simp only [Token.isKeyword, Bool.and_eq_true, decide_eq_true_eq] at h
  rw [step_of_keyword h.1, h.2]

theorem skipDo : Leaves 0 (Parser.skipKeyword "do") :=
  Opens.isNext (fun t h => by
    have hflat : step t = 0 := step_of_isKeyword h
    exact hflat ▸ Opens.advance t) pure

-- What stands in brackets leaves nothing open.
theorem bracketed {x : Parser α} {f : α → Parser β} {t : Token} {expected : String}
    {pre : List Token → Prop} (ht : t.kind = .openBracket) (hx : Leaves 0 x)
    (hf : ∀ a, Leaves n (f a)) :
    Opens (fun tokens => pre tokens ∧ tokens.head? = some t) n (fun _ => True) (do
      Parser.advance
      let a ← x
      let _ ← Parser.expectKind stop .closedBracket expected
      f a) := by
  have hn : step t + ((-1, 0) + n) = n := by
    rw [step_openBracket ht, ← add_assoc]
    exact zero_add n
  exact Opens.take hn fun _ => first hx fun a =>
    Opens.bind rfl (expectKind stop expected fun _ => step_closedBracket) fun _ => hf a

theorem bracketedName (stop : Nat) : Leaves 0 (Parser.bracketedName stop) := by
  have hn : ((1, 0) : Int × Int) + (-1, 0) = 0 := rfl
  exact Opens.bind hn (expectKind stop _ fun _ => step_openBracket) fun _ =>
    first (expectName stop _) fun _ =>
      Opens.bind rfl (expectKind stop _ fun _ => step_closedBracket) fun _ => pure

theorem typeRef (stop : Nat) : Leaves 0 (Parser.typeRef stop) :=
  first (expect stop _ fun _ => flat_of_isOperator) fun _ => first (expectName stop _) fun _ =>
    first (expect stop _ fun _ => flat_of_isOperator) fun _ => pure

theorem atStmtEnd : Leaves 0 Parser.atStmtEnd :=
  Opens.peek pure fun _ => pure

theorem stmtEnd : Leaves 0 Parser.stmtEnd := by
  refine Opens.peek pure fun t => ?_
  refine Opens.ite (fun h => ?_) fun _ => Opens.ite (fun _ => pure) fun _ => Opens.fail _ _
  have hflat : step t = 0 := flat_of_kind h (by decide)
  exact hflat ▸ Opens.advance t

theorem params (stop fuel : Nat) : Leaves 0 (Parser.params stop fuel) := by
  induction fuel with
  | zero => exact pure
  | succ fuel ih =>
      unfold Parser.params
      refine Opens.isNext (fun t _ => ?_) pure
      exact Opens.anywhere (first (bracketedName stop) fun _ => first ih fun _ => pure)

theorem flat_of_unaryOp {t : Token} {op : UnaryOp} (h : unaryOp? t = some op) : Flat t := by
  unfold unaryOp? at h
  split at h
  · exact flat_of_isOperator (by assumption)
  · split at h
    · rename_i hnot
      rcases Bool.or_eq_true_iff.mp hnot with h | h
      · exact flat_of_isOperator h
      · exact flat_of_isOperator h
    · cases h

theorem flat_of_binaryOp {t : Token} {op : BinaryOp} (h : binaryOp? t = some op) : Flat t := by
  unfold binaryOp? at h
  split at h
  · rename_i hkind
    exact flat_of_kind hkind (by decide)
  · cases h

mutual

-- An expression takes as many opening as closing brackets, and no words around blocks.
theorem expr (stop : Nat) : ∀ fuel, Leaves 0 (Parser.expr stop fuel)
  | 0 => Opens.fail _ _
  | fuel + 1 => by
      unfold Parser.expr
      refine first (unary stop fuel) fun lhs => Opens.peek pure fun t => ?_
      dsimp only [Option.bind]
      split
      · rename_i op hop
        exact Opens.flat (flat_of_binaryOp hop) fun _ => first (expr stop fuel) fun _ => pure
      · exact pure

theorem unary (stop : Nat) : ∀ fuel, Leaves 0 (Parser.unary stop fuel)
  | 0 => Opens.fail _ _
  | fuel + 1 => by
      unfold Parser.unary
      refine first (Opens.offset stop) fun start =>
        Opens.peek (operand stop fuel).anywhere fun t => ?_
      dsimp only [Option.bind]
      split
      · rename_i op hop
        exact Opens.flat (flat_of_unaryOp hop) fun _ => first (unary stop fuel) fun _ => pure
      · exact (operand stop fuel).anywhere

theorem operand (stop : Nat) : ∀ fuel, Leaves 0 (Parser.operand stop fuel)
  | 0 => Opens.fail _ _
  | fuel + 1 => by
      unfold Parser.operand
      refine Opens.peek (Opens.fail _ _) fun t => ?_
      dsimp only
      split
      · rename_i hkind
        exact bracketed hkind (expr stop fuel) fun inner => suffixes stop inner fuel
      · rename_i hkind
        refine Opens.flat (flat_of_kind hkind (by decide))
          fun _ => ?_
        split
        · exact pure
        · exact Opens.fail _ _
      · rename_i hkind
        exact Opens.flat (flat_of_kind hkind (by decide))
          fun _ => pure
      · rename_i hkind
        exact Opens.flat (flat_of_kind hkind (by decide))
          fun _ => pure
      · rename_i hkind
        exact Opens.flat (flat_of_kind hkind (by decide))
          fun _ => pure
      · rename_i hkind
        exact Opens.flat (flat_of_kind hkind (by decide))
          fun _ => pure
      · rename_i hkind
        refine Opens.flat (flat_of_kind hkind (by decide))
          fun _ => first (args stop fuel) fun given => ?_
        split
        · exact suffixes stop _ fuel
        · exact suffixes stop _ fuel
      · refine Opens.ite (fun hnew => ?_) fun _ => Opens.ite (fun _ => ?_) fun _ => Opens.fail _ _
        · exact Opens.flat (step_of_isKeyword hnew) fun _ => first (expectName stop _) fun _ =>
            first (args stop fuel) fun _ => suffixes stop _ fuel
        · exact Opens.anywhere (first (typeRef stop) fun _ =>
            first (operand stop fuel) fun _ => pure)

theorem args (stop : Nat) : ∀ fuel, Leaves 0 (Parser.args stop fuel)
  | 0 => pure
  | fuel + 1 => by
      unfold Parser.args
      refine Opens.isNext (fun t hopen => ?_) pure
      exact bracketed (by simpa using hopen) (expr stop fuel) fun _ =>
        first (args stop fuel) fun _ => pure

theorem suffixes (stop : Nat) (target : Expr) : ∀ fuel, Leaves 0 (Parser.suffixes stop target fuel)
  | 0 => pure
  | fuel + 1 => by
      unfold Parser.suffixes
      refine Opens.isNext (fun t hcolon => ?_) pure
      have hkind : t.kind = .colon := by simpa using hcolon
      exact Opens.flat (flat_of_kind hkind (by decide))
        fun _ => first (expectName stop _) fun _ => first (args stop fuel) fun _ =>
          suffixes stop _ fuel

end

theorem header (stop fuel : Nat) : Leaves 0 (Parser.header stop fuel) :=
  first skipLines fun _ => first (expr stop fuel) fun _ => first skipLines fun _ =>
    first skipDo fun _ => pure

theorem varStmt (stop fuel : Nat) : Leaves 0 (Parser.varStmt stop fuel) := by
  unfold Parser.varStmt
  refine first (Opens.offset stop) fun start => Opens.isNext (fun t hvar => ?_) (Opens.refuse _ _)
  have hflat : Flat t := step_of_isKeyword hvar
  refine Opens.flat hflat fun _ => first (bracketedName stop) fun name =>
    first (Opens.offset stop) fun _ => Opens.peek (Opens.fail _ _) fun op => ?_
  refine Opens.ite (fun _ => Opens.fail _ _) fun hkind => ?_
  have hkind : op.kind = .operator := by simpa using hkind
  refine Opens.flat (flat_of_kind hkind (by decide)) fun _ => ?_
  refine Opens.ite (fun _ => first (expr stop fuel) fun _ => pure) fun _ => ?_
  refine Opens.ite (fun _ => pure) fun _ => Opens.ite (fun _ => pure) fun _ => ?_
  split
  · exact first (expr stop fuel) fun _ => pure
  · exact Opens.fail _ _

theorem memberStmt (stop fuel : Nat) : Leaves 0 (Parser.memberStmt stop fuel) := by
  unfold Parser.memberStmt
  refine first (Opens.offset stop) fun start => first (operand stop fuel) fun target => ?_
  extract_lets assigns rest
  have hrest : ∀ assignable, Leaves 0 (rest assignable) := by
    intro assignable
    refine Opens.isNext (fun t hassign => ?_) ?_
    · refine Opens.bind (zero_add 0) (Opens.offset stop) fun _ =>
        Opens.flat (flat_of_isOperator hassign) fun _ => ?_
      exact Opens.ite (fun _ => Opens.refuse _ _) fun _ => first (expr stop fuel) fun _ => pure
    · refine Opens.ite nofun fun _ => ?_
      split
      · exact Opens.fail _ _
      · exact pure
  cases target with
  | name m name => exact hrest true
  | static m name given binding => exact hrest given.isEmpty
  | member m owner name given binding => exact hrest given.isEmpty
  | new m typeName given binding => exact hrest false
  | literal m value => exact Opens.refuse _ _
  | binary m op lhs rhs => exact Opens.refuse _ _
  | unary m op operand => exact Opens.refuse _ _
  | cast m typeName operand => exact Opens.refuse _ _

theorem inputStmt (stop start : Nat) : Leaves 0 (Parser.inputStmt stop start) := by
  unfold Parser.inputStmt
  refine Opens.isNext (fun t _ => Opens.anywhere ?_) ?_
  · simp only [if_true, map_eq_pure_bind, bind_assoc, pure_bind]
    exact first (typeRef stop) fun _ => first (bracketedName stop) fun _ => pure
  · exact first pure fun _ => first (bracketedName stop) fun _ => pure

theorem returnStmt (stop fuel start : Nat) : Leaves 0 (Parser.returnStmt stop fuel start) := by
  unfold Parser.returnStmt
  refine first atStmtEnd fun _ => ?_
  exact Opens.ite (fun _ => pure) fun _ => first (expr stop fuel) fun _ => pure

-- A word that opens a block, and what closes it again.
theorem opening {t : Token} {f : Unit → Parser β} {pre : List Token → Prop} {word : String}
    (hkind : t.kind = .keyword) (hword : t.lexeme = word) (hopens : word ∈ blockKeywords)
    (hf : ∀ u, Leaves (0, -1) (f u)) :
    Opens (fun tokens => pre tokens ∧ tokens.head? = some t) 0 (fun _ => True)
      (Parser.advance >>= f) := by
  refine Opens.take ?_ hf
  rw [step_of_keyword hkind, hword, if_pos hopens]
  rfl

-- A word that stands around no block.
theorem flat_of_keyword {t : Token} {word : String} (hkind : t.kind = .keyword)
    (hword : t.lexeme = word) (hnot : word ∉ blockKeywords) (hend : word ≠ "end") : Flat t := by
  have hstep := step_of_keyword hkind
  rw [hword, if_neg hnot, if_neg hend] at hstep
  exact hstep

theorem expectEnd (stop : Nat) : Leaves (0, -1) (Parser.expectKeyword stop "end") :=
  expect stop _ fun _ => step_of_isKeyword

-- One of these words comes next.
def Closers (closers : List String) (tokens : List Token) : Prop :=
  ∃ t, tokens.head? = some t ∧ t.kind = .keyword ∧ t.lexeme ∈ closers

mutual

-- A statement closes all blocks that it opens.
theorem stmt (stop : Nat) : ∀ fuel, Leaves 0 (Parser.stmt stop fuel)
  | 0 => Opens.fail _ _
  | fuel + 1 => by
      unfold Parser.stmt
      refine Opens.peek (unexpected stop _).anywhere fun t => ?_
      refine Opens.ite (fun _ => (memberStmt stop fuel).anywhere) fun hword => ?_
      have hkind : t.kind = .keyword := by
        simp only [Bool.or_eq_true, decide_eq_true_eq, not_or, not_not] at hword
        exact hword.1
      refine Opens.ite (fun h => ?_) fun _ => ?_
      · exact Opens.flat (flat_of_keyword hkind h (by decide) (by decide)) fun _ =>
          first (expectName stop _) fun _ => pure
      refine Opens.ite (fun h => ?_) fun _ => ?_
      · exact Opens.flat (flat_of_keyword hkind h (by decide) (by decide)) fun _ =>
          inputStmt stop _
      refine Opens.ite (fun h => ?_) fun _ => ?_
      · exact Opens.anywhere (first (varStmt stop fuel) fun _ => pure)
      refine Opens.ite (fun h => ?_) fun _ => ?_
      · exact opening hkind h (by decide) fun _ => first (header stop fuel) fun _ =>
          Opens.bind (zero_add _) (block stop _ fuel) fun _ =>
            Opens.bind (add_zero _) (branches stop fuel) fun _ => pure
      refine Opens.ite (fun h => ?_) fun _ => ?_
      · exact opening hkind h (by decide) fun _ => first (header stop fuel) fun _ =>
          Opens.bind (add_zero _) (closedBlock stop fuel) fun _ => pure
      refine Opens.ite (fun h => ?_) fun _ => ?_
      · exact opening hkind h (by decide) fun _ => first skipLines fun _ =>
          first (varStmt stop fuel) fun _ => first skipLines fun _ => first (expr stop fuel)
            fun _ => first skipLines fun _ => first (varStmt stop fuel) fun _ =>
              first skipLines fun _ => first skipDo fun _ =>
                Opens.bind (add_zero _) (closedBlock stop fuel) fun _ => pure
      refine Opens.ite (fun h => ?_) fun _ => ?_
      · exact opening hkind h (by decide) fun _ => first skipLines fun _ =>
          first (bracketedName stop) fun _ => first skipLines fun _ =>
            first (expect stop _ fun _ => step_of_isKeyword) fun _ => first (header stop fuel)
              fun _ => Opens.bind (add_zero _) (closedBlock stop fuel) fun _ => pure
      refine Opens.ite (fun h => ?_) fun _ => ?_
      · exact opening hkind h (by decide) fun _ => first (header stop fuel) fun _ =>
          Opens.bind (add_zero _) (closedBlock stop fuel) fun _ => pure
      refine Opens.ite (fun h => ?_) fun _ => ?_
      · exact Opens.flat (flat_of_keyword hkind h (by decide) (by decide)) fun _ => pure
      refine Opens.ite (fun h => ?_) fun _ => ?_
      · exact Opens.flat (flat_of_keyword hkind h (by decide) (by decide)) fun _ => pure
      refine Opens.ite (fun h => ?_) fun _ => ?_
      · exact Opens.flat (flat_of_keyword hkind h (by decide) (by decide)) fun _ => pure
      refine Opens.ite (fun h => ?_) fun _ => ?_
      · exact Opens.flat (flat_of_keyword hkind h (by decide) (by decide)) fun _ =>
          returnStmt stop fuel _
      refine Opens.ite (fun h => ?_) fun _ => Opens.fail _ _
      exact opening hkind h (by decide) fun _ => first (expectName stop _) fun _ =>
        first (params stop fuel) fun _ =>
          Opens.bind (add_zero _) (closedBlock stop fuel) fun _ => pure

-- The statements of a block end in front of a word that closes it.
theorem block (stop : Nat) (closers : List String) :
    ∀ fuel, Opens (fun _ => True) 0 (Closers closers) (Parser.block stop closers fuel)
  | 0 => Opens.fail _ _
  | fuel + 1 => by
      unfold Parser.block
      refine first skipLines fun _ => Opens.peek (Opens.fail _ _) fun t => ?_
      refine Opens.ite (fun h => Opens.pure fun tokens hhead => ⟨t, hhead.2, ?_⟩) fun _ => ?_
      · simpa using h
      · exact Opens.anywhere (first (stmt stop fuel) fun _ => first stmtEnd fun _ =>
          Opens.bind (zero_add 0) (block stop closers fuel) fun _ => Opens.pure fun _ => id)

theorem closedBlock (stop : Nat) : ∀ fuel, Leaves (0, -1) (Parser.closedBlock stop fuel)
  | 0 => Opens.fail _ _
  | fuel + 1 => by
      unfold Parser.closedBlock
      exact Opens.bind (zero_add _) (block stop _ fuel) fun _ =>
        Opens.bind (add_zero _) (expectEnd stop).anywhere fun _ => pure

theorem branches (stop : Nat) : ∀ fuel, Opens (Closers ["elseif", "else", "end"]) (0, -1)
    (fun _ => True) (Parser.branches stop fuel)
  | 0 => Opens.fail _ _
  | fuel + 1 => by
      unfold Parser.branches
      have hlast : Leaves (0, -1) (do
          let _ ← Parser.expectKeyword stop "end"
          return .done : Parser Branches) :=
        Opens.bind (add_zero _) (expectEnd stop) fun _ => pure
      refine Opens.peek hlast.anywhere fun t =>
        Opens.given (q := t.kind = .keyword) ?_ fun hkind => ?_
      · -- Another kind of token could have such a lexeme, and be a bracket.
        rintro tokens ⟨⟨u, hu, hkind, -⟩, ht⟩
        cases hu.symm.trans ht
        exact hkind
      dsimp only [Option.map]
      split
      · rename_i h
        exact Opens.flat (flat_of_keyword hkind (Option.some.inj h) (by decide) (by decide))
          fun _ => first (header stop fuel) fun _ => Opens.bind (zero_add _) (block stop _ fuel)
            fun _ => Opens.bind (add_zero _) (branches stop fuel) fun _ => pure
      · rename_i h
        exact Opens.flat (flat_of_keyword hkind (Option.some.inj h) (by decide) (by decide))
          fun _ => Opens.bind (add_zero _) (closedBlock stop fuel) fun _ => pure
      · exact hlast.anywhere

end

-- The statements of a script leave nothing.
theorem stmts (stop : Nat) :
    ∀ fuel, Opens (fun _ => True) 0 (· = []) (Parser.stmts stop fuel)
  | 0 => Opens.fail _ _
  | fuel + 1 => by
      unfold Parser.stmts
      refine first skipLines fun _ => Opens.peek (Opens.pure fun _ => And.right) fun t => ?_
      exact Opens.anywhere (first (stmt stop fuel) fun _ => first stmtEnd fun _ =>
        Opens.bind (zero_add 0) (stmts stop fuel) fun _ => Opens.pure fun _ => id)

end Leaves

end Parser

namespace Command.Repl

-- Every bracket and every block is closed, and no other one.
structure Balanced (tokens : List Token) : Prop where
  brackets : tokens.countP (·.kind = .openBracket) = tokens.countP (·.kind = .closedBracket)
  blocks : tokens.countP (fun t => t.kind = .keyword && blockKeywords.contains t.lexeme) =
    tokens.countP (·.isKeyword "end")

variable {tokens : List Token}

theorem balanced_iff : Balanced tokens ↔ tally tokens = 0 := by
  have hbrackets : balance bracketStep tokens = tokens.countP (·.kind = .openBracket) -
      tokens.countP (·.kind = .closedBracket) := by
    refine balance_eq fun t => ?_
    unfold bracketStep
    cases t.kind <;> simp
  have hblocks : balance blockStep tokens =
      tokens.countP (fun t => t.kind = .keyword && blockKeywords.contains t.lexeme) -
        tokens.countP (·.isKeyword "end") := by
    refine balance_eq fun t => ?_
    unfold blockStep
    by_cases hend : t.isKeyword "end" = true
    · simp_all [Token.isKeyword, blockKeywords]
    · simp [hend]
  rw [tally, Prod.mk_eq_zero, hbrackets, hblocks]
  constructor
  · exact fun h => ⟨by rw [h.brackets, sub_self], by rw [h.blocks, sub_self]⟩
  · exact fun h => ⟨by have := h.1; omega, by have := h.2; omega⟩

-- Comments are passed over, and so are they when brackets and blocks are counted.
theorem tally_filter : tally (tokens.filter (·.kind ≠ .comment)) = tally tokens := by
  have hcomment : ∀ t : Token, decide (t.kind ≠ .comment) = false → t.kind = .comment := by simp
  refine Prod.ext (balance_filter fun t h => ?_) (balance_filter fun t h => ?_)
  · simp [bracketStep, hcomment t h]
  · simp [blockStep, Token.isKeyword, hcomment t h]

-- All tokens that make a script are balanced.
theorem balanced_of_tokens {s : Script} (h : Script.ofTokens tokens = .ok s) : Balanced tokens := by
  rw [balanced_iff, ← tally_filter]
  unfold Script.ofTokens Parser.runOn at h
  cases hrun : (Parser.stmts (Parser.stopOffset tokens) (Parser.fuelFor tokens)).run
      (tokens.filter (·.kind ≠ .comment)) with
  | error d =>
      rw [hrun] at h
      cases h
  | ok found =>
      obtain ⟨htally, hrest⟩ := Parser.Leaves.stmts _ _ _ found.1 found.2 trivial hrun
      rw [htally, hrest, tally_nil, add_zero]

-- A text that is a script is complete.
theorem isComplete_of_parse {source : String} {s : Script} (h : Script.parse source = .ok s) :
    isComplete source = true ∧ ∃ tokens, Token.scan source = .ok tokens ∧ Balanced tokens := by
  obtain ⟨tokens, hscan, hparse⟩ := except_bind_ok.mp h
  have hbalanced := balanced_of_tokens hparse
  refine ⟨?_, tokens, hscan, hbalanced⟩
  have htally := Prod.mk_eq_zero.mp (balanced_iff.mp hbalanced)
  simp [isComplete, hscan, htally.1, htally.2]

-- Blocks inside blocks, with brackets of all kinds.
def nesting : String :=
  "foreach [x] in [list [1] [[2] + [3]]] do\n if x:size > [2]\n  print [x]\n else exit\n end\nend"

theorem nesting_complete : ∃ s, Script.parse nesting = .ok s ∧ isComplete nesting = true ∧
    ∃ tokens, Token.scan nesting = .ok tokens ∧ Balanced tokens := by
  have hparses : (Script.parse nesting).isOk = true := by decide +kernel
  cases hparse : Script.parse nesting with
  | error d => simp [hparse, Except.isOk, Except.toBool] at hparses
  | ok s => exact ⟨s, rfl, isComplete_of_parse hparse⟩

end Command.Repl

end HostScript
