import HostScript.Proofs.Script.Rendering

namespace HostScript

-- Tokens written as asked, one for each piece. Where they stand is left open.
def FitAll (pieces : List Piece) (tokens : List Token) : Prop :=
  List.Forall₂ Piece.Fits pieces tokens

namespace Piece

theorem fits_fixed {kind : Token.Kind} {lexeme : String} {t : Token} :
    (fixed kind lexeme).Fits t ↔ ∃ offset, t = ⟨lexeme, kind, offset⟩ := by
  obtain ⟨l, k, offset⟩ := t
  constructor
  · rintro ⟨rfl, rfl⟩
    exact ⟨offset, rfl⟩
  · rintro ⟨offset', h⟩
    cases h
    exact ⟨rfl, rfl⟩

end Piece

theorem fitAll_nil {ts : List Token} : FitAll [] ts ↔ ts = [] :=
  List.forall₂_nil_left_iff

theorem fitAll_cons {p : Piece} {ps : List Piece} {ts : List Token} :
    FitAll (p :: ps) ts ↔ ∃ t rest, p.Fits t ∧ FitAll ps rest ∧ ts = t :: rest :=
  List.forall₂_cons_left_iff

theorem fitAll_fixed {kind : Token.Kind} {lexeme : String} {ps : List Piece} {ts : List Token} :
    FitAll (.fixed kind lexeme :: ps) ts ↔
      ∃ offset rest, FitAll ps rest ∧ ts = ⟨lexeme, kind, offset⟩ :: rest := by
  rw [fitAll_cons]
  constructor
  · rintro ⟨t, rest, ht, hrest, rfl⟩
    obtain ⟨offset, rfl⟩ := Piece.fits_fixed.mp ht
    exact ⟨offset, rest, hrest, rfl⟩
  · rintro ⟨offset, rest, hrest, rfl⟩
    exact ⟨_, rest, Piece.fits_fixed.mpr ⟨offset, rfl⟩, hrest, rfl⟩

theorem fitAll_append {ps qs : List Piece} {ts : List Token} :
    FitAll (ps ++ qs) ts ↔ ∃ before after, FitAll ps before ∧ FitAll qs after ∧
      ts = before ++ after := by
  induction ps generalizing ts with
  | nil => simp [fitAll_nil]
  | cons p ps ih =>
      rw [List.cons_append, fitAll_cons]
      constructor
      · rintro ⟨t, rest, ht, hrest, rfl⟩
        obtain ⟨before, after, hbefore, hafter, rfl⟩ := ih.mp hrest
        exact ⟨t :: before, after, .cons ht hbefore, hafter, rfl⟩
      · rintro ⟨before, after, hbefore, hafter, rfl⟩
        obtain ⟨t, rest, ht, hrest, rfl⟩ := fitAll_cons.mp hbefore
        exact ⟨t, rest ++ after, ht, ih.mpr ⟨rest, after, hrest, hafter, rfl⟩, rfl⟩

theorem fitAll_inBrackets {ps qs : List Piece} {ts : List Token} :
    FitAll (Piece.inBrackets ps ++ qs) ts ↔ ∃ o inner c after, FitAll ps inner ∧ FitAll qs after ∧
      ts = ⟨"[", .openBracket, o⟩ :: inner ++ ⟨"]", .closedBracket, c⟩ :: after := by
  simp only [Piece.inBrackets, Piece.opening, Piece.closing, List.cons_append, List.append_assoc,
    List.nil_append, fitAll_fixed, fitAll_append]
  constructor
  · rintro ⟨o, _, ⟨inner, _, hinner, ⟨c, after, hafter, rfl⟩, rfl⟩, rfl⟩
    exact ⟨o, inner, c, after, hinner, hafter, rfl⟩
  · rintro ⟨o, inner, c, after, hinner, hafter, rfl⟩
    exact ⟨o, _, ⟨inner, _, hinner, ⟨c, after, hafter, rfl⟩, rfl⟩, rfl⟩

theorem filter_comments {ps : List Piece} {tokens : List Token} (hps : Speak ps)
    (h : FitAll ps tokens) :
    tokens.filter (·.kind ≠ .comment) = tokens := by
  induction h with
  | nil => rfl
  | @cons p t ps tokens hfits hrest ih =>
      obtain ⟨hp, hps⟩ := speak_cons.mp hps
      have ht : t.kind ≠ .comment := by
        cases p with
        | fixed kind lexeme => exact hfits.1 ▸ hp
        | number value => simp [hfits.1]
      rw [List.filter_cons_of_pos (by simpa using ht), ih hps]

namespace Parser

variable {α β : Type} {s s₁ s₂ : List Token} {Q : α → Prop} {R : β → Prop} {stop : Nat}

-- Reading from `s` leads to `s'` and gives an answer as `Q` says.
def Yields (p : Parser α) (s s' : List Token) (Q : α → Prop) : Prop :=
  ∃ a, p s = .ok (a, s') ∧ Q a

theorem Yields.pure {a : α} (h : Q a) : Yields (Pure.pure a) s s Q :=
  ⟨a, rfl, h⟩

theorem Yields.bind {x : Parser α} {f : α → Parser β} (hx : Yields x s s₁ Q)
    (hf : ∀ a, Q a → Yields (f a) s₁ s₂ R) : Yields (x >>= f) s s₂ R := by
  obtain ⟨a, ha, hq⟩ := hx
  obtain ⟨b, hb, hr⟩ := hf a hq
  exact ⟨b, bind_ok.mpr ⟨a, s₁, ha, hb⟩, hr⟩

-- Looking ahead and taking a token: the rest of the work goes on from there.
theorem Yields.offset {f : Nat → Parser β}
    (h : Yields (f ((s.head?.map Token.offset).getD stop)) s s₁ R) :
    Yields (Parser.offset stop >>= f) s s₁ R :=
  h

theorem Yields.peek {f : Option Token → Parser β} (h : Yields (f s.head?) s s₁ R) :
    Yields (Parser.peek >>= f) s s₁ R :=
  h

theorem Yields.advance {f : Unit → Parser β} (h : Yields (f ()) s.tail s₁ R) :
    Yields (Parser.advance >>= f) s s₁ R :=
  h

theorem expect_yields {p : Token → Bool} {t : Token} (expected : String) (hp : p t = true) :
    Yields (expect stop p expected) (t :: s) s (· = t) :=
  ⟨t, by simp [expect, peek, advance, hp, bind, StateT.bind, get, getThe, MonadStateOf.get,
    StateT.get, modify, modifyGet, MonadStateOf.modifyGet, StateT.modifyGet, pure, StateT.pure,
    Except.pure, Except.bind], rfl⟩

-- The next token, if there is one, is not of that kind.
def Lacks (kind : Token.Kind) (s : List Token) : Prop :=
  ∀ t, s.head? = some t → t.kind ≠ kind

theorem isNext_lacks {kind : Token.Kind} (h : Lacks kind s) (f : Bool → Parser β) :
    (isNext (·.kind = kind) >>= f) s = f false s := by
  cases s with
  | nil => rfl
  | cons t rest =>
      have hkind : decide (t.kind = kind) = false := by simpa using h t rfl
      change f (decide (t.kind = kind)) (t :: rest) = _
      rw [hkind]

-- What may follow an operand, and what may follow an expression.
def Closes (s : List Token) : Prop :=
  Lacks .openBracket s ∧ Lacks .colon s

def Stops (s : List Token) : Prop :=
  Closes s ∧ s.head?.bind binaryOp? = none

-- Tokens that are read as an expression, whatever follows, if it is given fuel enough for them. The
-- three parsers call each other in this order before one of them takes a token.
def ReadsExpr (e : Expr) (ts : List Token) : Prop :=
  ∀ stop fuel rest, 3 * ts.length ≤ fuel → Stops rest →
    Yields (expr stop fuel) (ts ++ rest) rest (·.unplaced = e.unplaced)

def ReadsUnary (e : Expr) (ts : List Token) : Prop :=
  ∀ stop fuel rest, 3 * ts.length ≤ fuel + 1 → Closes rest →
    Yields (unary stop fuel) (ts ++ rest) rest (·.unplaced = e.unplaced)

def ReadsOperand (e : Expr) (ts : List Token) : Prop :=
  ∀ stop fuel rest, 3 * ts.length ≤ fuel + 2 → Closes rest →
    Yields (operand stop fuel) (ts ++ rest) rest (·.unplaced = e.unplaced)

def ReadsArgs (es : List Expr) (ts : List Token) : Prop :=
  ∀ stop fuel rest, 3 * ts.length ≤ fuel → Lacks .openBracket rest →
    Yields (args stop fuel) (ts ++ rest) rest (Expr.unplacedAll · = Expr.unplacedAll es)

theorem suffixes_none (target : Expr) (fuel : Nat) (h : Lacks .colon s) :
    suffixes stop target fuel s = .ok (target, s) := by
  cases fuel with
  | zero => rfl
  | succ fuel =>
      unfold suffixes
      rw [isNext_lacks h]
      rfl

variable {e e' target : Expr} {es : List Expr} {ts ts' rest : List Token} {offset fuel : Nat}

-- One member behind a target.
theorem suffixes_member {x : String} {o o' : Nat} (hargs : ReadsArgs es ts)
    (hfuel : 3 * ts.length ≤ fuel) (hrest : Closes rest) (htarget : e'.unplaced = target.unplaced)
    {m : Mark} (hty : m.ty = .dynamic) :
    Yields (suffixes stop e' (fuel + 1))
      (⟨":", .colon, o⟩ :: ⟨x, .identifier, o'⟩ :: (ts ++ rest)) rest
      (·.unplaced = (Expr.member m target x es .unresolved).unplaced) := by
  change Yields (args stop fuel >>= fun given =>
    suffixes stop (.member ⟨o', .dynamic⟩ e' x given .unresolved) fuel) (ts ++ rest) rest _
  refine (hargs stop fuel rest hfuel hrest.1).bind fun given hgiven =>
    ⟨_, suffixes_none _ fuel hrest.2, ?_⟩
  simp [Expr.unplaced, htarget, hgiven, hty]

theorem lacks_cons {kind : Token.Kind} {t : Token} (h : t.kind ≠ kind) : Lacks kind (t :: s) := by
  intro t' ht
  cases ht
  exact h

theorem closes_cons {t : Token} (hopen : t.kind ≠ .openBracket) (hcolon : t.kind ≠ .colon) :
    Closes (t :: s) :=
  ⟨lacks_cons hopen, lacks_cons hcolon⟩

theorem stops_closing (o : Nat) (s : List Token) : Stops (⟨"]", .closedBracket, o⟩ :: s) :=
  ⟨closes_cons nofun nofun, rfl⟩

-- An expression in brackets, with a member or without.
theorem ReadsExpr.inBrackets {o c : Nat} (he : ReadsExpr e ts) :
    ReadsOperand e (⟨"[", .openBracket, o⟩ :: ts ++ [⟨"]", .closedBracket, c⟩]) := by
  intro stop fuel rest hfuel hrest
  simp only [List.length_append, List.length_cons, List.length_nil] at hfuel
  obtain ⟨fuel, rfl⟩ : ∃ n, fuel = n + 1 := Nat.exists_eq_succ_of_ne_zero (by omega)
  simp only [List.cons_append, List.append_assoc, List.nil_append]
  change Yields (expr stop fuel >>= fun inner => do
    let _ ← expectKind stop .closedBracket "']'"
    suffixes stop inner fuel) (ts ++ ⟨"]", .closedBracket, c⟩ :: rest) rest _
  refine (he stop fuel _ (by omega) (stops_closing c rest)).bind fun inner hinner =>
    (expect_yields _ rfl).bind fun _ _ => ⟨inner, suffixes_none inner fuel hrest.2, hinner⟩

theorem member_operand {x : String} {o c o' o'' : Nat} (htarget : ReadsExpr target ts)
    (hargs : ReadsArgs es ts') {m : Mark} (hty : m.ty = .dynamic) :
    ReadsOperand (.member m target x es .unresolved)
      (⟨"[", .openBracket, o⟩ :: ts ++ ⟨"]", .closedBracket, c⟩ ::
        ⟨":", .colon, o'⟩ :: ⟨x, .identifier, o''⟩ :: ts') := by
  intro stop fuel rest hfuel hrest
  simp only [List.length_append, List.length_cons] at hfuel
  obtain ⟨fuel, rfl⟩ : ∃ n, fuel = n + 2 := Nat.exists_eq_add_of_le' (by omega)
  simp only [List.cons_append, List.append_assoc]
  change Yields (expr stop (fuel + 1) >>= fun inner => do
    let _ ← expectKind stop .closedBracket "']'"
    suffixes stop inner (fuel + 1)) (ts ++ ⟨"]", .closedBracket, c⟩ ::
      ⟨":", .colon, o'⟩ :: ⟨x, .identifier, o''⟩ :: (ts' ++ rest)) rest _
  exact (htarget stop _ _ (by omega) (stops_closing c _)).bind fun inner hinner =>
    (expect_yields _ rfl).bind fun _ _ => suffixes_member hargs (by omega) hrest hinner hty

theorem args_nil : ReadsArgs [] [] := by
  intro stop fuel rest _ hrest
  cases fuel with
  | zero => exact ⟨[], rfl, rfl⟩
  | succ fuel =>
      refine ⟨[], ?_, rfl⟩
      unfold args
      rw [List.nil_append, isNext_lacks hrest]
      rfl

theorem args_cons {o c : Nat} (he : ReadsExpr e ts) (hes : ReadsArgs es ts') :
    ReadsArgs (e :: es) (⟨"[", .openBracket, o⟩ :: ts ++ ⟨"]", .closedBracket, c⟩ :: ts') := by
  intro stop fuel rest hfuel hrest
  simp only [List.length_append, List.length_cons] at hfuel
  obtain ⟨fuel, rfl⟩ : ∃ n, fuel = n + 1 := Nat.exists_eq_succ_of_ne_zero (by omega)
  simp only [List.cons_append, List.append_assoc]
  change Yields (expr stop fuel >>= fun first => do
    let _ ← expectKind stop .closedBracket "']'"
    let rest ← args stop fuel
    return first :: rest) (ts ++ ⟨"]", .closedBracket, c⟩ :: (ts' ++ rest)) rest _
  refine (he stop fuel _ (by omega) (stops_closing c _)).bind fun first hfirst =>
    (expect_yields _ rfl).bind fun _ _ => (hes stop fuel rest (by omega) hrest).bind
      fun others hothers => .pure ?_
  simp [Expr.unplacedAll, hfirst, hothers]

theorem name_operand {x : String} {o : Nat} {m : Mark} (hty : m.ty = .dynamic) :
    ReadsOperand (.name m x) [⟨x, .identifier, o⟩] := by
  intro stop fuel rest hfuel hrest
  simp only [List.length_singleton] at hfuel
  obtain ⟨fuel, rfl⟩ : ∃ n, fuel = n + 1 := Nat.exists_eq_succ_of_ne_zero (by omega)
  unfold operand
  refine .peek (.advance ?_)
  refine (args_nil stop fuel rest (Nat.zero_le _) hrest.1).bind fun given hgiven => ?_
  cases given with
  | nil => exact ⟨_, suffixes_none _ fuel hrest.2, by simp [Expr.unplaced, hty]⟩
  | cons first others => cases hgiven

theorem static_operand {x : String} {o : Nat} {m : Mark} (hty : m.ty = .dynamic) (hes : es ≠ [])
    (hargs : ReadsArgs es ts) :
    ReadsOperand (.static m x es .unresolved) (⟨x, .identifier, o⟩ :: ts) := by
  intro stop fuel rest hfuel hrest
  simp only [List.length_cons] at hfuel
  obtain ⟨fuel, rfl⟩ : ∃ n, fuel = n + 1 := Nat.exists_eq_succ_of_ne_zero (by omega)
  unfold operand
  refine .peek (.advance ?_)
  refine (hargs stop fuel rest (by omega) hrest.1).bind fun given hgiven => ?_
  cases given with
  | nil =>
      obtain ⟨first, others, rfl⟩ := List.exists_cons_of_ne_nil hes
      cases hgiven
  | cons first others =>
      exact ⟨_, suffixes_none _ fuel hrest.2, by simp [Expr.unplaced, hty, hgiven]⟩

theorem new_operand {typeName : String} {o o' : Nat} {m : Mark} (hty : m.ty = .dynamic)
    (hargs : ReadsArgs es ts) :
    ReadsOperand (.new m typeName es none)
      (⟨"new", .keyword, o⟩ :: ⟨typeName, .identifier, o'⟩ :: ts) := by
  intro stop fuel rest hfuel hrest
  simp only [List.length_cons] at hfuel
  obtain ⟨fuel, rfl⟩ : ∃ n, fuel = n + 1 := Nat.exists_eq_succ_of_ne_zero (by omega)
  change Yields (args stop fuel >>= fun given =>
    suffixes stop (.new ⟨o, .dynamic⟩ typeName given none) fuel) (ts ++ rest) rest _
  exact (hargs stop fuel rest (by omega) hrest.1).bind fun given hgiven =>
    ⟨_, suffixes_none _ fuel hrest.2, by simp [Expr.unplaced, hty, hgiven]⟩

theorem cast_operand {typeName : String} {o o' o'' : Nat} {m : Mark} (hty : m.ty = .dynamic)
    (he : ReadsOperand e ts) :
    ReadsOperand (.cast m typeName e) (⟨"<", .operator, o⟩ :: ⟨typeName, .identifier, o'⟩ ::
      ⟨">", .operator, o''⟩ :: ts) := by
  intro stop fuel rest hfuel hrest
  simp only [List.length_cons] at hfuel
  obtain ⟨fuel, rfl⟩ : ∃ n, fuel = n + 1 := Nat.exists_eq_succ_of_ne_zero (by omega)
  change Yields (operand stop fuel >>= fun inner =>
    (pure (.cast ⟨o, .dynamic⟩ typeName inner) : Parser Expr)) (ts ++ rest) rest _
  exact (he stop fuel rest (by omega) hrest).bind fun inner hinner =>
    .pure (by simp [Expr.unplaced, hty, hinner])

theorem literal_operand {value : Literal} {t : Token} {m : Mark} (hty : m.ty = .dynamic)
    (ht : (Piece.ofLiteral value).Fits t) : ReadsOperand (.literal m value) [t] := by
  intro stop fuel rest hfuel hrest
  simp only [List.length_singleton] at hfuel
  obtain ⟨fuel, rfl⟩ : ∃ n, fuel = n + 1 := Nat.exists_eq_succ_of_ne_zero (by omega)
  have hsame : ∀ o : Nat, (Expr.literal ⟨o, .dynamic⟩ value).unplaced =
      (Expr.literal m value).unplaced := by
    intro o
    simp [Expr.unplaced, hty]
  have hnumber : t.kind = .numLiteral → Literal.ofNumeral? t.lexeme.toList = some value →
      Yields (operand stop (fuel + 1)) ([t] ++ rest) rest
        (·.unplaced = (Expr.literal m value).unplaced) := by
    intro hkind hvalue
    obtain ⟨lexeme, kind, o⟩ := t
    cases hkind
    unfold operand
    refine .peek (.advance ?_)
    simp only [hvalue]
    exact .pure (hsame o)
  cases value with
  | null =>
      obtain ⟨o, rfl⟩ := Piece.fits_fixed.mp ht
      exact ⟨_, rfl, hsame o⟩
  | bool b =>
      cases b with
      | true =>
          obtain ⟨o, rfl⟩ := Piece.fits_fixed.mp ht
          exact ⟨_, rfl, hsame o⟩
      | false =>
          obtain ⟨o, rfl⟩ := Piece.fits_fixed.mp ht
          exact ⟨_, rfl, hsame o⟩
  | string text =>
      obtain ⟨o, rfl⟩ := Piece.fits_fixed.mp ht
      exact ⟨_, rfl, hsame o⟩
  | long n => exact hnumber ht.1 ht.2
  | double x => exact hnumber ht.1 ht.2

-- An operand that no operator stands before.
structure Stands (e : Expr) (ts : List Token) : Prop where
  reads : ReadsOperand e ts
  first : ∃ t rest, ts = t :: rest ∧ unaryOp? t = none

theorem Stands.ne_nil (h : Stands e ts) : ts ≠ [] := by
  obtain ⟨t, rest, rfl, -⟩ := h.first
  exact List.cons_ne_nil t rest

theorem Stands.unary (h : Stands e ts) : ReadsUnary e ts := by
  obtain ⟨t, ts, rfl, ht⟩ := h.first
  intro stop fuel rest hfuel hrest
  simp only [List.length_cons] at hfuel
  obtain ⟨fuel, rfl⟩ : ∃ n, fuel = n + 1 := Nat.exists_eq_succ_of_ne_zero (by omega)
  unfold Parser.unary
  refine .offset (.peek ?_)
  simp only [List.cons_append, List.head?_cons, Option.bind_some, ht]
  exact h.reads stop fuel rest (by simp only [List.length_cons]; omega) hrest

theorem ReadsUnary.expr (he : ReadsUnary e ts) (hts : ts ≠ []) : ReadsExpr e ts := by
  intro stop fuel rest hfuel hrest
  have hpos := List.length_pos_iff.mpr hts
  obtain ⟨fuel, rfl⟩ : ∃ n, fuel = n + 1 := Nat.exists_eq_succ_of_ne_zero (by omega)
  unfold Parser.expr
  refine (he stop fuel rest (by omega) hrest.1).bind fun lhs hlhs => .peek ?_
  simp only [hrest.2]
  exact .pure hlhs

theorem unaryOp?_symbol (op : UnaryOp) (o : Nat) :
    unaryOp? ⟨op.symbol, .operator, o⟩ = some op := by
  cases op <;> rfl

theorem binaryOp?_symbol (op : BinaryOp) (o : Nat) :
    binaryOp? ⟨op.symbol, .operator, o⟩ = some op := by
  cases op with
  | arith op => cases op <;> rfl
  | order op => cases op <;> rfl
  | _ => rfl

theorem unary_reads {op : UnaryOp} {o : Nat} {m : Mark} (hty : m.ty = .dynamic)
    (he : ReadsUnary e ts) : ReadsUnary (.unary m op e) (⟨op.symbol, .operator, o⟩ :: ts) := by
  intro stop fuel rest hfuel hrest
  simp only [List.length_cons] at hfuel
  obtain ⟨fuel, rfl⟩ : ∃ n, fuel = n + 1 := Nat.exists_eq_succ_of_ne_zero (by omega)
  unfold unary
  refine .offset (.peek ?_)
  simp only [List.cons_append, List.head?_cons, Option.bind_some, unaryOp?_symbol]
  refine .advance ?_
  exact (he stop fuel rest (by omega) hrest).bind fun inner hinner =>
    .pure (by simp [Expr.unplaced, hty, hinner])

theorem binary_reads {lhs rhs : Expr} {op : BinaryOp} {o : Nat} {m : Mark} (hty : m.ty = .dynamic)
    (hlhs : ReadsUnary lhs ts) (hrhs : ReadsExpr rhs ts') :
    ReadsExpr (.binary m op lhs rhs) (ts ++ ⟨op.symbol, .operator, o⟩ :: ts') := by
  intro stop fuel rest hfuel hrest
  simp only [List.length_append, List.length_cons] at hfuel
  obtain ⟨fuel, rfl⟩ : ∃ n, fuel = n + 1 := Nat.exists_eq_succ_of_ne_zero (by omega)
  rw [List.append_assoc, List.cons_append]
  have hcloses : Closes (⟨op.symbol, .operator, o⟩ :: (ts' ++ rest)) :=
    closes_cons (by simp) (by simp)
  unfold expr
  refine (hlhs stop fuel _ (by omega) hcloses).bind fun lhs' hlhs' => .peek ?_
  simp only [List.head?_cons, Option.bind_some, binaryOp?_symbol]
  refine .advance ?_
  exact (hrhs stop fuel rest (by omega) hrest).bind fun rhs' hrhs' =>
    .pure (by simp [Expr.unplaced, hty, hlhs', hrhs'])

theorem Stands.expr (h : Stands e ts) : ReadsExpr e ts :=
  h.unary.expr h.ne_nil

-- How the tokens of an expression are read: all of them as an expression, and as an operand if it
-- begins with none of its own operators.
structure Readable (e : Expr) (ts : List Token) : Prop where
  expr : ReadsExpr e ts
  stands : (∀ m op lhs rhs, e ≠ .binary m op lhs rhs) → (∀ m op inner, e ≠ .unary m op inner) →
    Stands e ts

theorem Stands.readable (h : Stands e ts) : Readable e ts :=
  ⟨h.expr, fun _ _ => h⟩

theorem Readable.asOperand (hreads : ∀ ts, FitAll e.render ts → Readable e ts)
    (h : FitAll (e.asOperand e.render) ts) : Stands e ts := by
  unfold Expr.asOperand at h
  split at h
  · rename_i hatom
    cases e with
    | name m x => exact (hreads ts h).stands nofun nofun
    | literal m value => exact (hreads ts h).stands nofun nofun
    | _ => cases hatom
  · rw [← List.append_nil (Piece.inBrackets _), fitAll_inBrackets] at h
    obtain ⟨o, inner, c, after, hinner, hafter, rfl⟩ := h
    cases fitAll_nil.mp hafter
    exact ⟨(hreads inner hinner).expr.inBrackets, _, _, rfl, rfl⟩

theorem unaryOp?_ofLiteral {value : Literal} {t : Token} (h : (Piece.ofLiteral value).Fits t) :
    unaryOp? t = none := by
  have hkind : t.kind ≠ .operator := by
    cases value with
    | bool b => cases b <;> simp [h.1]
    | _ => simp [h.1]
  simp [unaryOp?, Token.isOperator, hkind]

mutual

-- The parser reads an expression back: by cases over the expression, as it is written.
theorem readable_of_fitAll : ∀ {e : Expr} {ts : List Token}, e.Every Expr.Bare →
    FitAll e.render ts → Readable e ts
  | .name m x, ts, hbare, h => by
      obtain ⟨o, rest, hrest, rfl⟩ := fitAll_fixed.mp h
      cases fitAll_nil.mp hrest
      exact Stands.readable ⟨name_operand hbare, _, _, rfl, rfl⟩
  | .literal m value, ts, hbare, h => by
      obtain ⟨t, rest, ht, hrest, rfl⟩ := fitAll_cons.mp h
      cases fitAll_nil.mp hrest
      exact Stands.readable ⟨literal_operand hbare ht, _, _, rfl, unaryOp?_ofLiteral ht⟩
  | .static m x args binding, ts, ⟨⟨hty, hne, hbinding⟩, hargs⟩, h => by
      subst hbinding
      obtain ⟨o, rest, hrest, rfl⟩ := fitAll_fixed.mp h
      have hargs' := readsArgs_of_fitAll hargs hrest
      exact Stands.readable ⟨static_operand hty hne hargs', _, _, rfl, rfl⟩
  | .member m target x args binding, ts, ⟨⟨hty, hbinding⟩, htarget, hargs⟩, h => by
      subst hbinding
      obtain ⟨o, inner, c, after, hinner, hafter, rfl⟩ := fitAll_inBrackets.mp h
      obtain ⟨o', _, hname, rfl⟩ := fitAll_fixed.mp hafter
      obtain ⟨o'', given, hgiven, rfl⟩ := fitAll_fixed.mp hname
      exact Stands.readable ⟨member_operand (readable_of_fitAll htarget hinner).expr
        (readsArgs_of_fitAll hargs hgiven) hty, _, _, rfl, rfl⟩
  | .new m typeName args binding, ts, ⟨⟨hty, hbinding⟩, hargs⟩, h => by
      subst hbinding
      obtain ⟨o, _, hname, rfl⟩ := fitAll_fixed.mp h
      obtain ⟨o', given, hgiven, rfl⟩ := fitAll_fixed.mp hname
      exact Stands.readable ⟨new_operand hty (readsArgs_of_fitAll hargs hgiven), _, _, rfl, rfl⟩
  | .binary m op lhs rhs, ts, ⟨hty, hlhs, hrhs⟩, h => by
      obtain ⟨before, _, hbefore, hop, rfl⟩ := fitAll_append.mp h
      obtain ⟨o, after, hafter, rfl⟩ := fitAll_fixed.mp hop
      have hleft := Readable.asOperand (fun _ => readable_of_fitAll hlhs) hbefore
      have hright := Readable.asOperand (fun _ => readable_of_fitAll hrhs) hafter
      exact ⟨binary_reads hty hleft.unary hright.expr, fun h _ => absurd rfl (h _ _ _ _)⟩
  | .unary m op operand, ts, ⟨hty, hoperand⟩, h => by
      obtain ⟨o, rest, hrest, rfl⟩ := fitAll_fixed.mp h
      have hinner := Readable.asOperand (fun _ => readable_of_fitAll hoperand) hrest
      exact ⟨(unary_reads hty hinner.unary).expr (List.cons_ne_nil _ _),
        fun _ h => absurd rfl (h _ _ _)⟩
  | .cast m typeName operand, ts, ⟨hty, hoperand⟩, h => by
      obtain ⟨o, _, hname, rfl⟩ := fitAll_fixed.mp h
      obtain ⟨o', _, hclose, rfl⟩ := fitAll_fixed.mp hname
      obtain ⟨o'', rest, hrest, rfl⟩ := fitAll_fixed.mp hclose
      have hinner := Readable.asOperand (fun _ => readable_of_fitAll hoperand) hrest
      exact Stands.readable ⟨cast_operand hty hinner.reads, _, _, rfl, rfl⟩

theorem readsArgs_of_fitAll : ∀ {es : List Expr} {ts : List Token}, Expr.EveryOne Expr.Bare es →
    FitAll (Expr.renderArgs es) ts → ReadsArgs es ts
  | [], ts, _, h => by
      cases fitAll_nil.mp h
      exact args_nil
  | e :: es, ts, ⟨he, hes⟩, h => by
      obtain ⟨o, inner, c, after, hinner, hafter, rfl⟩ := fitAll_inBrackets.mp h
      exact args_cons (readable_of_fitAll he hinner).expr (readsArgs_of_fitAll hes hafter)

end

end Parser

end HostScript
