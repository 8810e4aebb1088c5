import HostScript.Compile.Basic
import HostScript.Proofs.Script.Grammar
import HostScript.Proofs.Script.Names

namespace HostScript

namespace Token

-- Identifiers are names that a script can write.
def Named (t : Token) : Prop :=
  t.kind = .identifier → PlainName t.lexeme

theorem plainName_of_classifyWord {lexeme raw : List Char}
    (h : classifyWord lexeme raw = .ok .identifier) : PlainName (String.ofList lexeme) := by
  unfold classifyWord at h
  dsimp only at h
  iterate 5 (split at h; · cases h)
  split at h
  · split at h <;> cases h
  · split at h
    · cases h
    · rename_i hnone
      intro hmem
      have := List.find?_eq_none.mp hnone '$' (by simpa using hmem)
      exact this (by decide)

-- A property of tokens that all tokens have that scanners emit.
structure Emits (T : Token → Prop) : Prop where
  word : ∀ {lexeme raw kind}, classifyWord lexeme raw = .ok kind →
    ∀ offset, T ⟨String.ofList lexeme, kind, offset⟩
  operator : ∀ lexeme offset, T ⟨lexeme, .operator, offset⟩
  punctuation : ∀ {c kind}, Scanner.punctuation? c = some kind →
    ∀ offset, T ⟨String.ofList [c], kind, offset⟩
  string : ∀ lexeme offset, T ⟨lexeme, .stringLiteral, offset⟩
  comment : ∀ lexeme offset, T ⟨lexeme, .comment, offset⟩

namespace Scanner

variable {T : Token → Prop} {s s' : Scanner}

def Has (T : Token → Prop) (s : Scanner) : Prop :=
  ∀ t ∈ s.tokens, T t

theorem Has.emit {lexeme : List Char} {kind : Kind} {offset : Nat} (h : s.Has T)
    (ht : T ⟨String.ofList lexeme, kind, offset⟩) : (s.emit lexeme kind offset).Has T :=
  List.forall_mem_cons.mpr ⟨ht, h⟩

section Emits

variable (hT : Emits T)

include hT

theorem Has.flush (h : s.Has T) (hs : s.flush = .ok s') : s'.Has T := by
  unfold Scanner.flush at hs
  split at hs
  · dsimp only at hs
    split at hs
    · rename_i kind hkind
      cases hs
      exact h.emit (hT.word hkind _)
    · cases hs
  · dsimp only at hs
    split at hs
    · cases hs
      exact h.emit (hT.operator _ _)
    · cases hs
  · cases hs
    exact h

-- Whatever follows a word or an operator, the tokens read so far stay as they are.
theorem Has.flush_map {f : Scanner → Scanner} (hf : ∀ t : Scanner, t.Has T → (f t).Has T)
    (h : s.Has T) (hs : s.flush.map f = .ok s') : s'.Has T := by
  cases hflush : s.flush with
  | error d =>
      rw [hflush] at hs
      cases hs
  | ok t =>
      rw [hflush] at hs
      cases hs
      exact hf t (h.flush hT hflush)

theorem Has.plain {c : Char} {next : Option Char} (h : s.Has T)
    (hs : s.plain c next = .ok s') : s'.Has T := by
  have henter : ∀ (mode : Mode) (t : Scanner), t.Has T → (t.enter mode).Has T := fun _ _ ht => ht
  unfold Scanner.plain at hs
  split at hs
  · exact h.flush_map hT (henter _) hs
  split at hs
  · exact h.flush_map hT (henter _) hs
  split at hs
  · exact h.flush_map hT (henter _) hs
  split at hs
  · rename_i kind hkind
    exact h.flush_map hT (fun t ht => ht.emit (hT.punctuation hkind _)) hs
  split at hs
  · exact h.flush_map hT (henter _) hs
  split at hs
  · cases hs
    exact h
  split at hs
  · split at hs
    · cases hs
      exact h
    · exact h.flush_map hT (henter _) hs
  · split at hs
    · cases hs
      exact h
    · exact h.flush_map hT (henter _) hs

theorem Has.read {c : Char} {next : Option Char} (h : s.Has T)
    (hs : s.read c next = .ok s') : s'.Has T := by
  unfold Scanner.read at hs
  split at hs
  · exact h.plain hT hs
  · exact h.plain hT hs
  · exact h.plain hT hs
  · repeat' split at hs
    all_goals cases hs
    · exact h.emit (hT.string _ _)
    · exact h
    · exact h
  · repeat' split at hs
    all_goals cases hs
    · exact h
    · exact h
  · split at hs
    · rename_i hline
      cases hs
      exact (h.emit (hT.comment _ _)).emit (hT.punctuation (by simp [punctuation?, hline]) _)
    · cases hs
      exact h
  · cases hs
    exact h
  · split at hs
    all_goals cases hs
    · exact h
    · exact h
  · cases hs
    exact h.emit (hT.comment _ _)

theorem Has.finish (h : s.Has T) (hs : s.finish = .ok s') : s'.Has T := by
  unfold Scanner.finish at hs
  split at hs
  · exact h.flush hT hs
  · exact h.flush hT hs
  · exact h.flush hT hs
  · cases hs
  · cases hs
  · cases hs
    exact h.emit (hT.comment _ _)
  · cases hs
  · cases hs
  · cases hs

theorem Has.run {text : List Char} (h : s.Has T) (hs : s.run text = .ok s') : s'.Has T := by
  induction text generalizing s with
  | nil => exact h.finish hT hs
  | cons c rest ih =>
      obtain ⟨s₁, hstep, hrest⟩ := except_bind_ok.mp hs
      refine ih ?_ hrest
      unfold step at hstep
      cases hread : s.read c rest.head? with
      | error d =>
          rw [hread] at hstep
          cases hstep
      | ok t =>
          rw [hread] at hstep
          cases hstep
          have ht : t.Has T := h.read hT hread
          exact ht

end Emits

end Scanner

theorem Emits.of_scan {T : Token → Prop} (hT : Emits T) {source : String} {tokens : List Token}
    (h : scan source = .ok tokens) : ∀ t ∈ tokens, T t := by
  unfold scan scanAll at h
  cases hrun : Scanner.start.run source.toList with
  | error d =>
      rw [hrun] at h
      cases h
  | ok s =>
      rw [hrun] at h
      cases h
      intro t ht
      have hstart : Scanner.start.Has T := by simp [Scanner.Has, Scanner.start]
      exact hstart.run hT hrun t (by simpa using (List.mem_filter.mp ht).1)

theorem not_identifier_of_punctuation {c : Char} {kind : Kind}
    (h : Scanner.punctuation? c = some kind) : kind ≠ .identifier := by
  unfold Scanner.punctuation? at h
  repeat' split at h
  all_goals cases h <;> simp

theorem emits_named : Emits Named where
  word h _ hkind := by
    cases hkind
    exact plainName_of_classifyWord h
  operator _ _ hkind := by cases hkind
  punctuation h _ hkind := absurd hkind (not_identifier_of_punctuation h)
  string _ _ hkind := by cases hkind
  comment _ _ hkind := by cases hkind

end Token

-- What is read from tokens with plain names has plain names.
theorem Parser.builds_plain : Builds (fun _ => True) Token.Named Expr.Plain Expr.AllPlain
    VarStmt.Plain Stmt.Plain Stmt.AllPlain Stmt.BranchesPlain where
  name _ _ _ ht hkind := ht hkind
  literal _ _ _ := trivial
  static _ _ _ _ _ hargs := hargs
  member _ _ _ _ _ htarget hargs := ⟨htarget, hargs⟩
  new _ _ _ _ hargs := hargs
  binary _ _ _ hlhs hrhs := ⟨hlhs, hrhs⟩
  unary _ _ _ _ hoperand := hoperand
  cast _ _ _ _ hoperand := hoperand
  noArgs := trivial
  args _ _ hfirst hothers := ⟨hfirst, hothers⟩
  declare _ _ _ _ ht hkind hvalue := ⟨ht hkind, hvalue⟩
  update _ _ change _ ht hkind hchange := by
    refine ⟨ht hkind, ?_⟩
    cases change with
    | compound op value => exact hchange op value rfl
    | increment => trivial
    | decrement => trivial
  uses _ _ _ := trivial
  input _ _ _ _ ht hkind := ht hkind
  var _ hv := hv
  cond _ _ _ _ _ htest hbody hrest := ⟨htest, hbody, hrest⟩
  whileLoop _ _ _ _ htest hbody := ⟨htest, hbody⟩
  forLoop _ _ _ _ _ _ hinit htest hstep hbody := ⟨hinit, htest, hstep, hbody⟩
  eachLoop _ _ _ _ _ ht hkind hsource hbody := ⟨ht hkind, hsource, hbody⟩
  countLoop _ _ _ _ hcount hbody := ⟨hcount, hbody⟩
  leave _ _ := trivial
  again _ _ := trivial
  exit _ _ := trivial
  ret _ _ _ hvalue := hvalue
  func _ _ _ _ _ hbody := hbody
  call _ _ _ htarget _ := htarget
  assign _ _ _ _ htarget _ _ hvalue := ⟨htarget, hvalue⟩
  noStmts := trivial
  stmts _ _ hfirst hothers := ⟨hfirst, hothers⟩
  done := trivial
  otherwise _ hbody := hbody
  elseIf _ _ _ htest hbody hrest := ⟨htest, hbody, hrest⟩

-- No variable in a source text has a name of the compiler's own.
theorem Script.plain_of_parse {source : String} {script : Script} (h : parse source = .ok script) :
    Stmt.AllPlain script := by
  obtain ⟨tokens, hscan, hread⟩ := except_bind_ok.mp h
  have hnamed : ∀ t ∈ tokens, t.Named := Token.emits_named.of_scan hscan
  exact (Parser.Reads.script Parser.builds_plain ⟨fun _ _ => trivial, trivial⟩ hnamed).1 script hread

end HostScript
