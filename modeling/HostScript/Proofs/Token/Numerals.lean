import HostScript.Proofs.Number.Numeral
import HostScript.Proofs.Script.Parsed

namespace HostScript

namespace Token

-- Numbers are tokens for numerals.
def Numbered (t : Token) : Prop :=
  t.kind = .numLiteral → isNumeral t.lexeme.toList

theorem isNumeral_of_classifyWord {lexeme raw : List Char}
    (h : classifyWord lexeme raw = .ok .numLiteral) : isNumeral lexeme := by
  unfold classifyWord at h
  dsimp only at h
  iterate 5 (split at h; · cases h)
  split at h
  · assumption
  · split at h <;> cases h

theorem not_numLiteral_of_punctuation {c : Char} {kind : Kind}
    (h : Scanner.punctuation? c = some kind) : kind ≠ .numLiteral := by
  unfold Scanner.punctuation? at h
  repeat' split at h
  all_goals cases h <;> simp

theorem emits_numbered : Emits Numbered where
  word h _ hkind := by
    cases hkind
    rw [String.toList_ofList]
    exact isNumeral_of_classifyWord h
  operator _ _ hkind := by cases hkind
  punctuation h _ hkind := absurd hkind (not_numLiteral_of_punctuation h)
  string _ _ hkind := by cases hkind
  comment _ _ hkind := by cases hkind

theorem isSome_of_isNumeral {lexeme : List Char} (h : isNumeral lexeme) :
    (Literal.ofNumeral? lexeme).isSome := by
  have hread := ofNumeral?_of_isNumeral h
  split at hread
  · obtain ⟨n, hn, -⟩ := hread
    rw [hn]
    rfl
  · rw [hread]
    rfl

-- An outcome without the problem of a bad number.
def Calm {α : Type} (x : Except Diagnostic α) : Prop :=
  ∀ d, x = .error d → d.problem.code ≠ .invalidNumber

namespace Calm

variable {α β : Type} {x : Except Diagnostic α}

theorem ok (a : α) : Calm (.ok a : Except Diagnostic α) :=
  nofun

theorem error {d : Diagnostic} (h : d.problem.code ≠ .invalidNumber) :
    Calm (.error d : Except Diagnostic α) := by
  rintro _ ⟨⟩
  exact h

theorem map (h : Calm x) (f : α → β) : Calm (x.map f) := by
  cases x with
  | ok a => exact ok (f a)
  | error d => exact error (h d rfl)

theorem bind (h : Calm x) {f : α → Except Diagnostic β} (hf : ∀ a, Calm (f a)) :
    Calm (x >>= f) := by
  cases x with
  | ok a => exact hf a
  | error d => exact error (h d rfl)

end Calm

theorem code_ne_of_classifyWord {lexeme raw : List Char} {problem : Diagnostic.Problem}
    (h : classifyWord lexeme raw = .error problem) : problem.code ≠ .invalidNumber := by
  unfold classifyWord at h
  dsimp only at h
  iterate 5 (split at h; · cases h)
  split at h
  · rename_i hnumeral
    rw [if_pos (isSome_of_isNumeral hnumeral)] at h
    cases h
  · split at h <;> cases h
    exact nofun

namespace Scanner

variable (s : Scanner) (c : Char) (next : Option Char)

theorem calm_flush : Calm s.flush := by
  unfold flush
  split
  · dsimp only
    split
    · exact .ok _
    · rename_i hclass
      exact .error (code_ne_of_classifyWord hclass)
  · dsimp only
    split
    · exact .ok _
    · exact .error nofun
  · exact .ok _

theorem calm_plain : Calm (s.plain c next) := by
  unfold plain
  split
  · exact s.calm_flush.map _
  split
  · exact s.calm_flush.map _
  split
  · exact s.calm_flush.map _
  split
  · exact s.calm_flush.map _
  split
  · exact s.calm_flush.map _
  split
  · exact .ok _
  split
  · split
    · exact .ok _
    · exact s.calm_flush.map _
  · split
    · exact .ok _
    · exact s.calm_flush.map _

theorem calm_read : Calm (s.read c next) := by
  unfold read
  split
  · exact s.calm_plain c next
  · exact s.calm_plain c next
  · exact s.calm_plain c next
  · repeat' split
    all_goals exact .ok _
  · split
    · exact .ok _
    · split
      · exact .ok _
      · exact .error nofun
  · split <;> exact .ok _
  · exact .ok _
  · split <;> exact .ok _
  · exact .ok _

theorem calm_finish : Calm s.finish := by
  unfold finish
  split
  · exact s.calm_flush
  · exact s.calm_flush
  · exact s.calm_flush
  · exact .error nofun
  · exact .error nofun
  · exact .ok _
  · exact .error nofun
  · exact .error nofun
  · exact .error nofun

theorem calm_run (text : List Char) : Calm (s.run text) := by
  induction text generalizing s with
  | nil => exact s.calm_finish
  | cons c rest ih => exact ((s.calm_read c rest.head?).map _).bind ih

end Scanner

theorem calm_scanAll (source : String) : Calm (scanAll source) :=
  (Scanner.calm_run _ _).map _

theorem calm_scan (source : String) : Calm (scan source) :=
  (calm_scanAll source).map _

end Token

namespace Parser

variable {tokens : List Token}

theorem builds_any (T : Token → Prop) : Builds (fun _ => True) T (fun _ => True) (fun _ => True)
    (fun _ => True) (fun _ => True) (fun _ => True) (fun _ => True) := by
  constructor <;> intros <;> trivial

theorem code_ne_of_grounded {problem : Diagnostic.Problem} (h : Grounded Token.Numbered problem) :
    problem.code ≠ .invalidNumber := by
  cases problem with
  | badNumber lexeme =>
      obtain ⟨t, ht, hkind, hread⟩ := h lexeme rfl
      have hsome := Token.isSome_of_isNumeral (ht hkind)
      rw [hread] at hsome
      cases hsome
  | _ => exact nofun

theorem calm_of_reads {α : Type} {Q : α → Prop} {p : Nat → Nat → Parser α}
    (hp : Reads (fun _ => True) Token.Numbered Q (p (stopOffset tokens) (fuelFor tokens)))
    (htokens : ∀ t ∈ tokens, t.Numbered) : Token.Calm (runOn tokens p) :=
  fun d hd => code_ne_of_grounded ((hp.runOn htokens).2 d hd).2

theorem calm_script (htokens : ∀ t ∈ tokens, t.Numbered) : Token.Calm (Script.ofTokens tokens) :=
  calm_of_reads (Reads.stmts (builds_any _) ⟨fun _ _ => trivial, trivial⟩ _) htokens

theorem calm_expr (htokens : ∀ t ∈ tokens, t.Numbered) : Token.Calm (Expr.ofTokens tokens) :=
  calm_of_reads (Reads.expr (builds_any _) ⟨fun _ _ => trivial, trivial⟩ _) htokens

end Parser

namespace Token

-- No numeral is refused: it is read as a whole number if it has no point and its value fits in 64
-- bits, and as a double otherwise, so that a bad number is never reported, whatever the source.
theorem numeral_always_read :
    (∀ lexeme, isNumeral lexeme →
      if '.' ∉ lexeme ∧ -2 ^ 63 ≤ wholeValue lexeme ∧ wholeValue lexeme ≤ 2 ^ 63 - 1 then
        ∃ n : Int64, Literal.ofNumeral? lexeme = some (.long n) ∧ n.toInt = wholeValue lexeme
      else Literal.ofNumeral? lexeme = some (.double (Number.ofDecimal (lexeme.head? = some '-')
        (digitsValue lexeme) (-(decimalPlaces lexeme))))) ∧
    ∀ source, Calm (scanAll source) ∧ Calm (Script.parse source) ∧
      ∀ tokens, scan source = .ok tokens → Calm (Expr.ofTokens tokens) := by
  refine ⟨fun lexeme => ofNumeral?_of_isNumeral, fun source => ⟨calm_scanAll source, ?_, ?_⟩⟩
  · intro d hd
    rcases except_bind_error.mp hd with hscan | ⟨tokens, hscan, hread⟩
    · exact calm_scan source d hscan
    · exact Parser.calm_script (emits_numbered.of_scan hscan) d hread
  · exact fun tokens hscan => Parser.calm_expr (emits_numbered.of_scan hscan)

-- The least whole number is one, and the number behind the greatest is a double.
theorem numeral_always_read_at_limits :
    Literal.ofNumeral? "-9_223_372_036_854_775_808".toList = some (.long Int64.minValue) ∧
    ∃ x, Literal.ofNumeral? "9223372036854775808".toList = some (.double x) := by
  have hleast := numeral_always_read.1 "-9_223_372_036_854_775_808".toList (by decide +kernel)
  have hbehind := numeral_always_read.1 "9223372036854775808".toList (by decide +kernel)
  rw [if_pos (by decide +kernel)] at hleast
  rw [if_neg (by decide +kernel)] at hbehind
  obtain ⟨n, hn, hvalue⟩ := hleast
  have hmin : n = Int64.minValue := Int64.toInt_inj.mp (hvalue.trans (by decide +kernel))
  exact ⟨hmin ▸ hn, _, hbehind⟩

end Token

end HostScript
