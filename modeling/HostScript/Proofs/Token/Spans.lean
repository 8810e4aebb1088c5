import HostScript.Proofs.Stateful
import HostScript.Token.Scan

namespace HostScript.Token

-- How many bytes some characters take.
def byteCount (cs : List Char) : Nat :=
  (cs.map Char.utf8Size).sum

@[simp] theorem byteCount_nil : byteCount [] = 0 := rfl

@[simp] theorem byteCount_cons (c : Char) (cs : List Char) :
    byteCount (c :: cs) = c.utf8Size + byteCount cs := by
  simp [byteCount]

@[simp] theorem byteCount_append (cs ds : List Char) :
    byteCount (cs ++ ds) = byteCount cs + byteCount ds := by
  simp [byteCount]

-- What a character stands for behind a backslash.
def escaped? : Char → Option Char
  | '"' => some '"'
  | '\\' => some '\\'
  | 'n' => some '\n'
  | _ => none

-- The text that is written between two quotes. A quote or a backslash cannot stand there alone.
def unescape? : List Char → Option (List Char)
  | [] => some []
  | '\\' :: c :: rest => do return (← escaped? c) :: (← unescape? rest)
  | c :: rest => if c = '"' ∨ c = '\\' then none else (unescape? rest).map (c :: ·)

theorem unescape?_append {cs text : List Char} (h : unescape? cs = some text) (ds : List Char) :
    unescape? (cs ++ ds) = (unescape? ds).map (text ++ ·) := by
  fun_induction unescape? cs generalizing text with
  | case1 =>
      cases h
      simp
  | case2 c rest ih =>
      simp only [bind, Option.bind_eq_some_iff, pure, Option.some.injEq] at h
      obtain ⟨e, he, t, ht, rfl⟩ := h
      simp only [List.cons_append, unescape?, bind, he, ih ht]
      cases unescape? ds <;> rfl
  | case3 c rest hne hbad => cases h
  | case4 c rest hne hgood ih =>
      obtain ⟨t, ht, rfl⟩ := Option.map_eq_some_iff.mp h
      have hc : c ≠ '\\' := fun hc => hgood (.inr hc)
      rw [List.cons_append, unescape?, if_neg hgood, ih ht]
      · cases unescape? ds <;> rfl
      · exact fun _ _ hc' => absurd hc' hc

theorem unescape?_single {c : Char} (hquote : c ≠ '"') (hescape : c ≠ '\\') :
    unescape? [c] = some [c] := by
  rw [unescape?, if_neg (not_or.mpr ⟨hquote, hescape⟩)]
  · rfl
  · exact fun _ _ hc => absurd hc hescape

theorem unescape?_escape {c e : Char} (he : escaped? c = some e) :
    unescape? ['\\', c] = some [e] := by
  simp [unescape?, he]

-- The kinds of tokens whose lexeme is what is written in lower case.
def Kind.isLowered : Kind → Bool
  | .keyword | .identifier | .operator | .nullLiteral | .numLiteral | .trueLiteral
  | .falseLiteral => true
  | _ => false

-- How a token is written in a source text.
def Spells (t : Token) (span : List Char) : Prop :=
  match t.kind with
  | .comment => span = t.lexeme.toList
  | .endLine => span = ['\n']
  | .openBracket => span = ['[']
  | .closedBracket => span = [']']
  | .colon => span = [':']
  | .stringLiteral => ∃ body, span = '"' :: body ++ ['"'] ∧ unescape? body = some t.lexeme.toList
  | _ => Text.lowerChars span = t.lexeme.toList

-- A source text, of which the first character stands at `offset`, as a sequence of blanks and of
-- tokens, each of which is written where it says.
inductive Laid : (offset : Nat) → List Char → List Token → Prop
  | done {offset : Nat} : Laid offset [] []
  | blank {offset : Nat} {c : Char} {rest : List Char} {tokens : List Token} :
      Text.isBlank c → c ≠ '\n' → Laid (offset + c.utf8Size) rest tokens →
      Laid offset (c :: rest) tokens
  | token {t : Token} {span rest : List Char} {tokens : List Token} :
      span ≠ [] → t.Spells span → Laid (t.offset + byteCount span) rest tokens →
      Laid t.offset (span ++ rest) (t :: tokens)

theorem Laid.le_offset {offset : Nat} {cs : List Char} {tokens : List Token}
    (h : Laid offset cs tokens) : ∀ t ∈ tokens, offset ≤ t.offset := by
  induction h with
  | done => simp
  | blank _ _ _ ih => exact fun t ht => by have := ih t ht; omega
  | token _ _ _ ih =>
      intro t ht
      rcases List.mem_cons.mp ht with rfl | ht
      · exact Nat.le_refl _
      · have := ih t ht
        omega

theorem byteCount_pos {span : List Char} (h : span ≠ []) : 0 < byteCount span := by
  obtain ⟨c, rest, rfl⟩ := List.exists_cons_of_ne_nil h
  rw [byteCount_cons]
  exact Nat.add_pos_left c.utf8Size_pos _

theorem Laid.increasing {offset : Nat} {cs : List Char} {tokens : List Token}
    (h : Laid offset cs tokens) : tokens.Pairwise (·.offset < ·.offset) := by
  induction h with
  | done => exact List.Pairwise.nil
  | blank _ _ _ ih => exact ih
  | token hne _ hrest ih =>
      refine List.Pairwise.cons (fun t ht => ?_) ih
      have hle := hrest.le_offset t ht
      have hpos := byteCount_pos hne
      omega

-- Whether what is being read can end at any character.
def Mode.isPlain : Mode → Bool
  | .idle | .word _ _ | .operator _ _ => true
  | _ => false

-- What has been read of the token that a scanner is in, which starts at `start`.
def Mode.Holds (start : Nat) (raw : List Char) : Mode → Prop
  | .idle => raw = []
  | .word st text | .operator st text | .lineComment st text | .blockComment st text
  | .commentClosing st text => st = start ∧ raw = text.reverse ∧ text ≠ []
  | .quoted st text => st = start ∧ ∃ body, raw = '"' :: body ∧ unescape? body = some text.reverse
  | .escape st text => st = start ∧
    ∃ body, raw = '"' :: body ++ ['\\'] ∧ unescape? body = some text.reverse
  | .commentOpening st => st = start ∧ raw = ['/']

namespace Scanner

variable {s s₁ : Scanner} {c : Char} {next : Option Char}

-- The text from `start` to where the scanner is.
def Pending (s : Scanner) (start : Nat) (raw : List Char) : Prop :=
  start + byteCount raw = s.offset ∧ s.mode.Holds start raw

-- Text read from `start` on is made of `tokens` and of what is still pending.
def Turns (start : Nat) (raw : List Char) (tokens : List Token) (start₁ : Nat)
    (raw₁ : List Char) : Prop :=
  ∀ rest more, Laid start₁ (raw₁ ++ rest) more → Laid start (raw ++ rest) (tokens ++ more)

variable {start start₁ start₂ : Nat} {raw raw₁ raw₂ extra : List Char} {tokens tokens' : List Token}

theorem Turns.trans (h : Turns start raw tokens start₁ raw₁)
    (h' : Turns start₁ (raw₁ ++ extra) tokens' start₂ raw₂) :
    Turns start (raw ++ extra) (tokens ++ tokens') start₂ raw₂ := by
  intro rest more hmore
  have hone := h (extra ++ rest) (tokens' ++ more)
  simp only [← List.append_assoc] at hone ⊢
  exact hone (h' rest more hmore)

theorem Turns.keep (start : Nat) (raw : List Char) : Turns start raw [] start raw :=
  fun _ _ h => h

theorem Turns.token {t : Token} (hne : raw ≠ []) (hspells : t.Spells raw) :
    Turns t.offset raw [t] (t.offset + byteCount raw) [] :=
  fun _ _ h => .token hne hspells h

theorem Turns.blank (hblank : Text.isBlank c) (hc : c ≠ '\n') (start : Nat) :
    Turns start [c] [] (start + c.utf8Size) [] :=
  fun _ _ h => .blank hblank hc h

-- From one scanner to another, with nothing lost of what was read from `start` on.
def Reads (s : Scanner) (start : Nat) (raw : List Char) (s₁ : Scanner) : Prop :=
  ∃ tokens start₁ raw₁, s₁.tokens = tokens.reverse ++ s.tokens ∧ s₁.Pending start₁ raw₁ ∧
    Turns start raw tokens start₁ raw₁

theorem spells_lowered {kind : Kind} {word : List Char} {offset : Nat} (hkind : kind.isLowered) :
    Token.Spells ⟨String.ofList (Text.lowerChars word), kind, offset⟩ word := by
  cases kind with
  | keyword | identifier | operator | nullLiteral | numLiteral | trueLiteral | falseLiteral =>
      simp [Spells]
  | stringLiteral | openBracket | closedBracket | endLine | colon | comment => cases hkind

theorem spells_comment (text : List Char) (offset : Nat) :
    Token.Spells ⟨String.ofList text, .comment, offset⟩ text := by
  simp [Spells]

theorem lowered_of_classifyWord {lexeme word : List Char} {kind : Kind}
    (h : classifyWord lexeme word = .ok kind) : kind.isLowered := by
  dsimp only [classifyWord] at h
  split_ifs at h <;> try (cases h; rfl)
  split at h
  · cases h
  · cases h
    rfl

theorem flush_turns (hp : s.Pending start raw) (hmode : s.mode.isPlain) (h : s.flush = .ok s₁) :
    ∃ tokens, s₁ = ⟨.idle, s.offset, tokens.reverse ++ s.tokens⟩ ∧
      Turns start raw tokens s.offset [] := by
  obtain ⟨mode, offset, tokens⟩ := s
  obtain ⟨hoffset, hmore⟩ := hp
  cases mode with
  | idle =>
      cases h
      cases hmore
      exact ⟨[], rfl, hoffset ▸ .keep start []⟩
  | word st text =>
      obtain ⟨rfl, rfl, hne⟩ := hmore
      simp only [flush] at h
      split at h
      · rename_i kind hkind
        cases h
        refine ⟨[_], rfl, hoffset ▸ .token ?_ (spells_lowered (lowered_of_classifyWord hkind))⟩
        simpa using hne
      · cases h
  | operator st text =>
      obtain ⟨rfl, rfl, hne⟩ := hmore
      simp only [flush] at h
      split at h
      · cases h
        exact ⟨[_], rfl, hoffset ▸ .token (by simpa using hne) (spells_lowered rfl)⟩
      · cases h
  | _ => cases hmode

-- What goes on being read, or is started, is not lost.
theorem Reads.enter {mode : Mode} {offset : Nat}
    (hp : Pending ⟨mode, offset, s.tokens⟩ start raw) :
    Reads s start raw { s.enter mode with offset } :=
  ⟨[], start, raw, rfl, hp, .keep start raw⟩

theorem Reads.emit {lexeme : List Char} {kind : Kind} {offset : Nat} (hne : raw ≠ [])
    (hspells : Token.Spells ⟨String.ofList lexeme, kind, start⟩ raw)
    (hoffset : start + byteCount raw = offset) :
    Reads s start raw { s.emit lexeme kind start with offset } :=
  ⟨[_], start + byteCount raw, [], rfl, ⟨hoffset, rfl⟩, .token hne hspells⟩

theorem Pending.add (hp : s.Pending start raw) (c : Char) :
    start + byteCount (raw ++ [c]) = s.offset + c.utf8Size := by
  have hoffset := hp.1
  simp only [byteCount_append, byteCount_cons, byteCount_nil]
  omega

-- One more character of the same token.
theorem Reads.goesOn {mode : Mode} (hp : s.Pending start raw)
    (hmode : mode.Holds start (raw ++ [c])) :
    Reads s start (raw ++ [c]) { s.enter mode with offset := s.offset + c.utf8Size } :=
  .enter ⟨hp.add c, hmode⟩

-- A character that ends what was being read, and starts something itself.
theorem Reads.after_flush {next : Scanner → Scanner} (hp : s.Pending start raw)
    (hmode : s.mode.isPlain) (h : s.flush.map next = .ok s₁) {offset : Nat}
    (hnext : ∀ f : Scanner, f.offset = s.offset →
      Reads f s.offset [c] { next f with offset }) :
    Reads s start (raw ++ [c]) { s₁ with offset } := by
  cases hflush : s.flush with
  | error d =>
      rw [hflush] at h
      cases h
  | ok f =>
      rw [hflush] at h
      cases h
      obtain ⟨tokens, rfl, hturns⟩ := flush_turns hp hmode hflush
      obtain ⟨tokens', start₁, raw₁, htokens, hpending, hturns'⟩ :=
        hnext ⟨.idle, s.offset, tokens.reverse ++ s.tokens⟩ rfl
      refine ⟨tokens ++ tokens', start₁, raw₁, ?_, hpending, hturns.trans hturns'⟩
      exact htokens.trans (by simp)

theorem spells_punctuation {kind : Kind} {offset : Nat} (h : punctuation? c = some kind) :
    Token.Spells ⟨String.ofList [c], kind, offset⟩ [c] := by
  unfold punctuation? at h
  split_ifs at h with hline hopen hclosed hcolon
  · cases h
    simp [Spells, hline]
  · cases h
    simp [Spells, hopen]
  · cases h
    simp [Spells, hclosed]
  · cases h
    simp [Spells, hcolon]

theorem not_newline_of_punctuation (h : punctuation? c = none) : c ≠ '\n' := by
  rintro rfl
  cases h

theorem plain_reads (hp : s.Pending start raw) (hmode : s.mode.isPlain)
    (h : s.plain c next = .ok s₁) :
    Reads s start (raw ++ [c]) { s₁ with offset := s.offset + c.utf8Size } := by
  by_cases hquote : c = '"'
  · subst hquote
    exact .after_flush hp hmode h fun f _ => .enter ⟨rfl, rfl, [], rfl, rfl⟩
  by_cases hline : (c = '#' || (c = '/' && next = some '/')) = true
  · rw [plain, if_neg hquote, if_pos hline] at h
    exact .after_flush hp hmode h fun f _ => .enter ⟨by simp, rfl, rfl, by simp⟩
  by_cases hblock : (c = '/' && next = some '*') = true
  · rw [plain, if_neg hquote, if_neg hline, if_pos hblock] at h
    exact .after_flush hp hmode h fun f _ => .enter ⟨by simp, rfl, by simp_all⟩
  rw [plain, if_neg hquote, if_neg hline, if_neg hblock] at h
  cases hpunctuation : punctuation? c with
  | some kind =>
      simp only [hpunctuation] at h
      refine .after_flush hp hmode h fun f hf => ?_
      exact .emit (by simp) (spells_punctuation hpunctuation) (by simp)
  | none =>
      simp only [hpunctuation] at h
      split at h
      · rename_i hblank
        refine .after_flush hp hmode h fun f hf => ?_
        exact ⟨[], s.offset + c.utf8Size, [], rfl, ⟨by simp, rfl⟩,
          .blank hblank (not_newline_of_punctuation hpunctuation) _⟩
      split at h
      · -- a sign is read between tokens only
        rename_i hsign
        cases h
        obtain ⟨mode, offset, tokens⟩ := s
        cases mode with
        | idle =>
            obtain ⟨rfl, rfl⟩ := hp
            exact .enter ⟨by simp, by simp, rfl, by simp⟩
        | _ => cases hsign
      split at h
      · split at h
        · rename_i st text hm
          cases h
          obtain ⟨rfl, rfl, -⟩ : Mode.Holds start raw (.operator st text) := hm ▸ hp.2
          exact .goesOn hp ⟨rfl, by simp, by simp⟩
        · exact .after_flush hp hmode h fun f _ => .enter ⟨by simp, rfl, rfl, by simp⟩
      · split at h
        · rename_i st text hm
          cases h
          obtain ⟨rfl, rfl, -⟩ : Mode.Holds start raw (.word st text) := hm ▸ hp.2
          exact .goesOn hp ⟨rfl, by simp, by simp⟩
        · exact .after_flush hp hmode h fun f _ => .enter ⟨by simp, rfl, rfl, by simp⟩

theorem step_reads (hp : s.Pending start raw) (h : s.step c next = .ok s₁) :
    Reads s start (raw ++ [c]) s₁ := by
  obtain ⟨t, ht, rfl⟩ : ∃ t, s.read c next = .ok t ∧
      s₁ = { t with offset := s.offset + c.utf8Size } := by
    unfold step at h
    cases hread : s.read c next with
    | error d =>
        rw [hread] at h
        cases h
    | ok t =>
        rw [hread] at h
        cases h
        exact ⟨t, rfl, rfl⟩
  cases hm : s.mode with
  | idle | word | operator =>
      simp only [read, hm] at ht
      exact plain_reads hp (by simp [hm, Mode.isPlain]) ht
  | quoted st text =>
      obtain ⟨rfl, body, rfl, hbody⟩ : Mode.Holds start raw (.quoted st text) := hm ▸ hp.2
      simp only [read, hm] at ht
      split_ifs at ht with hquote hescape
      · cases ht
        refine .emit (by simp) ?_ (hp.add c)
        exact ⟨body, by simp [hquote], by simpa using hbody⟩
      · cases ht
        exact .goesOn hp ⟨rfl, body, by simp [hescape], hbody⟩
      · cases ht
        refine .goesOn hp ⟨rfl, body ++ [c], by simp, ?_⟩
        rw [unescape?_append hbody, unescape?_single hquote hescape]
        simp
  | escape st text =>
      obtain ⟨rfl, body, rfl, hbody⟩ : Mode.Holds start raw (.escape st text) := hm ▸ hp.2
      simp only [read, hm] at ht
      split_ifs at ht with hself hline
      · cases ht
        refine .goesOn hp ⟨rfl, body ++ ['\\', c], by simp, ?_⟩
        have hsame : escaped? c = some c := by
          rcases (by simpa using hself : c = '"' ∨ c = '\\') with rfl | rfl <;> rfl
        rw [unescape?_append hbody, unescape?_escape hsame]
        simp
      · cases ht
        refine .goesOn hp ⟨rfl, body ++ ['\\', c], by simp, ?_⟩
        have hnewline : escaped? c = some '\n' := by simp [hline, escaped?]
        rw [unescape?_append hbody, unescape?_escape hnewline]
        simp
      · cases ht
  | lineComment st text =>
      obtain ⟨rfl, rfl, hne⟩ : Mode.Holds start raw (.lineComment st text) := hm ▸ hp.2
      simp only [read, hm] at ht
      split_ifs at ht with hend
      · cases ht
        -- the end of the line ends the comment and is a token of its own
        have hcomment : Turns st text.reverse [⟨String.ofList text.reverse, .comment, st⟩]
            (st + byteCount text.reverse) [] := .token (by simpa using hne) (spells_comment _ st)
        have hspells : Token.Spells ⟨String.ofList [c], .endLine, s.offset⟩ [c] := by
          simp [Spells, hend]
        have hline : Turns s.offset [c] [⟨String.ofList [c], .endLine, s.offset⟩]
            (s.offset + byteCount [c]) [] := .token (List.cons_ne_nil c []) hspells
        rw [hp.1] at hcomment
        exact ⟨_, _, _, rfl, ⟨by simp, rfl⟩, hcomment.trans hline⟩
      · cases ht
        exact .goesOn hp ⟨rfl, by simp, by simp⟩
  | commentOpening st =>
      obtain ⟨rfl, rfl⟩ : Mode.Holds start raw (.commentOpening st) := hm ▸ hp.2
      simp only [read, hm] at ht
      cases ht
      exact .goesOn hp ⟨rfl, rfl, by simp⟩
  | blockComment st text =>
      obtain ⟨rfl, rfl, -⟩ : Mode.Holds start raw (.blockComment st text) := hm ▸ hp.2
      simp only [read, hm] at ht
      split_ifs at ht
      · cases ht
        exact .goesOn hp ⟨rfl, by simp, by simp⟩
      · cases ht
        exact .goesOn hp ⟨rfl, by simp, by simp⟩
  | commentClosing st text =>
      obtain ⟨rfl, rfl, -⟩ : Mode.Holds start raw (.commentClosing st text) := hm ▸ hp.2
      simp only [read, hm] at ht
      cases ht
      refine .emit (by simp) ?_ (hp.add c)
      rw [← List.reverse_cons]
      exact spells_comment _ st

-- The end of the source ends a token, or there is none.
theorem finish_laid (hp : s.Pending start raw) (h : s.finish = .ok s₁) :
    ∃ tokens, s₁.tokens = tokens.reverse ++ s.tokens ∧ Laid start raw tokens := by
  have hlaid : ∀ {tokens : List Token} {start₁ : Nat}, Turns start raw tokens start₁ [] →
      Laid start raw tokens := by
    intro tokens start₁ hturns
    simpa using hturns [] [] .done
  have hflush : s.mode.isPlain → s.flush = .ok s₁ →
      ∃ tokens, s₁.tokens = tokens.reverse ++ s.tokens ∧ Laid start raw tokens := by
    intro hmode hflushed
    obtain ⟨tokens, rfl, hturns⟩ := flush_turns hp hmode hflushed
    exact ⟨tokens, rfl, hlaid hturns⟩
  cases hm : s.mode with
  | idle | word | operator =>
      simp only [finish, hm] at h
      exact hflush (by simp [hm, Mode.isPlain]) h
  | lineComment st text =>
      obtain ⟨rfl, rfl, hne⟩ : Mode.Holds start raw (.lineComment st text) := hm ▸ hp.2
      simp only [finish, hm] at h
      cases h
      exact ⟨[⟨String.ofList text.reverse, .comment, st⟩], rfl,
        hlaid (.token (by simpa using hne) (spells_comment _ st))⟩
  | quoted | escape | commentOpening | blockComment | commentClosing =>
      simp only [finish, hm] at h
      cases h

theorem run_laid {cs : List Char} (hp : s.Pending start raw) (h : s.run cs = .ok s₁) :
    ∃ tokens, s₁.tokens = tokens.reverse ++ s.tokens ∧ Laid start (raw ++ cs) tokens := by
  induction cs generalizing s start raw with
  | nil =>
      rw [List.append_nil]
      exact finish_laid hp h
  | cons c rest ih =>
      obtain ⟨t, hstep, hrun⟩ := except_bind_ok.mp h
      obtain ⟨tokens, start₁, raw₁, htokens, hp₁, hturns⟩ := step_reads hp hstep
      obtain ⟨tokens', htokens', hlaid⟩ := ih hp₁ hrun
      refine ⟨tokens ++ tokens', by simp [htokens', htokens], ?_⟩
      simpa using hturns rest tokens' hlaid

end Scanner

-- Scanning loses nothing: a source text consists of its tokens, each written where its offset says,
-- and of blanks between them, which are no line ends. No two tokens start at the same place.
theorem laid_of_scanAll {source : String} {tokens : List Token} (h : scanAll source = .ok tokens) :
    Laid 0 source.toList tokens ∧ tokens.Pairwise (·.offset < ·.offset) := by
  obtain ⟨s, hrun, rfl⟩ : ∃ s, Scanner.start.run source.toList = .ok s ∧
      s.tokens.reverse = tokens := by
    unfold scanAll at h
    cases hrun : Scanner.start.run source.toList with
    | error d =>
        rw [hrun] at h
        cases h
    | ok s =>
        rw [hrun] at h
        cases h
        exact ⟨s, rfl, rfl⟩
  have hstart : Scanner.start.Pending 0 [] := ⟨rfl, rfl⟩
  obtain ⟨tokens, htokens, hlaid⟩ := Scanner.run_laid hstart hrun
  have hall : s.tokens.reverse = tokens := by simp [htokens, Scanner.start]
  rw [hall]
  exact ⟨hlaid, hlaid.increasing⟩

-- A name of two bytes, a signed number, both forms of comments and a string with escapes.
def greeting : String :=
  "Var [É] = -1 /* one */ # two\nprint [\"\\\"a\\n\"]"

def greetingTokens : List Token :=
  [⟨"var", .keyword, 0⟩, ⟨"[", .openBracket, 4⟩, ⟨"é", .identifier, 5⟩,
   ⟨"]", .closedBracket, 7⟩, ⟨"=", .operator, 9⟩, ⟨"-1", .numLiteral, 11⟩,
   ⟨"/* one */", .comment, 14⟩, ⟨"# two", .comment, 24⟩, ⟨"\n", .endLine, 29⟩,
   ⟨"print", .identifier, 30⟩, ⟨"[", .openBracket, 36⟩, ⟨"\"a\n", .stringLiteral, 37⟩,
   ⟨"]", .closedBracket, 44⟩]

theorem laid_greeting : scanAll greeting = .ok greetingTokens ∧
    Laid 0 greeting.toList greetingTokens ∧ greetingTokens.Pairwise (·.offset < ·.offset) := by
  have htokens : (scanAll greeting).toOption = some greetingTokens := by decide +kernel
  have hscan : scanAll greeting = .ok greetingTokens := by
    cases hresult : scanAll greeting with
    | error d =>
        rw [hresult] at htokens
        cases htokens
    | ok tokens =>
        rw [hresult] at htokens
        exact congrArg Except.ok (Option.some.inj htokens)
  exact ⟨hscan, laid_of_scanAll hscan⟩

end HostScript.Token
