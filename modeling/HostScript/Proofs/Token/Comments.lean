import HostScript.Proofs.Token.Spans

namespace HostScript.Token

-- The place behind what a comment says. The lexeme of a comment is what is written.
def finish (t : Token) : Nat :=
  t.offset + byteCount t.lexeme.toList

-- Whether the byte at `offset` belongs to a comment.
def inComment (tokens : List Token) (offset : Nat) : Bool :=
  tokens.any fun t => t.kind = .comment && t.offset ≤ offset && offset < t.finish

-- Characters of which the first stands at `offset`, with spaces in place of comments, as many as the
-- comments have bytes.
def blankFrom (tokens : List Token) : (offset : Nat) → List Char → List Char
  | _, [] => []
  | offset, c :: rest =>
    (if inComment tokens offset then List.replicate c.utf8Size ' ' else [c]) ++
      blankFrom tokens (offset + c.utf8Size) rest

-- A source text without the comments among its tokens.
def blanked (source : String) (tokens : List Token) : String :=
  String.ofList (blankFrom tokens 0 source.toList)

variable {c d : Char} {next : Option Char} {tokens : List Token} {offset : Nat} {cs : List Char}

@[simp] theorem byteCount_spaces (n : Nat) : byteCount (List.replicate n ' ') = n := by
  induction n with
  | zero => rfl
  | succ n ih =>
      rw [List.replicate_succ, byteCount_cons, ih]
      exact Nat.add_comm _ _

-- Everything stays at its place.
theorem byteCount_blankFrom : byteCount (blankFrom tokens offset cs) = byteCount cs := by
  induction cs generalizing offset with
  | nil => rfl
  | cons c rest ih =>
      rw [blankFrom, byteCount_append, ih, byteCount_cons]
      split
      · rw [byteCount_spaces]
      · rfl

theorem inComment_iff : inComment tokens offset ↔
    ∃ t ∈ tokens, t.kind = .comment ∧ t.offset ≤ offset ∧ offset < t.finish := by
  simp [inComment, and_assoc]

-- Whether a character outside strings and comments opens a comment.
def opensComment (c : Char) (next : Option Char) : Bool :=
  c = '#' || c = '/' && (next = some '/' || next = some '*')

-- Where the comment that is being read starts.
def Mode.comment? : Mode → Option Nat
  | .lineComment st _ | .commentOpening st | .blockComment st _ | .commentClosing st _ => some st
  | .idle | .word _ _ | .operator _ _ | .quoted _ _ | .escape _ _ => none

namespace Scanner

variable {s s₁ f : Scanner} {start : Nat} {raw : List Char}

-- Whether the next character of a source text belongs to a comment.
def comments (s : Scanner) (c : Char) (next : Option Char) : Bool :=
  match s.mode with
  | .idle | .word _ _ | .operator _ _ => opensComment c next
  | .quoted _ _ | .escape _ _ => false
  | .lineComment _ _ => c ≠ '\n'
  | .commentOpening _ | .blockComment _ _ | .commentClosing _ _ => true

-- What is read is made of tokens that say something.
def Tells (s s₁ : Scanner) : Prop :=
  ∃ new : List Token, (∀ t ∈ new, t.kind ≠ .comment) ∧ s₁.tokens = new ++ s.tokens

theorem Tells.refl (s : Scanner) : s.Tells s :=
  ⟨[], by simp, rfl⟩

theorem Tells.emit {kind : Kind} (h : s.Tells f) (lexeme : List Char) (hkind : kind ≠ .comment)
    (offset : Nat) : s.Tells (f.emit lexeme kind offset) := by
  obtain ⟨new, hnew, htokens⟩ := h
  refine ⟨⟨String.ofList lexeme, kind, offset⟩ :: new, fun t ht => ?_, ?_⟩
  · rcases List.mem_cons.mp ht with rfl | ht
    · exact hkind
    · exact hnew t ht
  · simp only [Scanner.emit, htokens, List.cons_append]

theorem not_comment_of_lowered {kind : Kind} (h : kind.isLowered) : kind ≠ .comment := by
  rintro rfl
  cases h

theorem comment?_of_isPlain (hmode : s.mode.isPlain) : s.mode.comment? = none := by
  cases hm : s.mode with
  | idle | word | operator => rfl
  | _ =>
      rw [hm] at hmode
      cases hmode

theorem flush_tells (hmode : s.mode.isPlain) (h : s.flush = .ok f) :
    f.mode = .idle ∧ f.offset = s.offset ∧ s.Tells f := by
  obtain ⟨mode, offset, tokens⟩ := s
  cases mode with
  | idle =>
      cases h
      exact ⟨rfl, rfl, .refl _⟩
  | word st text =>
      simp only [flush] at h
      split at h
      · rename_i kind hkind
        cases h
        have hne := not_comment_of_lowered (lowered_of_classifyWord hkind)
        exact ⟨rfl, rfl, (Tells.refl _).emit _ hne st⟩
      · cases h
  | operator st text =>
      simp only [flush] at h
      split at h
      · cases h
        exact ⟨rfl, rfl, (Tells.refl _).emit _ (by decide) st⟩
      · cases h
  | _ => cases hmode

-- What one character does to comments.
inductive Passage (s : Scanner) (c : Char) (next : Option Char) (s₁ : Scanner) : Prop where
  | outside : s.comments c next = false → s.mode.comment? = none → s₁.mode.comment? = none →
      s.Tells s₁ → Passage s c next s₁
  | opens (f : Scanner) : s.comments c next = true → s.mode.isPlain → s.flush = .ok f →
      s₁.mode.comment? = some s.offset → s₁.tokens = f.tokens → Passage s c next s₁
  | inside (st : Nat) : s.comments c next = true → s.mode.comment? = some st →
      s₁.mode.comment? = some st → s₁.tokens = s.tokens → Passage s c next s₁
  | closes (t : Token) : s.comments c next = true → s.mode.comment? = some t.offset →
      t.kind = .comment → t.finish = s₁.offset → s₁.mode = .idle → s₁.tokens = t :: s.tokens →
      Passage s c next s₁
  | line (t : Token) : s.comments c next = false → s.mode.comment? = some t.offset →
      t.kind = .comment → t.finish = s.offset → c = '\n' → s₁.mode = .idle →
      s₁.tokens = ⟨"\n", .endLine, s.offset⟩ :: t :: s.tokens → Passage s c next s₁

theorem read_of_step (h : s.step c next = .ok s₁) :
    ∃ t, s.read c next = .ok t ∧ s₁ = { t with offset := s.offset + c.utf8Size } := by
  unfold step at h
  cases hread : s.read c next with
  | error d =>
      rw [hread] at h
      cases h
  | ok t =>
      rw [hread] at h
      cases h
      exact ⟨t, rfl, rfl⟩

theorem flush_of_map {g : Scanner → Scanner} (h : s.flush.map g = .ok s₁) :
    ∃ f, s.flush = .ok f ∧ s₁ = g f := by
  cases hflush : s.flush with
  | error d =>
      rw [hflush] at h
      cases h
  | ok f =>
      rw [hflush] at h
      cases h
      exact ⟨f, rfl, rfl⟩

theorem plain_of_opens (s : Scanner) (h : opensComment c next) :
    ∃ mode : Mode, mode.comment? = some s.offset ∧
      s.plain c next = s.flush.map (·.enter mode) := by
  simp only [opensComment, Bool.or_eq_true, decide_eq_true_eq, Bool.and_eq_true] at h
  rcases h with rfl | ⟨rfl, rfl | rfl⟩
  · exact ⟨.lineComment s.offset ['#'], rfl, by simp [plain]⟩
  · exact ⟨.lineComment s.offset ['/'], rfl, by simp [plain]⟩
  · exact ⟨.commentOpening s.offset, rfl, by simp [plain]⟩

theorem kind_of_punctuation {kind : Kind} (h : punctuation? c = some kind) : kind ≠ .comment := by
  rintro rfl
  unfold punctuation? at h
  split_ifs at h <;> cases h

theorem plain_tells (hmode : s.mode.isPlain) (hopen : opensComment c next = false)
    (h : s.plain c next = .ok s₁) : s₁.mode.comment? = none ∧ s.Tells s₁ := by
  -- what is started behind a flush is no comment
  have hstarts : ∀ {mode : Mode}, mode.comment? = none →
      s.flush.map (·.enter mode) = .ok s₁ → s₁.mode.comment? = none ∧ s.Tells s₁ := by
    intro mode hnone hmap
    obtain ⟨f, hflush, rfl⟩ := flush_of_map hmap
    exact ⟨hnone, (flush_tells hmode hflush).2.2⟩
  have hgoes : ∀ {mode : Mode}, mode.comment? = none →
      (Except.ok (s.enter mode) : Except Diagnostic Scanner) = .ok s₁ →
      s₁.mode.comment? = none ∧ s.Tells s₁ := by
    intro mode hnone heq
    cases heq
    exact ⟨hnone, .refl s⟩
  have hnot : ¬(c = '#' ∨ c = '/' ∧ (next = some '/' ∨ next = some '*')) := by
    simpa [opensComment] using hopen
  unfold plain at h
  split at h
  · exact hstarts rfl h
  split at h
  · rename_i hline
    exact absurd (by simpa using hline) fun hline => hnot (by tauto)
  split at h
  · rename_i hblock
    exact absurd (by simpa using hblock) fun hblock => hnot (by tauto)
  split at h
  · rename_i kind hkind
    obtain ⟨f, hflush, rfl⟩ := flush_of_map h
    exact ⟨rfl, (flush_tells hmode hflush).2.2.emit _ (kind_of_punctuation hkind) _⟩
  split at h
  · exact hstarts rfl h
  split at h
  · exact hgoes rfl h
  split at h
  · split at h
    · exact hgoes rfl h
    · exact hstarts rfl h
  · split at h
    · exact hgoes rfl h
    · exact hstarts rfl h

theorem finish_comment {text : List Char} {offset : Nat} :
    Token.finish ⟨String.ofList text, .comment, offset⟩ = offset + byteCount text := by
  rw [Token.finish, String.toList_ofList]

-- Every character does one of these.
theorem step_passage (hp : s.Pending start raw) (h : s.step c next = .ok s₁) :
    Passage s c next s₁ := by
  obtain ⟨t, hread, rfl⟩ := read_of_step h
  cases hm : s.mode with
  | idle | word | operator =>
      have hmode : s.mode.isPlain := by simp [hm, Mode.isPlain]
      have hopens : s.comments c next = opensComment c next := by simp [comments, hm]
      simp only [read, hm] at hread
      by_cases hopen : opensComment c next = true
      · obtain ⟨mode, hcomment, hplain⟩ := plain_of_opens s hopen
        obtain ⟨f, hflush, rfl⟩ := flush_of_map (hplain ▸ hread)
        exact .opens f (hopens.trans hopen) hmode hflush hcomment rfl
      · have hclosed : opensComment c next = false := Bool.eq_false_iff.mpr hopen
        obtain ⟨hnone, htells⟩ := plain_tells hmode hclosed hread
        exact .outside (hopens.trans hclosed) (by simp [hm, Mode.comment?]) hnone htells
  | quoted st text =>
      have hnone : s.mode.comment? = none := by simp [hm, Mode.comment?]
      have hout : s.comments c next = false := by simp [comments, hm]
      simp only [read, hm] at hread
      split_ifs at hread
      · cases hread
        exact .outside hout hnone rfl ((Tells.refl s).emit _ (by decide) st)
      · cases hread
        exact .outside hout hnone rfl (.refl s)
      · cases hread
        exact .outside hout hnone rfl (.refl s)
  | escape st text =>
      have hnone : s.mode.comment? = none := by simp [hm, Mode.comment?]
      have hout : s.comments c next = false := by simp [comments, hm]
      simp only [read, hm] at hread
      split_ifs at hread
      · cases hread
        exact .outside hout hnone rfl (.refl s)
      · cases hread
        exact .outside hout hnone rfl (.refl s)
      · cases hread
  | lineComment st text =>
      obtain ⟨rfl, rfl, -⟩ : Mode.Holds start raw (.lineComment st text) := hm ▸ hp.2
      have hcomment : s.mode.comment? = some st := by simp [hm, Mode.comment?]
      simp only [read, hm] at hread
      split_ifs at hread with hend
      · cases hread
        refine .line ⟨String.ofList text.reverse, .comment, st⟩ (by simp [comments, hm, hend])
          hcomment rfl ?_ hend rfl (by simp [emit, hend])
        rw [finish_comment, hp.1]
      · cases hread
        exact .inside st (by simp [comments, hm, hend]) hcomment rfl rfl
  | commentOpening st =>
      simp only [read, hm] at hread
      cases hread
      exact .inside st (by simp [comments, hm]) (by simp [hm, Mode.comment?]) rfl rfl
  | blockComment st text =>
      simp only [read, hm] at hread
      split_ifs at hread
      · cases hread
        exact .inside st (by simp [comments, hm]) (by simp [hm, Mode.comment?]) rfl rfl
      · cases hread
        exact .inside st (by simp [comments, hm]) (by simp [hm, Mode.comment?]) rfl rfl
  | commentClosing st text =>
      obtain ⟨rfl, rfl, -⟩ : Mode.Holds start raw (.commentClosing st text) := hm ▸ hp.2
      simp only [read, hm] at hread
      cases hread
      refine .closes ⟨String.ofList (c :: text).reverse, .comment, st⟩ (by simp [comments, hm])
        (by simp [hm, Mode.comment?]) rfl ?_ rfl rfl
      have hplace := hp.1
      rw [finish_comment, List.reverse_cons, byteCount_append, byteCount_cons, byteCount_nil]
      simp only
      omega

-- How the last token comes about.
theorem finish_tells (hp : s.Pending start raw) (h : s.finish = .ok s₁) :
    s.mode.comment? = none ∧ s.mode.isPlain ∧ s.flush = .ok s₁ ∨
    ∃ t : Token, s.mode.comment? = some t.offset ∧ t.kind = .comment ∧ t.finish = s.offset ∧
      s₁ = ⟨.idle, s.offset, t :: s.tokens⟩ := by
  cases hm : s.mode with
  | idle | word | operator =>
      simp only [finish, hm] at h
      exact .inl ⟨rfl, rfl, h⟩
  | lineComment st text =>
      obtain ⟨rfl, rfl, -⟩ : Mode.Holds start raw (.lineComment st text) := hm ▸ hp.2
      simp only [finish, hm] at h
      cases h
      refine .inr ⟨⟨String.ofList text.reverse, .comment, st⟩, rfl, rfl, ?_, rfl⟩
      rw [finish_comment, hp.1]
  | quoted | escape | commentOpening | blockComment | commentClosing =>
      simp only [finish, hm] at h
      cases h

-- A list of tokens as a scanner may leave it in the end: all that it has, the comment that it is in,
-- and otherwise no comment that starts in front of the place where it is.
structure Reaches (s : Scanner) (tokens : List Token) : Prop where
  kept : ∀ t ∈ s.tokens, t ∈ tokens
  closed : ∀ st, s.mode.comment? = some st →
    ∃ t ∈ tokens, t.kind = .comment ∧ t.offset = st ∧ s.offset ≤ t.finish
  fresh : ∀ t ∈ tokens, t.kind = .comment →
    t ∈ s.tokens ∨ s.mode.comment? = some t.offset ∨ s.offset ≤ t.offset

-- Where all comments that were read lie behind a scanner.
def Past (s : Scanner) : Prop :=
  ∀ t ∈ s.tokens, t.kind = .comment → t.finish ≤ s.offset

theorem Tells.mem {t : Token} (h : s.Tells s₁) (hmem : t ∈ s₁.tokens) (hkind : t.kind = .comment) :
    t ∈ s.tokens := by
  obtain ⟨new, hnew, htokens⟩ := h
  rw [htokens] at hmem
  rcases List.mem_append.mp hmem with hmem | hmem
  · exact absurd hkind (hnew t hmem)
  · exact hmem

theorem Tells.kept {t : Token} (h : s.Tells s₁) (hmem : t ∈ s.tokens) : t ∈ s₁.tokens := by
  obtain ⟨new, -, htokens⟩ := h
  rw [htokens]
  exact List.mem_append_right _ hmem

theorem finish_reaches (hp : s.Pending start raw) (h : s.finish = .ok s₁) :
    s.Reaches s₁.tokens := by
  rcases finish_tells hp h with ⟨hnone, hmode, hflush⟩ | ⟨t, hst, hkind, hfinish, rfl⟩
  · have htells := (flush_tells hmode hflush).2.2
    refine ⟨fun t => htells.kept, fun st hst => ?_, fun t ht hkind => .inl (htells.mem ht hkind)⟩
    rw [hnone] at hst
    cases hst
  · refine ⟨fun u hu => List.mem_cons_of_mem _ hu, fun st hst' => ?_, fun u hu _ => ?_⟩
    · cases hst.symm.trans hst'
      exact ⟨t, List.mem_cons_self, hkind, rfl, hfinish.ge⟩
    · rcases List.mem_cons.mp hu with rfl | hu
      · exact .inr (.inl hst)
      · exact .inl hu

theorem offset_of_step (h : s.step c next = .ok s₁) : s₁.offset = s.offset + c.utf8Size := by
  obtain ⟨t, -, rfl⟩ := read_of_step h
  rfl

theorem Passage.reaches (h : Passage s c next s₁) (hoffset : s₁.offset = s.offset + c.utf8Size)
    (hreach : s₁.Reaches tokens) : s.Reaches tokens := by
  have hle : s.offset ≤ s₁.offset := hoffset ▸ Nat.le_add_right _ _
  cases h with
  | outside _ hnone hnone₁ htells =>
      refine ⟨fun t ht => hreach.kept t (htells.kept ht), fun st hst => ?_, fun t ht hkind => ?_⟩
      · rw [hnone] at hst
        cases hst
      · rcases hreach.fresh t ht hkind with hmem | hst | hfar
        · exact .inl (htells.mem hmem hkind)
        · rw [hnone₁] at hst
          cases hst
        · exact .inr (.inr (hle.trans hfar))
  | opens f _ hmode hflush hst₁ htokens =>
      have htells := (flush_tells hmode hflush).2.2
      refine ⟨fun t ht => hreach.kept t (htokens ▸ htells.kept ht), fun st hst => ?_,
        fun t ht hkind => ?_⟩
      · rw [comment?_of_isPlain hmode] at hst
        cases hst
      · rcases hreach.fresh t ht hkind with hmem | hst | hfar
        · exact .inl (htells.mem (htokens ▸ hmem) hkind)
        · have hplace : s.offset = t.offset := Option.some.inj (hst₁.symm.trans hst)
          exact .inr (.inr hplace.le)
        · exact .inr (.inr (hle.trans hfar))
  | inside st _ hst hst₁ htokens =>
      refine ⟨fun t ht => hreach.kept t (htokens ▸ ht), fun st' hst' => ?_, fun t ht hkind => ?_⟩
      · obtain ⟨t, ht, hkind, hplace, hfinish⟩ := hreach.closed st' (hst₁.trans (hst ▸ hst'))
        exact ⟨t, ht, hkind, hplace, hle.trans hfinish⟩
      · rcases hreach.fresh t ht hkind with hmem | hst' | hfar
        · exact .inl (htokens ▸ hmem)
        · exact .inr (.inl (hst.trans (hst₁ ▸ hst')))
        · exact .inr (.inr (hle.trans hfar))
  | closes t _ hst hkind hfinish hidle htokens =>
      refine ⟨fun u hu => hreach.kept u (htokens ▸ List.mem_cons_of_mem _ hu), fun st hst' => ?_,
        fun u hu hkind' => ?_⟩
      · cases hst.symm.trans hst'
        exact ⟨t, hreach.kept t (htokens ▸ List.mem_cons_self), hkind, rfl, hfinish ▸ hle⟩
      · rcases hreach.fresh u hu hkind' with hmem | hst' | hfar
        · rw [htokens] at hmem
          rcases List.mem_cons.mp hmem with rfl | hmem
          · exact .inr (.inl hst)
          · exact .inl hmem
        · rw [hidle] at hst'
          cases hst'
        · exact .inr (.inr (hle.trans hfar))
  | line t _ hst hkind hfinish _ hidle htokens =>
      refine ⟨fun u hu => hreach.kept u (htokens ▸ by simp [hu]), fun st hst' => ?_,
        fun u hu hkind' => ?_⟩
      · cases hst.symm.trans hst'
        exact ⟨t, hreach.kept t (htokens ▸ by simp), hkind, rfl, hfinish.ge⟩
      · rcases hreach.fresh u hu hkind' with hmem | hst' | hfar
        · rw [htokens, List.mem_cons, List.mem_cons] at hmem
          rcases hmem with rfl | rfl | hmem
          · cases hkind'
          · exact .inr (.inl hst)
          · exact .inl hmem
        · rw [hidle] at hst'
          cases hst'
        · exact .inr (.inr (hle.trans hfar))

theorem run_reaches (hp : s.Pending start raw) (h : s.run cs = .ok s₁) :
    s.Reaches s₁.tokens := by
  induction cs generalizing s start raw with
  | nil => exact finish_reaches hp h
  | cons c rest ih =>
      obtain ⟨t, hstep, hrun⟩ := except_bind_ok.mp h
      obtain ⟨-, start₁, raw₁, -, hp₁, -⟩ := step_reads hp hstep
      exact (step_passage hp hstep).reaches (offset_of_step hstep) (ih hp₁ hrun)

theorem Passage.past (h : Passage s c next s₁) (hoffset : s₁.offset = s.offset + c.utf8Size)
    (hpast : s.Past) : s₁.Past := by
  have hle : s.offset ≤ s₁.offset := hoffset ▸ Nat.le_add_right _ _
  intro u hu hkind
  cases h with
  | outside _ _ _ htells => exact (hpast u (htells.mem hu hkind) hkind).trans hle
  | opens f _ hmode hflush _ htokens =>
      have htells := (flush_tells hmode hflush).2.2
      exact (hpast u (htells.mem (htokens ▸ hu) hkind) hkind).trans hle
  | inside _ _ _ _ htokens => exact (hpast u (htokens ▸ hu) hkind).trans hle
  | closes t _ _ _ hfinish _ htokens =>
      rw [htokens] at hu
      rcases List.mem_cons.mp hu with rfl | hu
      · exact hfinish.le
      · exact (hpast u hu hkind).trans hle
  | line t _ _ _ hfinish _ _ htokens =>
      rw [htokens, List.mem_cons, List.mem_cons] at hu
      rcases hu with rfl | rfl | hu
      · cases hkind
      · exact hfinish.le.trans hle
      · exact (hpast u hu hkind).trans hle

theorem comment_le {st : Nat} (hp : s.Pending start raw) (hst : s.mode.comment? = some st) :
    st ≤ s.offset := by
  obtain ⟨hplace, hholds⟩ := hp
  have hstart : st = start := by
    cases hm : s.mode with
    | idle | word | operator | quoted | escape =>
        rw [hm] at hst
        cases hst
    | lineComment | commentOpening | blockComment | commentClosing =>
        rw [hm] at hst hholds
        cases hst
        exact hholds.1
  omega

-- The tokens that are there in the end tell whether a character belongs to a comment.
theorem inComment_eq (hp : s.Pending start raw) (hpast : s.Past) (hstep : s.step c next = .ok s₁)
    (hreach : s₁.Reaches tokens) : inComment tokens s.offset = s.comments c next := by
  have hoffset := offset_of_step hstep
  have hpos := c.utf8Size_pos
  have hcovers : ∀ {st : Nat}, s.comments c next = true → st ≤ s.offset →
      (∃ t ∈ tokens, t.kind = .comment ∧ t.offset = st ∧ s₁.offset ≤ t.finish) →
      inComment tokens s.offset = s.comments c next := by
    rintro st hin hle ⟨t, ht, hkind, rfl, hfinish⟩
    rw [hin]
    exact inComment_iff.mpr ⟨t, ht, hkind, hle, by omega⟩
  have hmisses : s.comments c next = false →
      (∀ t ∈ tokens, t.kind = .comment → t.finish ≤ s.offset ∨ s₁.offset ≤ t.offset) →
      inComment tokens s.offset = s.comments c next := by
    intro hout hall
    rw [hout, Bool.eq_false_iff]
    intro hin
    obtain ⟨t, ht, hkind, hle, hlt⟩ := inComment_iff.mp hin
    have := hall t ht hkind
    omega
  cases step_passage hp hstep with
  | outside hout hnone hnone₁ htells =>
      refine hmisses hout fun t ht hkind => ?_
      rcases hreach.fresh t ht hkind with hmem | hst | hfar
      · exact .inl (hpast t (htells.mem hmem hkind) hkind)
      · rw [hnone₁] at hst
        cases hst
      · exact .inr hfar
  | opens f hin hmode hflush hst₁ htokens => exact hcovers hin (Nat.le_refl _) (hreach.closed _ hst₁)
  | inside st hin hst hst₁ htokens => exact hcovers hin (comment_le hp hst) (hreach.closed st hst₁)
  | closes t hin hst hkind hfinish hidle htokens =>
      exact hcovers hin (comment_le hp hst)
        ⟨t, hreach.kept t (htokens ▸ List.mem_cons_self), hkind, rfl, hfinish.ge⟩
  | line t hout hst hkind hfinish _ hidle htokens =>
      refine hmisses hout fun u hu hkind' => ?_
      rcases hreach.fresh u hu hkind' with hmem | hst' | hfar
      · rw [htokens, List.mem_cons, List.mem_cons] at hmem
        rcases hmem with rfl | rfl | hmem
        · cases hkind'
        · exact .inl hfinish.le
        · exact .inl (hpast u hmem hkind')
      · rw [hidle] at hst'
        cases hst'
      · exact .inr hfar

-- A scanner without the comments that it has read.
def clear (s : Scanner) : Scanner :=
  { s with tokens := s.tokens.filter (·.kind ≠ .comment) }

-- Where a scanner is that reads spaces in place of comments.
def shadow (s : Scanner) : Scanner :=
  if s.mode.comment?.isSome then s.clear.enter .idle else s.clear

theorem shadow_of_none (h : s.mode.comment? = none) : s.shadow = s.clear := by
  simp [shadow, h]

theorem shadow_of_some {st : Nat} (h : s.mode.comment? = some st) :
    s.shadow = s.clear.enter .idle := by
  simp [shadow, h]

theorem clear_emit {kind : Kind} (hkind : kind ≠ .comment) (lexeme : List Char) (offset : Nat) :
    (s.emit lexeme kind offset).clear = s.clear.emit lexeme kind offset := by
  simp [clear, emit, hkind]

theorem flush_clear : s.clear.flush = s.flush.map clear := by
  obtain ⟨mode, offset, tokens⟩ := s
  cases mode with
  | word st text =>
      simp only [flush, clear]
      split
      · rename_i kind hkind
        have hne := not_comment_of_lowered (lowered_of_classifyWord hkind)
        simp [Except.map, clear, emit, hne]
      · rfl
  | operator st text =>
      simp only [flush, clear]
      split
      · simp [Except.map, clear, emit]
      · rfl
  | idle | quoted | escape | lineComment | commentOpening | blockComment | commentClosing => rfl

theorem flush_map_clear {g : Scanner → Scanner} (hg : ∀ f : Scanner, g f.clear = (g f).clear) :
    s.clear.flush.map g = (s.flush.map g).map clear := by
  rw [flush_clear]
  cases s.flush with
  | error d => rfl
  | ok f => exact congrArg Except.ok (hg f)

theorem startsSign_clear : s.clear.startsSign c next = s.startsSign c next := by
  have hafter : s.clear.afterOperand = s.afterOperand := by
    simp [afterOperand, clear, List.find?_filter]
  have hmode : s.clear.mode = s.mode := rfl
  simp only [startsSign, hmode, hafter]

theorem plain_clear (hopen : opensComment c next = false) :
    s.clear.plain c next = (s.plain c next).map clear := by
  have henter : ∀ mode, s.clear.flush.map (·.enter mode) = (s.flush.map (·.enter mode)).map clear :=
    fun mode => flush_map_clear fun f => rfl
  have hline : (c = '#' || (c = '/' && next = some '/')) = false := by
    simp_all [opensComment]
  have hblock : (c = '/' && next = some '*') = false := by
    simp_all [opensComment]
  unfold plain
  simp only [startsSign_clear, hline, hblock, Bool.false_eq_true, if_false]
  split
  · exact henter _
  split
  · rename_i kind hkind
    exact flush_map_clear fun f => (clear_emit (kind_of_punctuation hkind) _ _).symm
  split
  · exact henter _
  split
  · rfl
  · obtain ⟨mode, offset, tokens⟩ := s
    -- an operator goes on with an operator, and a word with a word
    split
    · cases mode with
      | operator => rfl
      | _ => exact henter _
    · cases mode with
      | word => rfl
      | _ => exact henter _

theorem step_clear (hnone : s.mode.comment? = none) (hout : s.comments c next = false) :
    s.clear.step c next = (s.step c next).map clear := by
  have hread : s.clear.read c next = (s.read c next).map clear := by
    cases hm : s.mode with
    | idle | word | operator =>
        have hmode : s.clear.mode = s.mode := rfl
        simp only [comments, hm] at hout
        simp only [read, hmode, hm]
        exact plain_clear hout
    | quoted st text =>
        simp only [read, clear, hm]
        split_ifs
        · exact congrArg Except.ok (clear_emit (by decide) _ _).symm
        · rfl
        · rfl
    | escape st text =>
        simp only [read, clear, hm]
        split_ifs <;> rfl
    | lineComment | commentOpening | blockComment | commentClosing =>
        rw [hm] at hnone
        cases hnone
  unfold step
  rw [hread]
  cases s.read c next <;> rfl

-- No character looks at a comment behind it, but to open one itself.
theorem step_before_comment (hnone : s.mode.comment? = none) (hd : d = '#' ∨ d = '/')
    (hout : s.comments c (some d) = false) : s.step c (some ' ') = s.step c (some d) := by
  have hplain : opensComment c (some d) = false → s.plain c (some ' ') = s.plain c (some d) := by
    intro hopen
    have hline : (c = '#' || (c = '/' && some d = some '/')) = false := by
      simp_all [opensComment]
    have hblock : (c = '/' && some d = some '*') = false := by
      simp_all [opensComment]
    have hhash : c ≠ '#' := by
      rintro rfl
      simp at hline
    have hline' : (c = '#' || (c = '/' && some ' ' = some '/')) = false := by simp [hhash]
    have hblock' : (c = '/' && some ' ' = some '*') = false := by simp
    have hdigit : d.isDigit = false := by
      rcases hd with rfl | rfl <;> rfl
    have hsign : s.startsSign c (some ' ') = s.startsSign c (some d) := by
      simp only [startsSign, Option.map_some, hdigit]
      rfl
    unfold plain
    simp only [hline, hline', hblock, hblock', hsign]
  cases hm : s.mode with
  | idle | word | operator =>
      simp only [comments, hm] at hout
      simp only [step, read, hm, hplain hout]
  | quoted | escape => simp only [step, read, hm]
  | lineComment | commentOpening | blockComment | commentClosing =>
      rw [hm] at hnone
      cases hnone

theorem run_cons (s : Scanner) (c : Char) (cs : List Char) :
    s.run (c :: cs) = s.step c cs.head? >>= fun t => t.run cs :=
  rfl

theorem step_space (hmode : s.mode.isPlain) (hflush : s.flush = .ok f) :
    s.step ' ' next = .ok ⟨.idle, s.offset + 1, f.tokens⟩ := by
  have hplain : s.plain ' ' next = s.flush.map (·.enter .idle) := by
    have hblank : Text.isBlank ' ' = true := by decide
    simp [plain, punctuation?, hblank]
  have hread : s.read ' ' next = s.plain ' ' next := by
    cases hm : s.mode with
    | idle | word | operator => simp only [read, hm]
    | _ =>
        rw [hm] at hmode
        cases hmode
  rw [step, hread, hplain, hflush]
  rfl

-- Spaces end what is being read, and are all that is read then.
theorem run_spaces {n : Nat} (hn : 0 < n) (hmode : s.mode.isPlain) (hflush : s.flush = .ok f)
    (cs : List Char) :
    s.run (List.replicate n ' ' ++ cs) = run ⟨.idle, s.offset + n, f.tokens⟩ cs := by
  induction n generalizing s f with
  | zero => exact absurd hn (Nat.lt_irrefl 0)
  | succ n ih =>
      rw [List.replicate_succ, List.cons_append, run_cons, step_space hmode hflush]
      change run ⟨.idle, s.offset + 1, f.tokens⟩ (List.replicate n ' ' ++ cs) = _
      cases n with
      | zero => rfl
      | succ n =>
          rw [ih (Nat.succ_pos n) rfl rfl]
          simp only [Nat.add_assoc, Nat.add_comm 1]

-- What a text without comments has at a place where the text with comments has something else.
theorem head_blankFrom (hp : s.Pending start raw) (hpast : s.Past)
    (hnone : s.mode.comment? = none) (h : s.run cs = .ok s₁) :
    (blankFrom s₁.tokens s.offset cs).head? = cs.head? ∨
      (blankFrom s₁.tokens s.offset cs).head? = some ' ' ∧
        ∃ d, cs.head? = some d ∧ (d = '#' ∨ d = '/') := by
  cases cs with
  | nil => exact .inl rfl
  | cons d rest =>
      obtain ⟨t, hstep, hrun⟩ := except_bind_ok.mp h
      obtain ⟨-, start₁, raw₁, -, hp₁, -⟩ := step_reads hp hstep
      have hin := inComment_eq hp hpast hstep (run_reaches hp₁ hrun)
      by_cases hcomments : s.comments d rest.head? = true
      · right
        rw [hcomments] at hin
        obtain ⟨n, hn⟩ : ∃ n, d.utf8Size = n + 1 :=
          Nat.exists_eq_succ_of_ne_zero d.utf8Size_pos.ne'
        refine ⟨by simp [blankFrom, hin, hn, List.replicate_succ], d, rfl, ?_⟩
        have hopen : opensComment d rest.head? = true := by
          cases hm : s.mode with
          | idle | word | operator => simpa [comments, hm] using hcomments
          | quoted | escape => simp [comments, hm] at hcomments
          | lineComment | commentOpening | blockComment | commentClosing =>
              rw [hm] at hnone
              cases hnone
        simp only [opensComment, Bool.or_eq_true, decide_eq_true_eq, Bool.and_eq_true] at hopen
        exact hopen.imp_right And.left
      · left
        rw [Bool.eq_false_iff.mpr hcomments] at hin
        simp [blankFrom, hin]

theorem finish_of_isPlain (hmode : s.mode.isPlain) : s.finish = s.flush := by
  cases hm : s.mode with
  | idle | word | operator => simp only [finish, hm]
  | _ =>
      rw [hm] at hmode
      cases hmode

theorem clear_comment {t : Token} (hkind : t.kind = .comment) (mode : Mode) (offset : Nat)
    (tokens : List Token) :
    clear ⟨mode, offset, t :: tokens⟩ = clear ⟨mode, offset, tokens⟩ := by
  simp [clear, hkind]

-- The two scanners stay together: one reads the text, and the other the text without its comments.
theorem run_shadow (hp : s.Pending start raw) (hpast : s.Past) (h : s.run cs = .ok s₁) :
    s.shadow.run (blankFrom s₁.tokens s.offset cs) = .ok s₁.clear := by
  induction cs generalizing s start raw with
  | nil =>
      change s.shadow.finish = .ok s₁.clear
      rcases finish_tells hp h with ⟨hnone, hmode, hflush⟩ | ⟨t, hst, hkind, -, rfl⟩
      · rw [shadow_of_none hnone, finish_of_isPlain (s := s.clear) hmode, flush_clear, hflush]
        rfl
      · rw [shadow_of_some hst, clear_comment hkind]
        rfl
  | cons c rest ih =>
      obtain ⟨t, hstep, hrun⟩ := except_bind_ok.mp h
      obtain ⟨-, start₁, raw₁, -, hp₁, -⟩ := step_reads hp hstep
      have hoffset := offset_of_step hstep
      have hpassage := step_passage hp hstep
      have hpast₁ := hpassage.past hoffset hpast
      have hrest := ih hp₁ hpast₁ hrun
      have hin := inComment_eq hp hpast hstep (run_reaches hp₁ hrun)
      rw [hoffset] at hrest
      rw [blankFrom, hin]
      -- the spaces that stand for a character of a comment
      have hspaces : ∀ {g : Scanner}, s.shadow.mode.isPlain → s.shadow.flush = .ok g →
          t.shadow = ⟨.idle, s.offset + c.utf8Size, g.tokens⟩ →
          s.shadow.run (List.replicate c.utf8Size ' ' ++
            blankFrom s₁.tokens (s.offset + c.utf8Size) rest) = .ok s₁.clear := by
        intro g hmode hflush ht
        have hplace : s.shadow.offset = s.offset := by
          unfold shadow
          split <;> rfl
        rw [run_spaces c.utf8Size_pos hmode hflush, hplace, ← ht]
        exact hrest
      cases hpassage with
      | outside hout hnone hnone₁ htells =>
          rw [hout, if_neg Bool.false_ne_true, List.singleton_append, run_cons,
            shadow_of_none hnone]
          rw [shadow_of_none hnone₁] at hrest
          have hsame : s.clear.step c rest.head? = .ok t.clear := by
            rw [step_clear hnone hout, hstep]
            rfl
          have hhead := head_blankFrom hp₁ hpast₁ hnone₁ hrun
          rw [hoffset] at hhead
          rcases hhead with hhead | ⟨hhead, d, hd, hmark⟩
          · rw [hhead, hsame]
            exact hrest
          · rw [hd] at hsame hout
            rw [hhead, step_before_comment (s := s.clear) hnone hmark hout, hsame]
            exact hrest
      | opens f hin' hmode hflush hst₁ htokens =>
          have hnone := comment?_of_isPlain hmode
          rw [hin', if_pos rfl]
          refine hspaces (g := f.clear) ?_ ?_ ?_
          · rw [shadow_of_none hnone]
            exact hmode
          · rw [shadow_of_none hnone, flush_clear, hflush]
            rfl
          · rw [shadow_of_some hst₁]
            simp [clear, enter, hoffset, htokens]
      | inside st hin' hst hst₁ htokens =>
          rw [hin', if_pos rfl]
          rw [shadow_of_some hst] at hspaces ⊢
          refine hspaces (g := s.clear.enter .idle) rfl rfl ?_
          rw [shadow_of_some hst₁]
          simp [clear, enter, hoffset, htokens]
      | closes u hin' hst hkind _ hidle htokens =>
          rw [hin', if_pos rfl]
          rw [shadow_of_some hst] at hspaces ⊢
          refine hspaces (g := s.clear.enter .idle) rfl rfl ?_
          rw [shadow_of_none (by rw [hidle]; rfl)]
          simp [clear, enter, hoffset, htokens, hkind, hidle]
      | line u hout hst hkind _ hc hidle htokens =>
          subst hc
          rw [hout, if_neg Bool.false_ne_true, List.singleton_append, run_cons, shadow_of_some hst]
          rw [shadow_of_none (by rw [hidle]; rfl)] at hrest
          have hline : t.clear = ⟨.idle, s.offset + '\n'.utf8Size,
              ⟨"\n", .endLine, s.offset⟩ :: s.clear.tokens⟩ := by
            simp [clear, hoffset, htokens, hkind, hidle]
          rw [hline] at hrest
          exact hrest

end Scanner

theorem blankFrom_reverse : blankFrom tokens.reverse offset cs = blankFrom tokens offset cs := by
  induction cs generalizing offset with
  | nil => rfl
  | cons c rest ih =>
      have hin : inComment tokens.reverse offset = inComment tokens offset := List.any_reverse
      rw [blankFrom, blankFrom, hin, ih]

-- Comments are blanks: without them a source text has the same tokens at the same places.
theorem scan_blanked {source : String} (h : scanAll source = .ok tokens) :
    scanAll (blanked source tokens) = .ok (tokens.filter (·.kind ≠ .comment)) ∧
      scan (blanked source tokens) = scan source ∧
      byteCount (blanked source tokens).toList = byteCount source.toList := by
  obtain ⟨s, hrun, rfl⟩ : ∃ s, Scanner.start.run source.toList = .ok s ∧
      s.tokens.reverse = tokens := by
    unfold scanAll at h
    cases hrun : Scanner.start.run source.toList with
    | error d =>
        rw [hrun] at h
        cases h
    | ok s =>
        rw [hrun] at h
        cases h
        exact ⟨s, rfl, rfl⟩
  have hstart : Scanner.start.Pending 0 [] := ⟨rfl, rfl⟩
  have hpast : Scanner.start.Past := by simp [Scanner.Past, Scanner.start]
  have hshadow := Scanner.run_shadow hstart hpast hrun
  have hblanked : scanAll (blanked source s.tokens.reverse) =
      .ok (s.tokens.reverse.filter (·.kind ≠ .comment)) := by
    rw [scanAll, blanked, String.toList_ofList, blankFrom_reverse]
    change Except.map _ (Scanner.start.shadow.run (blankFrom s.tokens Scanner.start.offset _)) = _
    rw [hshadow]
    simp [Except.map, Scanner.clear]
  refine ⟨hblanked, ?_, ?_⟩
  · rw [scan, scan, hblanked, h]
    simp [Except.map]
  · rw [blanked, String.toList_ofList, byteCount_blankFrom]

-- A minus behind a comment behind an operand, openings of comments in a string and behind an
-- operator, a comment of several lines and one with characters of two bytes.
def remarks : String :=
  "x/**/-1 /* [\n\" */ * -2//é\n\"/*\" #\""

def remarksTokens : List Token :=
  [⟨"x", .identifier, 0⟩, ⟨"/**/", .comment, 1⟩, ⟨"-", .operator, 5⟩, ⟨"1", .numLiteral, 6⟩,
   ⟨"/* [\n\" */", .comment, 8⟩, ⟨"*", .operator, 18⟩, ⟨"-2", .numLiteral, 20⟩,
   ⟨"//é", .comment, 22⟩, ⟨"\n", .endLine, 26⟩, ⟨"/*", .stringLiteral, 27⟩,
   ⟨"#\"", .comment, 32⟩]

theorem scan_blanked_remarks : scanAll remarks = .ok remarksTokens ∧
    blanked remarks remarksTokens = "x    -1           * -2    \n\"/*\"   " ∧
    scanAll (blanked remarks remarksTokens) =
      .ok (remarksTokens.filter (·.kind ≠ .comment)) ∧
    scan (blanked remarks remarksTokens) = scan remarks ∧
    byteCount (blanked remarks remarksTokens).toList = byteCount remarks.toList := by
  have htokens : (scanAll remarks).toOption = some remarksTokens := by decide +kernel
  have hscan : scanAll remarks = .ok remarksTokens := by
    cases hresult : scanAll remarks with
    | error d =>
        rw [hresult] at htokens
        cases htokens
    | ok tokens =>
        rw [hresult] at htokens
        exact congrArg Except.ok (Option.some.inj htokens)
  exact ⟨hscan, by decide +kernel, scan_blanked hscan⟩

end HostScript.Token
