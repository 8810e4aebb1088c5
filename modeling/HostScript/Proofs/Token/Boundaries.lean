import HostScript.Proofs.Script.Parsed
import HostScript.Proofs.Token.Spans
import Mathlib.Data.String.Basic

namespace HostScript.Token

variable {cs : List Char} {offset : Nat}

-- A place in front of a character of a text or behind its last one, in bytes.
def Boundary (cs : List Char) (offset : Nat) : Prop :=
  ∃ before after, cs = before ++ after ∧ byteCount before = offset

theorem boundary_append (before after : List Char) :
    Boundary (before ++ after) (byteCount before) :=
  ⟨before, after, rfl, rfl⟩

theorem boundary_zero (cs : List Char) : Boundary cs 0 :=
  boundary_append [] cs

theorem Boundary.le (h : Boundary cs offset) : offset ≤ byteCount cs := by
  obtain ⟨before, after, rfl, rfl⟩ := h
  rw [byteCount_append]
  exact Nat.le_add_right _ _

-- Of two places between characters the later one has more text in front of it.
theorem exists_append_of_byteCount_lt {first second after behind : List Char}
    (h : first ++ after = second ++ behind) (hlt : byteCount first < byteCount second) :
    ∃ more, more ≠ [] ∧ second = first ++ more := by
  rcases List.append_eq_append_iff.mp h with ⟨more, hsecond, -⟩ | ⟨more, hfirst, -⟩
  · refine ⟨more, ?_, hsecond⟩
    rintro rfl
    rw [hsecond, List.append_nil] at hlt
    exact Nat.lt_irrefl _ hlt
  · rw [hfirst, byteCount_append] at hlt
    omega

-- Where a token stands in a text, and how it is written there.
theorem Laid.exists_span {start : Nat} {tokens : List Token} (h : Laid start cs tokens) :
    ∀ t ∈ tokens, ∃ before span after, cs = before ++ span ++ after ∧
      t.offset = start + byteCount before ∧ t.Spells span := by
  induction h with
  | done => simp
  | @blank start c rest tokens _ _ _ ih =>
      intro t ht
      obtain ⟨before, span, after, rfl, hoffset, hspells⟩ := ih t ht
      refine ⟨c :: before, span, after, rfl, ?_, hspells⟩
      rw [hoffset, byteCount_cons, Nat.add_assoc]
  | @token t span rest tokens _ hspells _ ih =>
      intro u hu
      rcases List.mem_cons.mp hu with rfl | hu
      · exact ⟨[], span, rest, rfl, rfl, hspells⟩
      · obtain ⟨before, span', after, rfl, hoffset, hspells'⟩ := ih u hu
        refine ⟨span ++ before, span', after, by simp, ?_, hspells'⟩
        rw [hoffset, byteCount_append, Nat.add_assoc]

-- Tokens stand at boundaries.
theorem exists_span_of_scan {source : String} {tokens : List Token}
    (h : scan source = .ok tokens) : ∀ t ∈ tokens, ∃ before span after,
      source.toList = before ++ span ++ after ∧ t.offset = byteCount before ∧ t.Spells span := by
  unfold scan at h
  cases hall : scanAll source with
  | error d =>
      rw [hall] at h
      cases h
  | ok all =>
      rw [hall] at h
      cases h
      intro t ht
      obtain ⟨before, span, after, hsource, hoffset, hspells⟩ :=
        (laid_of_scanAll hall).1.exists_span t (List.mem_filter.mp ht).1
      exact ⟨before, span, after, hsource, hoffset.trans (Nat.zero_add _), hspells⟩

theorem boundary_of_scan {source : String} {tokens : List Token} (h : scan source = .ok tokens) :
    ∀ t ∈ tokens, Boundary source.toList t.offset := by
  intro t ht
  obtain ⟨before, span, after, hsource, hoffset, -⟩ := exists_span_of_scan h t ht
  exact ⟨before, span ++ after, by rw [hsource, List.append_assoc], hoffset.symm⟩

-- Where what is being read starts.
def Mode.start? : Mode → Option Nat
  | .idle => none
  | .word st _ | .operator st _ | .quoted st _ | .escape st _ | .lineComment st _
  | .commentOpening st | .blockComment st _ | .commentClosing st _ => some st

namespace Scanner

variable {B : Nat → Prop} {s : Scanner} {c : Char} {next : Option Char}

-- A scanner in a place as `B` says, where what is being read starts in such a place too.
structure Sound (B : Nat → Prop) (s : Scanner) : Prop where
  offset : B s.offset
  start : ∀ st, s.mode.start? = some st → B st
  escape : ∀ st text, s.mode = .escape st text → B (s.offset - 1)

-- What reading a character leads to: something that starts in such a place, and is an escape only
-- behind a backslash, or a problem in such a place.
def Keeps (B : Nat → Prop) (c : Char) : Except Diagnostic Scanner → Prop
  | .ok t => (∀ st, t.mode.start? = some st → B st) ∧
      ∀ st text, t.mode = .escape st text → c = '\\'
  | .error d => B d.offset

theorem keeps_idle {t : Scanner} (h : t.mode = .idle) : Keeps B c (.ok t) := by
  simp [Keeps, h, Mode.start?]

theorem keeps_mode {t : Scanner} {st : Nat} (h : t.mode.start? = some st) (hst : B st)
    (hescape : ∀ st text, t.mode = .escape st text → c = '\\') : Keeps B c (.ok t) := by
  refine ⟨fun st' h' => ?_, hescape⟩
  cases h.symm.trans h'
  exact hst

theorem Sound.flush_map (h : s.Sound B) (hmode : s.mode.isPlain) {f : Scanner → Scanner}
    (hf : ∀ t, t.mode = .idle → t.offset = s.offset → Keeps B c (.ok (f t))) :
    Keeps B c (s.flush.map f) := by
  obtain ⟨mode, offset, tokens⟩ := s
  cases mode with
  | idle => exact hf _ rfl rfl
  | word st text =>
      simp only [Scanner.flush]
      split
      · exact hf _ rfl rfl
      · exact h.start st rfl
  | operator st text =>
      simp only [Scanner.flush]
      split
      · exact hf _ rfl rfl
      · exact h.start st rfl
  | _ => cases hmode

theorem Sound.plain (h : s.Sound B) (hmode : s.mode.isPlain) : Keeps B c (s.plain c next) := by
  have henter : ∀ {mode : Mode}, mode.start? = some s.offset →
      (∀ st text, mode = .escape st text → c = '\\') → Keeps B c (s.flush.map (·.enter mode)) :=
    fun hstart hescape => h.flush_map hmode fun _ _ _ => keeps_mode hstart h.offset hescape
  unfold Scanner.plain
  split
  · exact henter rfl nofun
  split
  · exact henter rfl nofun
  split
  · exact henter rfl nofun
  split
  · exact h.flush_map hmode fun _ _ _ => keeps_idle rfl
  split
  · exact h.flush_map hmode fun _ _ _ => keeps_idle rfl
  split
  · exact keeps_mode rfl h.offset nofun
  split
  · split
    · rename_i st text hm
      exact keeps_mode rfl (h.start st (by rw [hm]; rfl)) nofun
    · exact henter rfl nofun
  · split
    · rename_i st text hm
      exact keeps_mode rfl (h.start st (by rw [hm]; rfl)) nofun
    · exact henter rfl nofun

theorem Sound.read (h : s.Sound B) : Keeps B c (s.read c next) := by
  cases hm : s.mode with
  | idle | word | operator =>
      simp only [Scanner.read, hm]
      exact h.plain (by simp [hm, Mode.isPlain])
  | quoted st text =>
      have hst : B st := h.start st (by rw [hm]; rfl)
      simp only [Scanner.read, hm]
      split
      · exact keeps_idle rfl
      split
      · rename_i hescape
        exact keeps_mode rfl hst fun _ _ _ => hescape
      · exact keeps_mode rfl hst fun _ _ h => by cases h
  | escape st text =>
      have hst : B st := h.start st (by rw [hm]; rfl)
      simp only [Scanner.read, hm]
      split
      · exact keeps_mode rfl hst fun _ _ h => by cases h
      split
      · exact keeps_mode rfl hst fun _ _ h => by cases h
      · exact h.escape st text hm
  | lineComment st text =>
      have hst : B st := h.start st (by rw [hm]; rfl)
      simp only [Scanner.read, hm]
      split
      · exact keeps_idle rfl
      · exact keeps_mode rfl hst fun _ _ h => by cases h
  | commentOpening st =>
      simp only [Scanner.read, hm]
      exact keeps_mode rfl (h.start st (by rw [hm]; rfl)) fun _ _ h => by cases h
  | blockComment st text =>
      have hst : B st := h.start st (by rw [hm]; rfl)
      simp only [Scanner.read, hm]
      split
      · exact keeps_mode rfl hst fun _ _ h => by cases h
      · exact keeps_mode rfl hst fun _ _ h => by cases h
  | commentClosing st text =>
      simp only [Scanner.read, hm]
      exact keeps_idle rfl

theorem Sound.finish {d : Diagnostic} (h : s.Sound B) (hs : s.finish = .error d) : B d.offset := by
  have hflush : s.mode.isPlain → s.flush = .error d → B d.offset := by
    intro hmode hflush
    have hkeeps : Keeps B 'a' (s.flush.map id) := h.flush_map hmode fun _ ht _ => keeps_idle ht
    rw [hflush] at hkeeps
    exact hkeeps
  cases hm : s.mode with
  | idle | word | operator =>
      simp only [Scanner.finish, hm] at hs
      exact hflush (by simp [hm, Mode.isPlain]) hs
  | lineComment st text =>
      simp only [Scanner.finish, hm] at hs
      cases hs
  | escape st text =>
      simp only [Scanner.finish, hm] at hs
      cases hs
      exact h.escape st text hm
  | quoted | commentOpening | blockComment | commentClosing =>
      simp only [Scanner.finish, hm] at hs
      cases hs
      exact h.start _ (by rw [hm]; rfl)

-- A problem is found where one of the characters stands, or behind the last one.
theorem Sound.run {d : Diagnostic} (h : s.Sound B)
    (hcs : ∀ before after, cs = before ++ after → B (s.offset + byteCount before))
    (hs : s.run cs = .error d) : B d.offset := by
  induction cs generalizing s with
  | nil => exact h.finish hs
  | cons c rest ih =>
      have hkeeps : Keeps B c (s.read c rest.head?) := h.read
      rcases except_bind_error.mp hs with hstep | ⟨s₁, hstep, hrun⟩
      · unfold step at hstep
        cases hread : s.read c rest.head? with
        | error d' =>
            rw [hread] at hstep hkeeps
            cases hstep
            exact hkeeps
        | ok t =>
            rw [hread] at hstep
            cases hstep
      · unfold step at hstep
        cases hread : s.read c rest.head? with
        | error d' =>
            rw [hread] at hstep
            cases hstep
        | ok t =>
            rw [hread] at hstep hkeeps
            cases hstep
            obtain ⟨hstart, hescape⟩ := hkeeps
            have hsound : Sound B { t with offset := s.offset + c.utf8Size } := by
              refine ⟨by simpa using hcs [c] rest rfl, hstart, fun st text hm => ?_⟩
              cases hescape st text hm
              exact h.offset
            refine ih hsound (fun before after hrest => ?_) hrun
            have hplace := hcs (c :: before) after (by rw [hrest]; rfl)
            rw [byteCount_cons, ← Nat.add_assoc] at hplace
            exact hplace

end Scanner

theorem boundary_of_scan_error {source : String} {d : Diagnostic} (h : scan source = .error d) :
    Boundary source.toList d.offset := by
  unfold scan scanAll at h
  cases hrun : Scanner.start.run source.toList with
  | error d' =>
      rw [hrun] at h
      cases h
      have hsound : Scanner.start.Sound (Boundary source.toList) :=
        ⟨boundary_zero _, nofun, nofun⟩
      refine hsound.run (fun before after hsource => ?_) hrun
      exact ⟨before, after, hsource, (Nat.zero_add _).symm⟩
  | ok s =>
      rw [hrun] at h
      cases h

theorem byteCount_toList (text : String) : byteCount text.toList = text.utf8ByteSize := by
  suffices ∀ cs, byteCount cs = String.utf8Len cs by
    rw [this, ← String.utf8ByteSize_ofList, String.ofList_toList]
  intro cs
  induction cs with
  | nil => rfl
  | cons c cs ih => rw [byteCount_cons, ih, String.utf8Len_cons, Nat.add_comm]

-- Where all characters take one byte, there is one in front of each byte.
theorem boundary_of_le (hnarrow : ∀ c ∈ cs, c.utf8Size = 1) (h : offset ≤ byteCount cs) :
    Boundary cs offset := by
  induction cs generalizing offset with
  | nil =>
      cases Nat.le_zero.mp h
      exact boundary_zero []
  | cons c cs ih =>
      cases offset with
      | zero => exact boundary_zero _
      | succ n =>
          have hc : c.utf8Size = 1 := hnarrow c List.mem_cons_self
          rw [byteCount_cons, hc, Nat.add_comm] at h
          have hn : n ≤ byteCount cs := by omega
          obtain ⟨before, after, hcs, hbefore⟩ :=
            ih (fun d hd => hnarrow d (List.mem_cons_of_mem _ hd)) hn
          refine ⟨c :: before, after, by rw [hcs]; rfl, ?_⟩
          rw [byteCount_cons, hc, hbefore, Nat.add_comm]

section Lexemes

variable {c : Char}

theorem utf8Size_toLower (hc : c.utf8Size = 1) : c.toLower.utf8Size = 1 := by
  rw [Char.utf8Size_eq_one_iff] at hc ⊢
  unfold Char.toLower
  split
  · rename_i hupper
    have hle : c.val.toNat ≤ 90 := UInt32.le_iff_toNat_le.mp hupper.2
    change c.val + 32 ≤ 127
    rw [UInt32.le_iff_toNat_le, UInt32.toNat_add]
    simp only [UInt32.reduceToNat]
    omega
  · exact hc

theorem byteCount_lowerIn {before rest : List Char} (hc : c.utf8Size = 1) :
    byteCount (Text.lowerIn before c rest) = 1 := by
  have hlow : c.toNat < 128 := Nat.lt_succ_of_le (Char.utf8Size_eq_one_iff.mp hc)
  have hsigma : c ≠ 'Σ' := by
    rintro rfl
    exact absurd hlow (by decide)
  rw [Text.lowerIn, if_neg hsigma, Text.lowerChar, if_pos hlow, byteCount_cons,
    byteCount_nil, utf8Size_toLower hc]

theorem byteCount_lowerChars (hnarrow : ∀ c ∈ cs, c.utf8Size = 1) :
    byteCount (Text.lowerChars cs) = byteCount cs := by
  suffices ∀ before, byteCount (Text.lowerFrom before cs) = byteCount cs from this []
  induction cs with
  | nil => exact fun _ => rfl
  | cons c cs ih =>
      intro before
      have hc : c.utf8Size = 1 := hnarrow c List.mem_cons_self
      rw [Text.lowerFrom, byteCount_append, byteCount_lowerIn hc, byteCount_cons, hc,
        ih fun d hd => hnarrow d (List.mem_cons_of_mem _ hd)]

theorem byteCount_unescape? {text : List Char} (h : unescape? cs = some text) :
    byteCount text ≤ byteCount cs := by
  fun_induction unescape? cs generalizing text with
  | case1 =>
      cases h
      exact Nat.le_refl _
  | case2 c rest ih =>
      simp only [bind, Option.bind_eq_some_iff, pure, Option.some.injEq] at h
      obtain ⟨e, he, t, ht, rfl⟩ := h
      have hrest : byteCount t ≤ byteCount rest := ih ht
      have hsize : e.utf8Size ≤ 1 := by
        unfold escaped? at he
        split at he <;> cases he <;> decide
      simp only [byteCount_cons]
      have hpos := c.utf8Size_pos
      omega
  | case3 c rest hne hbad => cases h
  | case4 c rest hne hgood ih =>
      obtain ⟨t, ht, rfl⟩ := Option.map_eq_some_iff.mp h
      simp only [byteCount_cons]
      exact Nat.add_le_add_left (ih ht) _

end Lexemes

def Kind.isMark : Kind → Bool
  | .endLine | .openBracket | .closedBracket | .colon => true
  | _ => false

-- The lexeme of a punctuation mark takes one byte.
def Slim (t : Token) : Prop :=
  t.kind.isMark → t.lexeme.utf8ByteSize = 1

theorem emits_slim : Emits Slim where
  word {_ _ kind} h _ hmark := by
    have hlowered : kind.isLowered := Scanner.lowered_of_classifyWord h
    cases kind <;> cases hmark <;> cases hlowered
  operator _ _ hmark := by cases hmark
  punctuation {c kind} h _ _ := by
    unfold Scanner.punctuation? at h
    repeat' split at h
    all_goals cases h
    all_goals subst_vars; rfl
  string _ _ hmark := by cases hmark
  comment _ _ hmark := by cases hmark

-- No lexeme takes more bytes than what is written, if all that is written takes a byte each.
theorem Spells.size_le {t : Token} {span : List Char} (h : t.Spells span) (hslim : t.Slim)
    (hnarrow : ∀ c ∈ span, c.utf8Size = 1) : t.lexeme.utf8ByteSize ≤ byteCount span := by
  have hlowered (hlower : Text.lowerChars span = t.lexeme.toList) :
      t.lexeme.utf8ByteSize ≤ byteCount span := by
    rw [← byteCount_toList, ← hlower, byteCount_lowerChars hnarrow]
  have hmark (hmark : t.kind.isMark) {c : Char} (hspan : span = [c]) :
      t.lexeme.utf8ByteSize ≤ byteCount span := by
    rw [hslim hmark, hspan, byteCount_cons]
    exact Nat.le_add_right_of_le c.utf8Size_pos
  unfold Spells at h
  split at h
  · rw [h, byteCount_toList]
  · rename_i hkind
    exact hmark (by rw [hkind]; rfl) h
  · rename_i hkind
    exact hmark (by rw [hkind]; rfl) h
  · rename_i hkind
    exact hmark (by rw [hkind]; rfl) h
  · rename_i hkind
    exact hmark (by rw [hkind]; rfl) h
  · obtain ⟨body, rfl, hbody⟩ := h
    have hle := byteCount_unescape? hbody
    rw [byteCount_toList] at hle
    simp only [List.cons_append, byteCount_cons, byteCount_append]
    omega
  · exact hlowered h

end HostScript.Token
