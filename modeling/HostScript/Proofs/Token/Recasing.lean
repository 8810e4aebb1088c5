import HostScript.Compile.Basic
import HostScript.Proofs.Stateful

namespace HostScript

-- What does not tell upper case from lower case letters.
def Caseless {α : Type} (p : Char → α) : Prop :=
  ∀ c, p c.toLower = p c

section Letters

variable {α : Type} {p : Char → α} {c c' : Char}

theorem Caseless.congr (hp : Caseless p) (h : c.toLower = c'.toLower) : p c = p c' := by
  rw [← hp c, h, hp c']

theorem toLower_upper : ∀ n < 26, (Char.ofNat (65 + n)).toLower = Char.ofNat (97 + n) := by
  decide

-- The letters in upper case are the characters that have another form in lower case.
theorem upper_or_toLower_eq (c : Char) :
    (∃ n < 26, c = Char.ofNat (65 + n)) ∨ c.toLower = c := by
  by_cases hupper : 65 ≤ c.toNat ∧ c.toNat ≤ 90
  · refine .inl ⟨c.toNat - 65, by omega, ?_⟩
    rw [show 65 + (c.toNat - 65) = c.toNat by omega, Char.ofNat_toNat]
  · right
    unfold Char.toLower
    split
    · rename_i h
      have hlow : 65 ≤ c.toNat := UInt32.le_iff_toNat_le.mp h.1
      have hhigh : c.toNat ≤ 90 := UInt32.le_iff_toNat_le.mp h.2
      exact absurd ⟨hlow, hhigh⟩ hupper
    · rfl

theorem caseless_of_letters (h : ∀ n < 26, p (Char.ofNat (97 + n)) = p (Char.ofNat (65 + n))) :
    Caseless p := by
  intro c
  rcases upper_or_toLower_eq c with ⟨n, hn, rfl⟩ | hsame
  · rw [toLower_upper n hn]
    exact h n hn
  · rw [hsame]

theorem caseless_isAlpha : Caseless Char.isAlpha :=
  caseless_of_letters (by decide)

theorem caseless_isDigit : Caseless Char.isDigit :=
  caseless_of_letters (by decide)

theorem caseless_utf8Size : Caseless Char.utf8Size :=
  caseless_of_letters (by decide)

-- Only letters have two forms.
theorem eq_of_not_isAlpha (h : c.toLower = c'.toLower) (hc : c.isAlpha = false) : c' = c := by
  have hc' : c'.isAlpha = false := (caseless_isAlpha.congr h).symm.trans hc
  have hsame : ∀ {d : Char}, d.isAlpha = false → d.toLower = d := by
    intro d hd
    rcases upper_or_toLower_eq d with ⟨n, hn, rfl⟩ | hsame
    · have hletters : ∀ n < 26, (Char.ofNat (65 + n)).isAlpha = true := by decide
      rw [hletters n hn] at hd
      cases hd
    · exact hsame
  rw [hsame hc, hsame hc'] at h
  exact h.symm

-- What holds of the letters in both cases.
theorem of_isAlpha {p : Char → Bool}
    (h : ∀ n < 26, p (Char.ofNat (65 + n)) = true ∧ p (Char.ofNat (97 + n)) = true)
    (hc : c.isAlpha) : p c = true := by
  have hcases : (65 ≤ c.toNat ∧ c.toNat ≤ 90) ∨ (97 ≤ c.toNat ∧ c.toNat ≤ 122) := by
    simp only [Char.isAlpha, Char.isUpper, Char.isLower, Bool.or_eq_true, Bool.and_eq_true,
      decide_eq_true_eq] at hc
    rcases hc with hc | hc
    · exact .inl ⟨UInt32.le_iff_toNat_le.mp hc.1, UInt32.le_iff_toNat_le.mp hc.2⟩
    · exact .inr ⟨UInt32.le_iff_toNat_le.mp hc.1, UInt32.le_iff_toNat_le.mp hc.2⟩
  rcases hcases with ⟨hlow, hhigh⟩ | ⟨hlow, hhigh⟩
  · have hletter := (h (c.toNat - 65) (by omega)).1
    rwa [show 65 + (c.toNat - 65) = c.toNat by omega, Char.ofNat_toNat] at hletter
  · have hletter := (h (c.toNat - 97) (by omega)).2
    rwa [show 97 + (c.toNat - 97) = c.toNat by omega, Char.ofNat_toNat] at hletter

end Letters

namespace Text

variable {cs cs' before before' rest rest' : List Char} {c c' : Char}

theorem caseless_isCased : Caseless isCased :=
  caseless_of_letters (by decide +kernel)

theorem caseless_isCaseIgnorable : Caseless isCaseIgnorable :=
  caseless_of_letters (by decide +kernel)

theorem caseless_lowerChar : Caseless lowerChar :=
  caseless_of_letters (by decide +kernel)

theorem reachesCased_congr (h : cs.map Char.toLower = cs'.map Char.toLower) :
    reachesCased cs = reachesCased cs' := by
  have hmap : ∀ cs, reachesCased (cs.map Char.toLower) = reachesCased cs := by
    intro cs
    have hskip : isCaseIgnorable ∘ Char.toLower = isCaseIgnorable :=
      funext caseless_isCaseIgnorable
    have hcased : isCased ∘ Char.toLower = isCased := funext caseless_isCased
    rw [reachesCased, List.dropWhile_map, hskip, List.head?_map, Option.map_map, hcased]
    rfl
  rw [← hmap cs, h, hmap cs']

theorem lowerIn_congr (hbefore : before.map Char.toLower = before'.map Char.toLower)
    (hc : c.toLower = c'.toLower) (hrest : rest.map Char.toLower = rest'.map Char.toLower) :
    lowerIn before c rest = lowerIn before' c' rest' := by
  have hsigma : (c = 'Σ') = (c' = 'Σ') :=
    Caseless.congr (p := (· = 'Σ')) (caseless_of_letters (by decide)) hc
  simp only [lowerIn, hsigma, reachesCased_congr hbefore, reachesCased_congr hrest,
    caseless_lowerChar.congr hc]

-- The lower case form of a text does not depend on the case of its letters.
theorem lowerChars_congr (h : cs.map Char.toLower = cs'.map Char.toLower) :
    lowerChars cs = lowerChars cs' := by
  suffices ∀ before before', before.map Char.toLower = before'.map Char.toLower →
      lowerFrom before cs = lowerFrom before' cs' from this [] [] rfl
  induction cs generalizing cs' with
  | nil =>
      cases List.map_eq_nil_iff.mp h.symm
      intros
      rfl
  | cons c rest ih =>
      obtain ⟨c', rest', rfl, hc, hrest⟩ := List.map_eq_cons_iff.mp h.symm
      intro before before' hbefore
      rw [lowerFrom, lowerFrom, lowerIn_congr hbefore hc.symm hrest.symm,
        ih hrest.symm (c :: before) (c' :: before') (by simp [hbefore, hc])]

end Text

-- Two results that are alike: answers as `R` says, or problems of the same code at the same place.
inductive Agree {α : Type} (R : α → α → Prop) : Except Diagnostic α → Except Diagnostic α → Prop
  | ok {a a' : α} : R a a' → Agree R (.ok a) (.ok a')
  | error {d d' : Diagnostic} : d.code = d'.code → d.offset = d'.offset →
    Agree R (.error d) (.error d')

namespace Agree

variable {α β : Type} {R : α → α → Prop} {S : β → β → Prop} {x x' : Except Diagnostic α}

theorem cases (h : Agree R x x') : (∃ a a', x = .ok a ∧ x' = .ok a' ∧ R a a') ∨
    ∃ d d', x = .error d ∧ x' = .error d' ∧ d.code = d'.code ∧ d.offset = d'.offset := by
  cases h with
  | ok hr => exact .inl ⟨_, _, rfl, rfl, hr⟩
  | error hcode hoffset => exact .inr ⟨_, _, rfl, rfl, hcode, hoffset⟩

theorem map {f f' : α → β} (h : Agree R x x') (hf : ∀ a a', R a a' → S (f a) (f' a')) :
    Agree S (x.map f) (x'.map f') := by
  cases h with
  | ok hr => exact .ok (hf _ _ hr)
  | error hcode hoffset => exact .error hcode hoffset

theorem refl (hr : ∀ a, R a a) (x : Except Diagnostic α) : Agree R x x := by
  cases x with
  | ok a => exact .ok (hr a)
  | error d => exact .error rfl rfl

end Agree

namespace Token

-- What a character of a source text belongs to.
inductive Zone where
  | code
  | quoted
  | escape
  | lineComment
  | commentOpening
  | blockComment
  | commentClosing
  deriving DecidableEq

-- What the character behind `c` belongs to; it is `next`.
def Zone.after (zone : Zone) (c : Char) (next : Option Char) : Zone :=
  match zone with
  | .code =>
    if c = '"' then .quoted
    else if c = '#' || (c = '/' && next = some '/') then .lineComment
    else if c = '/' && next = some '*' then .commentOpening
    else .code
  | .quoted => if c = '"' then .code else if c = '\\' then .escape else .quoted
  | .escape => .quoted
  | .lineComment => if c = '\n' then .code else .lineComment
  | .commentOpening => .blockComment
  | .blockComment => if c = '*' && next = some '/' then .commentClosing else .blockComment
  | .commentClosing => .code

-- Two texts that start in `zone` and differ in the case of letters at most, and that only outside
-- strings and comments.
def Recased : Zone → List Char → List Char → Prop
  | _, [], [] => True
  | zone, c :: cs, c' :: cs' =>
    (c = c' ∨ zone = .code ∧ c.toLower = c'.toLower) ∧ Recased (zone.after c cs.head?) cs cs'
  | _, [], _ :: _ | _, _ :: _, [] => False

instance decidableRecased : (zone : Zone) → (cs cs' : List Char) → Decidable (Recased zone cs cs')
  | _, [], [] => isTrue trivial
  | zone, c :: cs, _ :: cs' =>
    have := decidableRecased (zone.after c cs.head?) cs cs'
    inferInstanceAs (Decidable (_ ∧ _))
  | _, [], _ :: _ | _, _ :: _, [] => isFalse id

-- What is read next belongs to.
def Mode.zone : Mode → Zone
  | .idle | .word _ _ | .operator _ _ => .code
  | .quoted _ _ => .quoted
  | .escape _ _ => .escape
  | .lineComment _ _ => .lineComment
  | .commentOpening _ => .commentOpening
  | .blockComment _ _ => .blockComment
  | .commentClosing _ _ => .commentClosing

variable {c c' : Char} {next next' : Option Char} {cs cs' : List Char}

theorem Recased.head {zone : Zone} (h : Recased zone cs cs') :
    cs.head?.map Char.toLower = cs'.head?.map Char.toLower := by
  cases cs with
  | nil =>
      cases cs' with
      | nil => rfl
      | cons => cases h
  | cons c rest =>
      cases cs' with
      | nil => cases h
      | cons c' rest' =>
          rcases h.1 with rfl | ⟨-, hc⟩
          · rfl
          · exact congrArg some hc

-- The next character is one that is not a letter, or it is not.
theorem next_eq_some_iff (h : next.map Char.toLower = next'.map Char.toLower) {x : Char}
    (hx : x.isAlpha = false) : next = some x ↔ next' = some x := by
  cases next with
  | none =>
      cases next' with
      | none => rfl
      | some d => cases h
  | some c =>
      cases next' with
      | none => cases h
      | some d =>
          have hcd : c.toLower = d.toLower := Option.some.inj h
          simp only [Option.some.injEq]
          constructor
          · rintro rfl
            exact eq_of_not_isAlpha hcd hx
          · rintro rfl
            exact eq_of_not_isAlpha hcd.symm hx

theorem next_isDigit (h : next.map Char.toLower = next'.map Char.toLower) :
    next.map Char.isDigit = next'.map Char.isDigit := by
  have hmap : ∀ next : Option Char, (next.map Char.toLower).map Char.isDigit =
      next.map Char.isDigit := by
    intro next
    rw [Option.map_map, show Char.isDigit ∘ Char.toLower = Char.isDigit from
      funext caseless_isDigit]
  rw [← hmap next, h, hmap next']

theorem classifyWord_cases (lexeme raw raw' : List Char) :
    (∃ kind, classifyWord lexeme raw = .ok kind ∧ classifyWord lexeme raw' = .ok kind) ∨
    ∃ p p', classifyWord lexeme raw = .error p ∧ classifyWord lexeme raw' = .error p' ∧
      p.code = p'.code := by
  unfold classifyWord
  dsimp only
  split_ifs
  · exact .inl ⟨_, rfl, rfl⟩
  · exact .inl ⟨_, rfl, rfl⟩
  · exact .inl ⟨_, rfl, rfl⟩
  · exact .inl ⟨_, rfl, rfl⟩
  · exact .inl ⟨_, rfl, rfl⟩
  · exact .inl ⟨_, rfl, rfl⟩
  · exact .inr ⟨_, _, rfl, rfl, rfl⟩
  · cases lexeme.find? (fun c => !isNameChar c) with
    | none => exact .inl ⟨_, rfl, rfl⟩
    | some bad => exact .inr ⟨_, _, rfl, rfl, rfl⟩

namespace Scanner

variable {s s' s₁ : Scanner}

-- Scanners that are in the same state but for the case of letters in the word they are reading.
inductive Alike : Scanner → Scanner → Prop
  | same (s : Scanner) : Alike s s
  | word {text text' : List Char} (start offset : Nat) (tokens : List Token) :
    text.map Char.toLower = text'.map Char.toLower →
    Alike ⟨.word start text, offset, tokens⟩ ⟨.word start text', offset, tokens⟩

theorem Alike.offset (h : Alike s s') : s.offset = s'.offset := by
  cases h <;> rfl

theorem Alike.zone (h : Alike s s') : s.mode.zone = s'.mode.zone := by
  cases h <;> rfl

theorem Alike.move (h : Alike s s') (n : Nat) :
    Alike { s with offset := n } { s' with offset := n } := by
  cases h with
  | same => exact .same _
  | word start _ tokens htext => exact .word start n tokens htext

theorem flush_agrees (h : Alike s s') : Agree Eq s.flush s'.flush := by
  cases h with
  | same => exact .refl (fun _ => rfl) _
  | @word text text' start offset tokens htext =>
      have hlower : Text.lowerChars text.reverse = Text.lowerChars text'.reverse :=
        Text.lowerChars_congr (by simp [htext])
      simp only [flush, hlower]
      rcases classifyWord_cases (Text.lowerChars text'.reverse) text.reverse text'.reverse with
        ⟨kind, hkind, hkind'⟩ | ⟨p, p', hp, hp', hcode⟩
      · rw [hkind, hkind']
        exact .ok rfl
      · rw [hp, hp']
        exact .error hcode rfl

theorem flush_map_agrees {g g' : Scanner → Scanner} (h : Alike s s')
    (hg : ∀ f, Alike (g f) (g' f)) : Agree Alike (s.flush.map g) (s'.flush.map g') :=
  (flush_agrees h).map fun f _ hf => hf ▸ hg f

-- A letter belongs to a word, the one that is being read or a new one.
theorem plain_of_isAlpha (hc : c.isAlpha) :
    (∀ start text, s.mode = .word start text →
      s.plain c next = .ok (s.enter (.word start (c :: text)))) ∧
    ((∀ start text, s.mode ≠ .word start text) →
      s.plain c next = s.flush.map (·.enter (.word s.offset [c]))) := by
  have hne : ∀ {x : Char}, x.isAlpha = false → c ≠ x := by
    rintro x hx rfl
    rw [hx] at hc
    cases hc
  have hquote : c ≠ '"' := hne rfl
  have hhash : c ≠ '#' := hne rfl
  have hslash : c ≠ '/' := hne rfl
  have hpunctuation : punctuation? c = none := by
    simp [punctuation?, hne (x := '\n') rfl, hne (x := '[') rfl, hne (x := ']') rfl,
      hne (x := ':') rfl]
  have hblank : Text.isBlank c = false := by
    have := of_isAlpha (p := fun c => !Text.isBlank c) (by decide) hc
    simpa using this
  have hoperator : isOperatorChar c = false := by
    have := of_isAlpha (p := fun c => !isOperatorChar c) (by decide) hc
    simpa using this
  have hsign : s.startsSign c next = false := by
    unfold startsSign
    split
    · simp [hne (x := '-') rfl]
    · rfl
  simp only [plain, hquote, hhash, hslash, hpunctuation, hblank, hoperator, hsign, decide_false,
    Bool.false_and, Bool.or_false, Bool.false_eq_true, if_false]
  cases s.mode with
  | word start text =>
      refine ⟨fun _ _ h => ?_, fun h => absurd rfl (h start text)⟩
      cases h
      rfl
  | _ =>
      refine ⟨fun _ _ h => ?_, fun _ => rfl⟩
      cases h

theorem plain_next (hnext : next.map Char.toLower = next'.map Char.toLower) :
    s.plain c next = s.plain c next' := by
  have hslash := next_eq_some_iff hnext (x := '/') rfl
  have hstar := next_eq_some_iff hnext (x := '*') rfl
  have hsign : s.startsSign c next = s.startsSign c next' := by
    simp only [startsSign, next_isDigit hnext]
  simp only [plain, hslash, hstar, hsign]

theorem plain_alike (h : Alike s s') : Agree Alike (s.plain c next) (s'.plain c next) := by
  have henter : ∀ mode, Agree Alike (s.flush.map (·.enter mode)) (s'.flush.map (·.enter mode)) :=
    fun mode => flush_map_agrees h fun f => .same _
  cases h with
  | same => exact .refl .same _
  | @word text text' start offset tokens htext =>
      have hsign : ∀ text : List Char,
          startsSign ⟨.word start text, offset, tokens⟩ c next = false := fun _ => rfl
      unfold plain
      simp only [hsign]
      split
      · exact henter _
      split
      · exact henter _
      split
      · exact henter _
      split
      · exact flush_map_agrees (.word start offset tokens htext) fun f => .same _
      split
      · exact henter _
      split
      · contradiction
      split
      · exact henter _
      · exact .ok (.word start offset tokens (by simp [htext]))

theorem plain_agrees (h : Alike s s') (hc : c.toLower = c'.toLower)
    (hnext : next.map Char.toLower = next'.map Char.toLower) :
    Agree Alike (s.plain c next) (s'.plain c' next') := by
  by_cases hletter : c.isAlpha
  · have hletter' : c'.isAlpha := (caseless_isAlpha.congr hc).symm.trans hletter
    have hone : [c].map Char.toLower = [c'].map Char.toLower := by simp [hc]
    cases h with
    | @word text text' start offset tokens htext =>
        rw [(plain_of_isAlpha hletter).1 start text rfl,
          (plain_of_isAlpha hletter').1 start text' rfl]
        exact .ok (.word start offset tokens (by simp [htext, hc]))
    | same =>
        by_cases hword : ∃ start text, s.mode = .word start text
        · obtain ⟨start, text, hm⟩ := hword
          rw [(plain_of_isAlpha hletter).1 start text hm,
            (plain_of_isAlpha hletter').1 start text hm]
          exact .ok (.word start s.offset s.tokens (by simp [hc]))
        · have hno : ∀ start text, s.mode ≠ .word start text :=
            fun start text hm => hword ⟨start, text, hm⟩
          rw [(plain_of_isAlpha hletter).2 hno, (plain_of_isAlpha hletter').2 hno]
          exact flush_map_agrees (.same s) fun f => .word s.offset f.offset f.tokens hone
  · rw [eq_of_not_isAlpha hc (Bool.eq_false_iff.mpr hletter), ← plain_next hnext]
    exact plain_alike h

theorem Alike.eq (h : Alike s s') (hzone : s.mode.zone ≠ .code) : s = s' := by
  cases h with
  | same => rfl
  | word => exact absurd rfl hzone

theorem read_next (hzone : s.mode.zone ≠ .code)
    (hnext : next.map Char.toLower = next'.map Char.toLower) : s.read c next = s.read c next' := by
  have hslash := next_eq_some_iff hnext (x := '/') rfl
  cases hm : s.mode with
  | idle | word | operator =>
      rw [hm] at hzone
      exact absurd rfl hzone
  | quoted | escape | lineComment | commentOpening | commentClosing => simp only [read, hm]
  | blockComment => simp only [read, hm, hslash]

theorem step_agrees (h : Alike s s')
    (hc : c = c' ∨ s.mode.zone = .code ∧ c.toLower = c'.toLower)
    (hnext : next.map Char.toLower = next'.map Char.toLower) :
    Agree Alike (s.step c next) (s'.step c' next') := by
  have hlower : c.toLower = c'.toLower := by
    rcases hc with rfl | hc
    · rfl
    · exact hc.2
  have hread : Agree Alike (s.read c next) (s'.read c' next') := by
    by_cases hzone : s.mode.zone = .code
    · have hplain : ∀ {s : Scanner} {c : Char} {next : Option Char}, s.mode.zone = .code →
          s.read c next = s.plain c next := by
        intro s c next hzone
        cases hm : s.mode with
        | idle | word | operator => simp only [read, hm]
        | _ =>
            rw [hm] at hzone
            cases hzone
      rw [hplain hzone, hplain (h.zone ▸ hzone)]
      exact plain_agrees h hlower hnext
    · have hsame : c = c' := hc.resolve_right fun hc => hzone hc.1
      subst hsame
      rw [← h.eq hzone, read_next hzone hnext]
      exact .refl .same _
  have hplace : s.offset + c.utf8Size = s'.offset + c'.utf8Size := by
    rw [h.offset, caseless_utf8Size.congr hlower]
  exact hread.map fun t t' ht => hplace ▸ ht.move _

theorem zone_of_flush {g : Scanner → Scanner} {zone : Zone}
    (hg : ∀ f : Scanner, (g f).mode.zone = zone) (h : s.flush.map g = .ok s₁) :
    s₁.mode.zone = zone := by
  cases hflush : s.flush with
  | error d =>
      rw [hflush] at h
      cases h
  | ok f =>
      rw [hflush] at h
      cases h
      exact hg f

theorem zone_of_plain (h : s.plain c next = .ok s₁) :
    s₁.mode.zone = Zone.after .code c next := by
  unfold plain at h
  simp only [Zone.after]
  by_cases hquote : c = '"'
  · rw [if_pos hquote] at h ⊢
    exact zone_of_flush (fun _ => rfl) h
  rw [if_neg hquote] at h ⊢
  by_cases hline : (c = '#' || (c = '/' && next = some '/')) = true
  · rw [if_pos hline] at h ⊢
    exact zone_of_flush (fun _ => rfl) h
  rw [if_neg hline] at h ⊢
  by_cases hblock : (c = '/' && next = some '*') = true
  · rw [if_pos hblock] at h ⊢
    exact zone_of_flush (fun _ => rfl) h
  rw [if_neg hblock] at h ⊢
  -- no other character leads into a string or a comment
  split at h
  · exact zone_of_flush (fun _ => rfl) h
  split at h
  · exact zone_of_flush (fun _ => rfl) h
  split at h
  · cases h
    rfl
  split at h
  · split at h
    · cases h
      rfl
    · exact zone_of_flush (fun _ => rfl) h
  · split at h
    · cases h
      rfl
    · exact zone_of_flush (fun _ => rfl) h

-- The scanner knows what a character belongs to.
theorem zone_of_step (h : s.step c next = .ok s₁) : s₁.mode.zone = s.mode.zone.after c next := by
  have hread : ∀ t, s.read c next = .ok t → t.mode.zone = s.mode.zone.after c next := by
    intro t ht
    cases hm : s.mode with
    | idle | word | operator =>
        simp only [read, hm] at ht
        exact zone_of_plain ht
    | quoted | blockComment =>
        simp only [read, hm] at ht
        simp only [Mode.zone, Zone.after]
        split_ifs at ht ⊢ <;> cases ht <;> rfl
    | escape =>
        simp only [read, hm] at ht
        split_ifs at ht <;> cases ht <;> rfl
    | lineComment =>
        simp only [read, hm] at ht
        simp only [Mode.zone, Zone.after]
        split_ifs at ht ⊢ <;> cases ht <;> rfl
    | commentOpening | commentClosing =>
        simp only [read, hm] at ht
        cases ht
        rfl
  unfold step at h
  cases hresult : s.read c next with
  | error d =>
      rw [hresult] at h
      cases h
  | ok t =>
      rw [hresult] at h
      cases h
      exact hread t hresult

theorem finish_agrees (h : Alike s s') : Agree Eq s.finish s'.finish := by
  cases h with
  | same => exact .refl (fun _ => rfl) _
  | word start offset tokens htext => exact flush_agrees (.word start offset tokens htext)

theorem run_agrees (h : Alike s s') (hcs : Recased s.mode.zone cs cs') :
    Agree Eq (s.run cs) (s'.run cs') := by
  induction cs generalizing s s' cs' with
  | nil =>
      cases cs' with
      | nil => exact finish_agrees h
      | cons => cases hcs
  | cons c rest ih =>
      cases cs' with
      | nil => cases hcs
      | cons c' rest' =>
          obtain ⟨hc, hrest⟩ := hcs
          have hstep := step_agrees h hc hrest.head
          rcases hstep.cases with ⟨t, t', ht, ht', hnext⟩ | ⟨d, d', hd, hd', hcode, hplace⟩
          · rw [run, run, ht, ht']
            exact ih hnext (zone_of_step ht ▸ hrest)
          · rw [run, run, hd, hd']
            exact .error hcode hplace

end Scanner

theorem scan_agrees {source source' : String}
    (h : Recased .code source.toList source'.toList) : Agree Eq (scan source) (scan source') := by
  have hrun := Scanner.run_agrees (.same Scanner.start) h
  have hall : Agree Eq (scanAll source) (scanAll source') :=
    hrun.map fun _ _ heq => by rw [heq]
  exact hall.map fun _ _ heq => by rw [heq]

end Token

namespace CompiledScript

-- The case of letters means nothing outside strings and comments: two such source texts have the
-- same tokens and compile to the same, or both fail at the same place with the same code.
theorem compile_recased {source source' : String}
    (h : Token.Recased .code source.toList source'.toList) :
    ((∃ tokens, Token.scan source = .ok tokens ∧ Token.scan source' = .ok tokens) ∨
      ∃ d d', Token.scan source = .error d ∧ Token.scan source' = .error d' ∧
        d.code = d'.code ∧ d.offset = d'.offset) ∧
    ∀ r options script, compile r options source = .ok script ↔
      compile r options source' = .ok script := by
  rcases (Token.scan_agrees h).cases with ⟨tokens, _, ht, ht', rfl⟩ | ⟨d, d', hd, hd', hsame⟩
  · refine ⟨.inl ⟨tokens, ht, ht'⟩, fun r options script => ?_⟩
    have hparse : Script.parse source = Script.parse source' := by
      rw [Script.parse, Script.parse, ht, ht']
    rw [compile, compile, Script.analyze, Script.analyze, hparse]
  · refine ⟨.inr ⟨d, d', hd, hd', hsame⟩, fun r options script => ?_⟩
    have hfails : ∀ {source : String} {d : Diagnostic}, Token.scan source = .error d →
        compile r options source = .error d := by
      intro source d hscan
      rw [compile, Script.analyze, Script.parse, hscan]
      rfl
    rw [hfails hd, hfails hd']
    constructor <;> rintro ⟨⟩

-- Words, a name with a capital sigma, a text and two comments.
def shouting : String :=
  "VAR [ΑΣx] = [NOT TRUE] // Aa\nRETURN [\"Aa\" + ασX] /* Aa */"

def whispering : String :=
  "var [ΑΣX] = [Not true] // Aa\nreturn [\"Aa\" + ασx] /* Aa */"

theorem compile_recased_shouting : Token.Recased .code shouting.toList whispering.toList ∧
    ((∃ tokens, Token.scan shouting = .ok tokens ∧ Token.scan whispering = .ok tokens) ∨
      ∃ d d', Token.scan shouting = .error d ∧ Token.scan whispering = .error d' ∧
        d.code = d'.code ∧ d.offset = d'.offset) ∧
    ∀ r options script, compile r options shouting = .ok script ↔
      compile r options whispering = .ok script := by
  have hrecased : Token.Recased .code shouting.toList whispering.toList := by decide +kernel
  exact ⟨hrecased, @compile_recased shouting whispering hrecased⟩

end CompiledScript

end HostScript
