import Mathlib
import HostScript.Proofs.Token.Recasing

namespace HostScript

namespace Number

-- Digits count by their places.
theorem ofDigits_eq (cs : List Char) :
    ofDigits cs = Nat.ofDigits 10 (cs.map digitValue).reverse := by
  induction cs using List.reverseRecOn with
  | nil => rfl
  | append_singleton cs c ih =>
      have hlast : ofDigits (cs ++ [c]) = 10 * ofDigits cs + digitValue c := by
        simp [ofDigits, List.foldl_append]
      rw [hlast, ih, List.map_append, List.reverse_append, List.map_singleton,
        List.reverse_singleton, List.singleton_append, Nat.ofDigits_cons, Nat.add_comm]

end Number

-- A numeral without its underscores: a minus or none, the digits of the whole part and, behind a
-- point, those of the fraction.
structure Numeral where
  minus : Bool
  whole : List Char
  fraction : Option (List Char)
  nonempty : whole ≠ []
  whole_digits : ∀ c ∈ whole, c.isDigit
  fraction_digits : ∀ cs, fraction = some cs → ∀ c ∈ cs, c.isDigit

namespace Numeral

def behind (n : Numeral) : List Char :=
  n.fraction.elim [] ('.' :: ·)

def chars (n : Numeral) : List Char :=
  (if n.minus then ['-'] else []) ++ (n.whole ++ n.behind)

def digits (n : Numeral) : List Char :=
  n.whole ++ n.fraction.getD []

def places (n : Numeral) : Nat :=
  (n.fraction.getD []).length

-- The value of the digits, with the sign in front.
def signed (n : Numeral) : Int :=
  if n.minus then -(Number.ofDigits n.digits : Int) else Number.ofDigits n.digits

variable (n : Numeral) {c : Char}

theorem exists_first : ∃ c rest, n.whole = c :: rest ∧ c.isDigit := by
  obtain ⟨c, rest, hwhole⟩ := List.exists_cons_of_ne_nil n.nonempty
  exact ⟨c, rest, hwhole, n.whole_digits c (by simp [hwhole])⟩

theorem takeSign_chars : Number.takeSign n.chars = (n.minus, n.whole ++ n.behind) := by
  obtain ⟨c, rest, hwhole, hc⟩ := n.exists_first
  cases hminus : n.minus with
  | true => simp [chars, hminus, Number.takeSign]
  | false =>
      have hplus : c ≠ '+' := by
        rintro rfl
        cases hc
      have hsign : c ≠ '-' := by
        rintro rfl
        cases hc
      simp only [chars, hminus, hwhole, Bool.false_eq_true, if_false, List.nil_append,
        List.cons_append]
      unfold Number.takeSign
      split
      · rename_i heq
        cases heq
        exact absurd rfl hsign
      · rename_i heq
        cases heq
        exact absurd rfl hplus
      · rfl

theorem takeWhile_whole (cs : List Char) (h : ∀ c ∈ cs.head?, c.isDigit = false) :
    (n.whole ++ cs).takeWhile Char.isDigit = n.whole ∧
    (n.whole ++ cs).dropWhile Char.isDigit = cs := by
  have hnone : cs.takeWhile Char.isDigit = [] ∧ cs.dropWhile Char.isDigit = cs := by
    cases cs with
    | nil => exact ⟨rfl, rfl⟩
    | cons c rest =>
        have hc : c.isDigit = false := h c rfl
        simp [hc]
  rw [List.takeWhile_append_of_pos n.whole_digits, List.dropWhile_append_of_pos n.whole_digits,
    hnone.1, hnone.2, List.append_nil]
  exact ⟨rfl, rfl⟩

-- A numeral is not taken for the name of a double.
theorem lower_ne {d : Char} {word : List Char} (hd : d.isDigit = false) :
    String.ofList ((n.whole ++ n.behind).map Char.toLower) ≠ String.ofList (d :: word) := by
  obtain ⟨c, rest, hwhole, hc⟩ := n.exists_first
  intro heq
  have hchars := congrArg String.toList heq
  rw [String.toList_ofList, String.toList_ofList, hwhole, List.cons_append, List.map_cons] at hchars
  rw [← (List.cons.inj hchars).1, caseless_isDigit c, hc] at hd
  cases hd

theorem readInt_chars (h : n.fraction = none) : Number.readInt n.chars = some n.signed := by
  have hall : n.whole.all Char.isDigit = true := List.all_eq_true.mpr n.whole_digits
  have hempty : n.whole.isEmpty = false := List.isEmpty_eq_false_iff.mpr n.nonempty
  simp [Number.readInt, takeSign_chars, behind, signed, digits, h, Number.readDigits, hall, hempty]

theorem readDouble_chars : Number.readDouble n.chars =
    some (Number.ofDecimal n.minus (Number.ofDigits n.digits) (-(n.places : Int))) := by
  have hempty : n.whole.isEmpty = false := List.isEmpty_eq_false_iff.mpr n.nonempty
  have hinf : String.ofList ((n.whole ++ n.behind).map Char.toLower) ≠ "inf" :=
    n.lower_ne (by decide)
  have hinfinity : String.ofList ((n.whole ++ n.behind).map Char.toLower) ≠ "infinity" :=
    n.lower_ne (by decide)
  have hnan : String.ofList ((n.whole ++ n.behind).map Char.toLower) ≠ "nan" :=
    n.lower_ne (by decide)
  simp only [Number.readDouble, takeSign_chars, hinf, hinfinity, hnan, if_false]
  cases hfraction : n.fraction with
  | none =>
      obtain ⟨htake, hdrop⟩ := n.takeWhile_whole [] nofun
      rw [List.append_nil] at htake hdrop
      simp [Number.readUnsigned, behind, hfraction, digits, places, htake, hdrop, hempty,
        Number.readExponent]
  | some cs =>
      obtain ⟨htake, hdrop⟩ := n.takeWhile_whole ('.' :: cs) (by simp)
      have hcs := n.fraction_digits cs hfraction
      have hall : cs.takeWhile Char.isDigit = cs := List.takeWhile_eq_self_iff.mpr hcs
      have hnone : cs.dropWhile Char.isDigit = [] := List.dropWhile_eq_nil_iff.mpr hcs
      simp [Number.readUnsigned, behind, hfraction, digits, places, htake, hdrop, hempty, hall,
        hnone, Number.readExponent]

theorem filter_isDigit_chars : n.chars.filter Char.isDigit = n.digits := by
  have hminus : (if n.minus then ['-'] else []).filter Char.isDigit = [] := by
    cases n.minus <;> rfl
  have hbehind : n.behind.filter Char.isDigit = n.fraction.getD [] := by
    cases hfraction : n.fraction with
    | none => simp [behind, hfraction]
    | some cs =>
        have hcs : cs.filter Char.isDigit = cs :=
          List.filter_eq_self.mpr (n.fraction_digits cs hfraction)
        simp [behind, hfraction, hcs]
  rw [chars, List.filter_append, hminus, List.nil_append, List.filter_append,
    List.filter_eq_self.mpr n.whole_digits, hbehind, digits]

-- The first point of a numeral is the one in front of its fraction.
theorem dropWhile_chars : n.chars.dropWhile (· ≠ '.') = n.behind := by
  have hfront : ∀ c ∈ (if n.minus then ['-'] else []) ++ n.whole, decide (c ≠ '.') = true := by
    intro c hc
    rcases List.mem_append.mp hc with hsign | hwhole
    · cases hminus : n.minus <;> simp [hminus] at hsign
      simp [hsign]
    · have hdigit := n.whole_digits c hwhole
      rw [decide_eq_true_eq]
      rintro rfl
      cases hdigit
  rw [chars, ← List.append_assoc, List.dropWhile_append_of_pos hfront]
  cases hfraction : n.fraction <;> simp [behind, hfraction]

theorem mem_chars_point : '.' ∈ n.chars ↔ n.fraction.isSome := by
  have hdrop := n.dropWhile_chars
  cases hfraction : n.fraction with
  | none =>
      simp only [behind, hfraction, Option.elim_none, List.dropWhile_eq_nil_iff] at hdrop
      simpa using fun hmem => hdrop '.' hmem
  | some cs =>
      simp [chars, behind, hfraction]

-- How a numeral is read: as a whole number if it has no point and fits, and as a double otherwise.
theorem ofNumeral?_eq {lexeme : List Char} (h : lexeme.filter (· ≠ '_') = n.chars) :
    Literal.ofNumeral? lexeme =
      if n.fraction = none ∧ -9223372036854775808 ≤ n.signed ∧ n.signed < 9223372036854775808 then
        some (.long (Int64.ofInt n.signed))
      else some (.double (Number.ofDecimal n.minus (Number.ofDigits n.digits) (-(n.places : Int)))) := by
  have hpoint : n.chars.contains '.' = n.fraction.isSome := by
    rw [Bool.eq_iff_iff, List.contains_iff_mem, n.mem_chars_point]
  simp only [Literal.ofNumeral?, h, hpoint, n.readDouble_chars, Option.map_some]
  cases hfraction : n.fraction with
  | some cs => simp
  | none =>
      simp only [Option.isSome_none, Bool.false_eq_true, if_false, true_and, Number.readLong,
        n.readInt_chars hfraction, Option.bind_some, Bool.and_eq_true, decide_eq_true_eq]
      by_cases hfits : -9223372036854775808 ≤ n.signed ∧ n.signed < 9223372036854775808
      · rw [if_pos hfits, if_pos hfits]
      · rw [if_neg hfits, if_neg hfits]

end Numeral

namespace Token

variable {lexeme body : List Char} {c : Char}

-- The number that the digits of a numeral write, each by its place.
def digitsValue (lexeme : List Char) : Nat :=
  Nat.ofDigits 10 ((lexeme.filter Char.isDigit).map Number.digitValue).reverse

-- The value of a numeral without a point.
def wholeValue (lexeme : List Char) : Int :=
  if lexeme.head? = some '-' then -(digitsValue lexeme : Int) else digitsValue lexeme

-- How many digits stand behind the point of a numeral.
def decimalPlaces (lexeme : List Char) : Nat :=
  ((lexeme.filter (· ≠ '_')).dropWhile (· ≠ '.')).tail.length

theorem exists_numeral_of_body (minus : Bool) {rest : List Char} (hfirst : c.isDigit)
    (hall : ∀ d ∈ c :: rest, d.isDigit ∨ d = '_' ∨ d = '.')
    (hpoint : ((c :: rest).filter (· = '.')).length ≤ 1) :
    ∃ n : Numeral, n.minus = minus ∧ (c :: rest).filter (· ≠ '_') = n.whole ++ n.behind := by
  set digits := (c :: rest).filter (· ≠ '_') with hdigits
  have hplain : ∀ d ∈ digits, d.isDigit ∨ d = '.' := by
    intro d hd
    obtain ⟨hmem, hne⟩ := List.mem_filter.mp hd
    rcases hall d hmem with h | h | h
    · exact .inl h
    · exact absurd h (by simpa using hne)
    · exact .inr h
  have hpoints : (digits.filter (· = '.')).length ≤ 1 := by
    refine le_trans (List.Sublist.length_le ?_) hpoint
    exact List.filter_sublist.filter _
  have hsplit : digits.takeWhile Char.isDigit ++ digits.dropWhile Char.isDigit = digits :=
    List.takeWhile_append_dropWhile
  have hwhole : ∀ d ∈ digits.takeWhile Char.isDigit, d.isDigit := fun d hd =>
    List.mem_takeWhile_imp hd
  have hnonempty : digits.takeWhile Char.isDigit ≠ [] := by
    have hne : c ≠ '_' := by
      rintro rfl
      cases hfirst
    rw [hdigits, List.filter_cons_of_pos (by simpa using hne), List.takeWhile_cons_of_pos hfirst]
    exact List.cons_ne_nil _ _
  cases hrest : digits.dropWhile Char.isDigit with
  | nil =>
      rw [hrest] at hsplit
      exact ⟨⟨minus, digits.takeWhile Char.isDigit, none, hnonempty, hwhole, nofun⟩, rfl,
        hsplit.symm⟩
  | cons d fraction =>
      rw [hrest] at hsplit
      have hd : d = '.' := by
        have hmem : d ∈ digits := by
          rw [← hsplit]
          simp
        have hstop : d.isDigit = false := by
          have hne : digits.dropWhile Char.isDigit ≠ [] := by simp [hrest]
          simpa [hrest] using List.head_dropWhile_not Char.isDigit hne
        rcases hplain d hmem with h | h
        · rw [hstop] at h
          cases h
        · exact h
      subst hd
      have hfraction : ∀ e ∈ fraction, e.isDigit := by
        intro e he
        have hmem : e ∈ digits := by
          rw [← hsplit]
          simp [he]
        refine (hplain e hmem).resolve_right ?_
        rintro rfl
        have htwo : 2 ≤ (digits.filter (· = '.')).length := by
          rw [← hsplit, List.filter_append, List.length_append,
            List.filter_cons_of_pos (by simp), List.length_cons]
          have hone : 0 < (fraction.filter (· = '.')).length :=
            List.length_pos_of_mem (List.mem_filter.mpr ⟨he, by simp⟩)
          omega
        omega
      refine ⟨⟨minus, digits.takeWhile Char.isDigit, some fraction, hnonempty, hwhole, ?_⟩, rfl,
        hsplit.symm⟩
      rintro cs ⟨⟩
      exact hfraction

theorem exists_numeral (h : isNumeral lexeme) :
    ∃ n : Numeral, lexeme.filter (· ≠ '_') = n.chars ∧
      (n.minus = true ↔ lexeme.head? = some '-') := by
  have hbody : ∀ minus, ∀ {body : List Char},
      body.all (fun c => c.isDigit || c = '_' || c = '.') &&
        (body.filter (· = '.')).length ≤ 1 && (body.head?.map Char.isDigit).getD false →
      ∃ n : Numeral, n.minus = minus ∧ body.filter (· ≠ '_') = n.whole ++ n.behind := by
    intro minus body hbody
    simp only [Bool.and_eq_true, List.all_eq_true, Bool.or_eq_true, decide_eq_true_eq, or_assoc]
      at hbody
    obtain ⟨⟨hall, hpoint⟩, hfirst⟩ := hbody
    cases body with
    | nil => cases hfirst
    | cons c rest => exact exists_numeral_of_body minus hfirst hall hpoint
  unfold isNumeral at h
  split at h
  · rename_i rest
    obtain ⟨n, hminus, hchars⟩ := hbody true h
    exact ⟨n, by simp [Numeral.chars, hminus, ← hchars], by simp [hminus]⟩
  · rename_i hsign
    obtain ⟨n, hminus, hchars⟩ := hbody false h
    refine ⟨n, by simp [Numeral.chars, hminus, ← hchars], ?_⟩
    cases lexeme with
    | nil => simp [hminus]
    | cons c rest => simpa [hminus] using fun hc => hsign rest (by rw [hc])

-- What the parts of a numeral are in its lexeme.
theorem parts_of_filter {n : Numeral} (h : lexeme.filter (· ≠ '_') = n.chars)
    (hminus : n.minus = true ↔ lexeme.head? = some '-') :
    Number.ofDigits n.digits = digitsValue lexeme ∧ n.signed = wholeValue lexeme ∧
    n.places = decimalPlaces lexeme ∧ (n.fraction = none ↔ '.' ∉ lexeme) := by
  have hdigits : lexeme.filter Char.isDigit = n.digits := by
    rw [← n.filter_isDigit_chars, ← h, List.filter_filter]
    refine List.filter_congr fun c _ => ?_
    rw [eq_comm, Bool.and_eq_left_iff_imp]
    intro hc
    rw [decide_eq_true_eq]
    rintro rfl
    cases hc
  have hvalue : Number.ofDigits n.digits = digitsValue lexeme := by
    rw [Number.ofDigits_eq, digitsValue, hdigits]
  refine ⟨hvalue, ?_, ?_, ?_⟩
  · simp only [Numeral.signed, wholeValue, hvalue, hminus]
  · rw [decimalPlaces, h, n.dropWhile_chars]
    cases hfraction : n.fraction <;> simp [Numeral.places, Numeral.behind, hfraction]
  · have hmem : '.' ∈ lexeme ↔ '.' ∈ n.chars := by
      rw [← h, List.mem_filter]
      simp
    rw [hmem, n.mem_chars_point, Option.not_isSome_iff_eq_none]

-- Every numeral is read: as a whole number if it has no point and the value fits in 64 bits, and as
-- a double otherwise.
theorem ofNumeral?_of_isNumeral (h : isNumeral lexeme) :
    if '.' ∉ lexeme ∧ -2 ^ 63 ≤ wholeValue lexeme ∧ wholeValue lexeme ≤ 2 ^ 63 - 1 then
      ∃ n : Int64, Literal.ofNumeral? lexeme = some (.long n) ∧ n.toInt = wholeValue lexeme
    else Literal.ofNumeral? lexeme = some (.double
      (Number.ofDecimal (lexeme.head? = some '-') (digitsValue lexeme) (-(decimalPlaces lexeme)))) := by
  obtain ⟨n, hchars, hminus⟩ := exists_numeral h
  obtain ⟨hdigits, hsigned, hplaces, hpoint⟩ := parts_of_filter hchars hminus
  have hread := n.ofNumeral?_eq hchars
  have hsign : n.minus = decide (lexeme.head? = some '-') := by
    rw [Bool.eq_iff_iff, hminus, decide_eq_true_eq]
  simp only [hpoint, hsigned, hdigits, hplaces, hsign] at hread
  split
  · rename_i hfits
    rw [if_pos ⟨hfits.1, by omega, by omega⟩] at hread
    exact ⟨_, hread, Int64.toInt_ofInt_of_le (by omega) (by omega)⟩
  · rename_i hfits
    rwa [if_neg fun hin => hfits ⟨hin.1, by omega, by omega⟩] at hread

end Token

end HostScript
