import HostScript.Proofs.Token.Boundaries
import Mathlib.Data.List.DropRight
import Mathlib.Data.Prod.Lex
import Mathlib.Data.Set.Function

namespace HostScript.Diagnostic

open Token

variable {source : String} {before after seen passed rest more : List Char} {c : Char}
  {offset : Nat}

-- The line and the column behind a text: its line feeds are counted, and the characters behind the
-- last of them.
def lineColBehind (before : List Char) : Nat × Nat :=
  (1 + before.count '\n', 1 + (before.rtakeWhile (· ≠ '\n')).length)

theorem lineColBehind_feed (before : List Char) :
    lineColBehind (before ++ ['\n']) = ((lineColBehind before).1 + 1, 1) := by
  simp [lineColBehind, List.rtakeWhile_concat_neg, Nat.add_assoc]

theorem lineColBehind_concat (before : List Char) (hc : c ≠ '\n') :
    lineColBehind (before ++ [c]) = ((lineColBehind before).1, (lineColBehind before).2 + 1) := by
  simp [lineColBehind, List.rtakeWhile_concat_pos, hc, Nat.add_assoc]

-- A line feed leads to a later line, any other character to a later column of the same line.
theorem lineColBehind_lt_concat (before : List Char) (c : Char) :
    toLex (lineColBehind before) < toLex (lineColBehind (before ++ [c])) := by
  rw [Prod.Lex.toLex_lt_toLex]
  by_cases hc : c = '\n'
  · left
    rw [hc, lineColBehind_feed]
    exact Nat.lt_succ_self _
  · right
    rw [lineColBehind_concat before hc]
    exact ⟨rfl, Nat.lt_succ_self _⟩

theorem lineColBehind_lt_append (before : List Char) (hmore : more ≠ []) :
    toLex (lineColBehind before) < toLex (lineColBehind (before ++ more)) := by
  induction more generalizing before with
  | nil => exact absurd rfl hmore
  | cons c rest ih =>
      have hstep := lineColBehind_lt_concat before c
      rw [List.append_cons]
      by_cases hrest : rest = []
      · rwa [hrest, List.append_nil]
      · exact hstep.trans (ih (before ++ [c]) hrest)

-- What a walk over `rest` finds that sets out from the place behind `seen`.
def walkOn (offset : Nat) (seen rest : List Char) : Nat × Nat :=
  lineColFrom offset (byteCount seen) (lineColBehind seen).1 (lineColBehind seen).2 rest

theorem walkOn_nil : walkOn offset seen [] = lineColBehind seen := rfl

theorem walkOn_of_le (h : offset ≤ byteCount seen) :
    walkOn offset seen rest = lineColBehind seen := by
  cases rest with
  | nil => rfl
  | cons c rest => rw [walkOn, lineColFrom, if_pos h]

-- A character that starts in front of the offset is passed, also when the offset lies inside it.
theorem walkOn_cons (h : byteCount seen < offset) :
    walkOn offset seen (c :: rest) = walkOn offset (seen ++ [c]) rest := by
  have hplace : byteCount (seen ++ [c]) = byteCount seen + c.utf8Size := by simp
  rw [walkOn, lineColFrom, if_neg (Nat.not_le.mpr h), walkOn, hplace]
  split
  · rename_i hc
    rw [hc, lineColBehind_feed]
  · rename_i hc
    rw [lineColBehind_concat seen hc]

-- The walk always knows the line and the column behind what it has seen, so the induction over what
-- it passes is for any `seen`.
theorem walkOn_append (h : byteCount (seen ++ passed) ≤ offset) :
    walkOn offset seen (passed ++ rest) = walkOn offset (seen ++ passed) rest := by
  induction passed generalizing seen with
  | nil => rw [List.nil_append, List.append_nil]
  | cons c passed ih =>
      have hbehind : byteCount seen < offset := by
        have hc := c.utf8Size_pos
        rw [byteCount_append, byteCount_cons] at h
        omega
      rw [List.append_cons] at h ⊢
      rw [List.cons_append, walkOn_cons hbehind, ih h]

-- All that lies in front of the offset is passed.
theorem lineCol_eq_walkOn (h : source.toList = before ++ rest) (hle : byteCount before ≤ offset) :
    lineCol source offset = walkOn offset before rest := by
  have hstart : lineCol source offset = walkOn offset [] source.toList := rfl
  rw [hstart, h]
  exact walkOn_append hle

theorem lineCol_byteCount (h : source.toList = before ++ after) :
    lineCol source (byteCount before) = lineColBehind before := by
  rw [lineCol_eq_walkOn h (Nat.le_refl _), walkOn_of_le (Nat.le_refl _)]

theorem lineCol_within (h : source.toList = before ++ c :: after)
    (hbehind : byteCount before < offset) (hwithin : offset < byteCount before + c.utf8Size) :
    lineCol source offset = lineColBehind (before ++ [c]) := by
  have hend : offset ≤ byteCount (before ++ [c]) := by
    simpa using Nat.le_of_lt hwithin
  rw [lineCol_eq_walkOn h (Nat.le_of_lt hbehind), walkOn_cons hbehind, walkOn_of_le hend]

theorem lineCol_past (h : source.utf8ByteSize ≤ offset) :
    lineCol source offset = lineColBehind source.toList := by
  rw [← byteCount_toList] at h
  rw [lineCol_eq_walkOn (List.append_nil _).symm h, walkOn_nil]

theorem lineCol_strictMonoOn (source : String) :
    StrictMonoOn (fun offset => toLex (lineCol source offset))
      {offset | Boundary source.toList offset} := by
  rintro a ⟨first, after, hfirst, rfl⟩ b ⟨second, behind, hsecond, rfl⟩ hlt
  obtain ⟨more, hmore, rfl⟩ := exists_append_of_byteCount_lt (hfirst.symm.trans hsecond) hlt
  simp only [lineCol_byteCount hfirst, lineCol_byteCount hsecond]
  exact lineColBehind_lt_append first hmore

-- The places between the characters of a source have positions in the order of their offsets, no
-- two of them the same one, and each is counted out of the text in front. An offset inside a
-- character stands for the place behind it, and one past the end for the end.
theorem lineCol_ascends_and_counts (source : String) :
    StrictMonoOn (fun offset => toLex (lineCol source offset))
      {offset | Boundary source.toList offset} ∧
    Set.InjOn (lineCol source) {offset | Boundary source.toList offset} ∧
    (∀ before after, source.toList = before ++ after →
      lineCol source (byteCount before) = lineColBehind before) ∧
    (∀ before c after offset, source.toList = before ++ c :: after → byteCount before < offset →
      offset < byteCount before + c.utf8Size →
      lineCol source offset = lineColBehind (before ++ [c])) ∧
    ∀ offset, source.utf8ByteSize ≤ offset →
      lineCol source offset = lineColBehind source.toList := by
  have hmono := lineCol_strictMonoOn source
  refine ⟨hmono, ?_, fun _ _ => lineCol_byteCount, fun _ _ _ _ => lineCol_within,
    fun _ => lineCol_past⟩
  intro a ha b hb hsame
  exact hmono.injOn ha hb (congrArg toLex hsame)

-- Six bytes, of which the first two and the two behind the line feed are one character each.
def accented : String := "é\nß!"

theorem accented_positions :
    (Boundary accented.toList 2 ∧ Boundary accented.toList 3 ∧
      toLex (lineCol accented 2) < toLex (lineCol accented 3)) ∧
    (accented.toList = ['é', '\n'] ++ ['ß', '!'] ∧ byteCount ['é', '\n'] = 3 ∧
      lineCol accented 3 = (2, 1)) ∧
    (accented.toList = ['é', '\n'] ++ 'ß' :: ['!'] ∧ 3 < 4 ∧ 4 < 3 + 'ß'.utf8Size ∧
      lineCol accented 4 = (2, 2)) ∧
    accented.utf8ByteSize ≤ 9 ∧ lineCol accented 9 = (2, 3) := by
  have htext : accented.toList = ['é', '\n', 'ß', '!'] := rfl
  have hsize : accented.utf8ByteSize = 6 := rfl
  obtain ⟨hmono, -, hbetween, hwithin, hpast⟩ := lineCol_ascends_and_counts accented
  have hfront : Boundary accented.toList 2 := ⟨['é'], ['\n', 'ß', '!'], htext, rfl⟩
  have hnext : Boundary accented.toList 3 := ⟨['é', '\n'], ['ß', '!'], htext, rfl⟩
  refine ⟨⟨hfront, hnext, hmono hfront hnext (by decide)⟩, ⟨htext, rfl, ?_⟩,
    ⟨htext, by decide, by decide, ?_⟩, by rw [hsize]; decide, ?_⟩
  · exact hbetween ['é', '\n'] ['ß', '!'] htext
  · exact hwithin ['é', '\n'] 'ß' ['!'] 4 htext (by decide) (by decide)
  · exact hpast 9 (by rw [hsize]; decide)

end HostScript.Diagnostic
