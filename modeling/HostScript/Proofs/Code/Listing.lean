import HostScript.Code.Listing
import HostScript.Proofs.Code.Generic
import HostScript.Proofs.Code.Operands

namespace HostScript

-- The position that a line of the listing begins with.
def Listing.place (line : String) : Nat :=
  Nat.ofDigitChars 10 (line.toList.takeWhile Char.isDigit) 0

-- A line for something that cannot be decoded.
def Listing.isBad (line : String) : Bool :=
  "  <bad ".toList.isPrefixOf (line.toList.dropWhile Char.isDigit)

namespace Listing

theorem toList_fourPlaces (p : Nat) : ∃ zeros,
    (fourPlaces p).toList = List.replicate zeros '0' ++ Nat.toDigits 10 p := by
  refine ⟨4 - (toString p).length, ?_⟩
  have hsign : ¬(p : Int) < 0 := by omega
  simp [fourPlaces, hsign]

theorem isDigit_fourPlaces (p : Nat) : ∀ c ∈ (fourPlaces p).toList, c.isDigit = true := by
  obtain ⟨zeros, hp⟩ := toList_fourPlaces p
  intro c hc
  rw [hp] at hc
  rcases List.mem_append.mp hc with hc | hc
  · rw [List.eq_of_mem_replicate hc]
    rfl
  · exact Nat.isDigit_of_mem_toDigits (by decide) (by decide) hc

theorem place_eq (p : Nat) (text : String) : place (fourPlaces p ++ "  " ++ text) = p := by
  obtain ⟨zeros, hp⟩ := toList_fourPlaces p
  rw [place, String.toList_append, String.toList_append, List.append_assoc,
    List.takeWhile_append_of_pos (isDigit_fourPlaces p)]
  have hrest : ("  ".toList ++ text.toList).takeWhile Char.isDigit = [] := rfl
  rw [hrest, List.append_nil, hp, Nat.ofDigitChars_append, Nat.ofDigitChars_replicate_zero,
    Nat.mul_zero, Nat.ofDigitChars_ten_toDigits]

theorem isBad_eq (p : Nat) (text : String) : isBad (fourPlaces p ++ "  <bad " ++ text) = true := by
  rw [isBad, String.toList_append, String.toList_append, List.append_assoc,
    List.dropWhile_append_of_pos (isDigit_fourPlaces p)]
  rfl

end Listing

namespace CompiledScript

open Listing

variable {s : CompiledScript} {p q x : Nat} {i : Instr}

theorem le_size_of_fetch (h : s.fetch p = .ok (i, q)) : q ≤ s.code.size := by
  have hlt := lt_size_of_fetch h
  unfold fetch at h
  split at h
  · cases h
  · split at h
    · cases h
    · split at h
      · rename_i hread
        cases h
        exact Instr.le_size_of_read? hlt hread
      · cases h

-- The scan of the listing shows nothing that cannot be decoded.
def Clean (s : CompiledScript) : Prop :=
  ∀ line ∈ s.codeLines s.code.size 0, isBad line = false

-- The listing shows an instruction at a position.
def Listed (s : CompiledScript) (p : Nat) : Prop :=
  ∃ line ∈ s.codeLines s.code.size 0, place line = p

instance (s : CompiledScript) : Decidable s.Clean :=
  inferInstanceAs (Decidable (∀ line ∈ s.codeLines s.code.size 0, isBad line = false))

instance (s : CompiledScript) (p : Nat) : Decidable (s.Listed p) :=
  inferInstanceAs (Decidable (∃ line ∈ s.codeLines s.code.size 0, place line = p))

-- The listing reads an instruction where the machine does, and goes on behind it.
theorem codeLines_of_fetch (h : s.fetch p = .ok (i, q)) (fuel : Nat) : ∃ text,
    s.codeLines (fuel + 1) p = (fourPlaces p ++ "  " ++ text) :: s.codeLines fuel q := by
  unfold fetch at h
  split at h
  · cases h
  · rename_i byte hbyte
    split at h
    · cases h
    · rename_i op hop
      split at h
      · rename_i j hread
        cases h
        simp only [codeLines, hbyte, hop, hread]
        split
        · exact ⟨op.name, by simp [ToString.toString, String.append_assoc]⟩
        · exact ⟨op.name ++ " " ++ s.operandText i,
            by simp [ToString.toString, String.append_assoc]⟩
      · cases h

theorem codeLines_of_fault {f : Fault} (hlt : p < s.code.size) (h : s.fetch p = .error f)
    (fuel : Nat) : ∃ text, s.codeLines (fuel + 1) p = [fourPlaces p ++ "  <bad " ++ text] := by
  have hopcode : "  <bad opcode " = "  <bad " ++ "opcode " := rfl
  have hoperands : "  <bad operands for " = "  <bad " ++ "operands for " := rfl
  unfold fetch at h
  simp only [Array.getElem?_eq_getElem hlt] at h
  simp only [codeLines, Array.getElem?_eq_getElem hlt]
  split
  · exact ⟨"opcode " ++ Text.hexText 2 s.code[p].toNat ++ ">",
      by simp only [hopcode, ToString.toString, String.append_assoc]⟩
  · rename_i op hop
    split
    · exact ⟨"operands for " ++ op.name ++ ">",
        by simp only [hoperands, ToString.toString, String.append_assoc]⟩
    · rename_i hread
      simp only [hop, hread] at h
      cases h

theorem fetch_of_mem_starts {fuel : Nat} (hx : x ∈ s.starts fuel p) :
    ∃ i q, s.fetch x = .ok (i, q) := by
  induction fuel generalizing p with
  | zero => simp [starts] at hx
  | succ fuel ih =>
      simp only [starts] at hx
      split at hx
      · rename_i i next hat
        rcases List.mem_cons.mp hx with rfl | hx
        · exact ⟨i, next, hat⟩
        · exact ih hx
      · simp at hx

-- As long as nothing is bad, the lines are those of the instructions.
theorem map_place_codeLines {fuel : Nat}
    (hclean : ∀ line ∈ s.codeLines fuel p, isBad line = false) :
    (s.codeLines fuel p).map place = s.starts fuel p := by
  induction fuel generalizing p with
  | zero => rfl
  | succ fuel ih =>
      cases hat : s.fetch p with
      | ok next =>
          obtain ⟨i, q⟩ := next
          obtain ⟨text, hlines⟩ := codeLines_of_fetch hat fuel
          rw [hlines] at hclean ⊢
          simp only [starts, hat, List.map_cons, place_eq]
          rw [ih (List.forall_mem_cons.mp hclean).2]
      | error f =>
          by_cases hlt : p < s.code.size
          · obtain ⟨text, hlines⟩ := codeLines_of_fault hlt hat fuel
            rw [hlines, List.forall_mem_singleton, isBad_eq] at hclean
            cases hclean
          · have hnone : s.code[p]? = none := Array.getElem?_eq_none (Nat.le_of_not_lt hlt)
            simp [starts, hat, codeLines, hnone]

theorem whole_of_clean {fuel : Nat} (hclean : ∀ line ∈ s.codeLines fuel p, isBad line = false)
    (hle : p ≤ s.code.size) (hfuel : s.code.size ≤ fuel + p) : s.Whole p s.code.size := by
  induction fuel generalizing p with
  | zero =>
      obtain rfl : p = s.code.size := by omega
      exact .nil
  | succ fuel ih =>
      by_cases hlt : p < s.code.size
      · cases hat : s.fetch p with
        | ok next =>
            obtain ⟨i, q⟩ := next
            obtain ⟨text, hlines⟩ := codeLines_of_fetch hat fuel
            rw [hlines] at hclean
            have hbehind := lt_of_fetch hat
            exact .cons hat trivial
              (ih (List.forall_mem_cons.mp hclean).2 (le_size_of_fetch hat) (by omega))
        | error f =>
            obtain ⟨text, hlines⟩ := codeLines_of_fault hlt hat fuel
            rw [hlines, List.forall_mem_singleton, isBad_eq] at hclean
            cases hclean
      · obtain rfl : p = s.code.size := by omega
        exact .nil

theorem Clean.whole (h : s.Clean) : s.Whole 0 s.code.size :=
  whole_of_clean h (Nat.zero_le _) (Nat.le_refl _)

-- The positions that a clean listing shows are those between its instructions.
theorem Clean.listed_iff (h : s.Clean) : s.Listed x ↔ s.Whole 0 x ∧ x < s.code.size := by
  have hstarts : s.Listed x ↔ x ∈ s.starts s.code.size 0 := by
    rw [← map_place_codeLines h, List.mem_map]
    rfl
  rw [hstarts]
  constructor
  · intro hx
    obtain ⟨i, q, hat⟩ := fetch_of_mem_starts hx
    exact ⟨whole_of_mem_starts hx, lt_size_of_fetch hat⟩
  · rintro ⟨hx, hlt⟩
    obtain ⟨i, q, hat, -⟩ := h.whole.find hx hlt
    exact mem_starts hx hat (Nat.le_refl _)

end CompiledScript

end HostScript
