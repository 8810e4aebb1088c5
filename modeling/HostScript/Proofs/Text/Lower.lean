import Mathlib.Data.List.Basic
import HostScript.Text.Case

namespace HostScript.Text

namespace CaseRun

-- Whether a run has the letter with this code point.
def Has (r : CaseRun) (n : Nat) : Prop :=
  r.first ≤ n ∧ n ≤ r.last ∧ (n - r.first) % r.stride = 0

instance (r : CaseRun) (n : Nat) : Decidable (r.Has n) :=
  inferInstanceAs (Decidable (_ ∧ _ ∧ _))

def form (r : CaseRun) (n : Nat) : Nat :=
  (n + r.shift).toNat

def low (r : CaseRun) : Nat :=
  r.form r.first

def high (r : CaseRun) : Nat :=
  r.form r.last

-- Whether the forms of a run are characters, letters if they lie in ASCII, and not the capital I
-- with a dot.
def plain (r : CaseRun) : Bool :=
  (r.high.blt 55296 || Nat.blt 57343 r.low && r.high.blt 1114112) &&
    (Nat.ble 128 r.low || Nat.ble 97 r.low && r.high.ble 122) &&
    (r.high.blt 304 || Nat.blt 304 r.low)

-- Whether no form of a run is a letter of another: it lies before or behind it, or steps over its
-- letters.
def clear (r other : CaseRun) : Bool :=
  r.high.blt other.first || other.last.blt r.low ||
    (r.low == r.high || r.stride == 2) && other.stride == 2 && (r.low + other.first) % 2 == 1

variable {r other : CaseRun} {n : Nat}

theorem plain_iff : r.plain ↔
    (r.high < 55296 ∨ 57343 < r.low ∧ r.high < 1114112) ∧
    (128 ≤ r.low ∨ 97 ≤ r.low ∧ r.high ≤ 122) ∧ (r.high < 304 ∨ 304 < r.low) := by
  simp [plain, and_assoc]

theorem clear_iff : r.clear other ↔ r.high < other.first ∨ other.last < r.low ∨
    (r.low = r.high ∨ r.stride = 2) ∧ other.stride = 2 ∧ (r.low + other.first) % 2 = 1 := by
  simp [clear, and_assoc, or_assoc]

theorem plain_and_clear : caseRuns.all fun r => r.plain && caseRuns.all r.clear := by
  decide +kernel

theorem exists_has_sigma : ∃ r ∈ caseRuns, r.Has 931 := by
  decide +kernel

theorem Has.form_bounds (h : r.Has n) : r.low ≤ r.form n ∧ r.form n ≤ r.high := by
  obtain ⟨hfirst, hlast, -⟩ := h
  unfold low high form
  omega

theorem not_has_form (h : r.Has n) (hr : r.plain) (hclear : r.clear other) :
    ¬other.Has (r.form n) := by
  obtain ⟨hlow, hhigh⟩ := h.form_bounds
  obtain ⟨hfirst, hlast, hstride⟩ := h
  rintro ⟨hbefore, hbehind, hmet⟩
  obtain ⟨-, hletter, -⟩ := plain_iff.mp hr
  rcases clear_iff.mp hclear with hpast | hpast | ⟨hstep, hother, hodd⟩
  · omega
  · omega
  · rw [hother] at hmet
    rcases hstep with hsingle | htwo
    · omega
    · rw [htwo] at hstride
      unfold low high form at *
      omega

end CaseRun

-- A character that is its own lower case form in every text.
def Settled (c : Char) : Prop :=
  lowerChar c = [c] ∧ c ≠ 'Σ'

instance (c : Char) : Decidable (Settled c) :=
  inferInstanceAs (Decidable (_ ∧ _))

variable {c d : Char} {before rest cs : List Char}

theorem settled_toLower : ∀ n < 128, Settled (Char.ofNat n).toLower := by
  decide +kernel

theorem settled_letter : ∀ n < 26, Settled (Char.ofNat (97 + n)) := by
  decide +kernel

theorem settled_dotted : Settled 'i' ∧ Settled '\u0307' := by
  decide +kernel

theorem settled_sigma : Settled 'σ' ∧ Settled 'ς' := by
  decide +kernel

theorem lowerChar_eq_self (hwide : 128 ≤ c.toNat) (hdot : c.toNat ≠ 304)
    (h : ∀ r ∈ caseRuns, ¬r.Has c.toNat) : lowerChar c = [c] := by
  have hnone : caseRuns.find? (fun r => r.first ≤ c.toNat && c.toNat ≤ r.last &&
      (c.toNat - r.first) % r.stride == 0) = none := by
    rw [List.find?_eq_none]
    intro r hr hmet
    refine h r hr ?_
    simpa only [CaseRun.Has, Bool.and_eq_true, decide_eq_true_eq, beq_iff_eq, and_assoc] using hmet
  have hc : c ≠ '\u0130' := by
    rintro rfl
    exact hdot rfl
  rw [lowerChar, if_neg (Nat.not_lt.mpr hwide), if_neg hc, hnone]

theorem settled_form {r : CaseRun} {n : Nat} (hr : r ∈ caseRuns) (h : r.Has n) :
    Settled (Char.ofNat (r.form n)) := by
  obtain ⟨hplain, hclear⟩ : r.plain ∧ ∀ other ∈ caseRuns, r.clear other := by
    simpa using List.all_eq_true.mp CaseRun.plain_and_clear r hr
  have hfree : ∀ other ∈ caseRuns, ¬other.Has (r.form n) := fun other hother =>
    CaseRun.not_has_form h hplain (hclear other hother)
  obtain ⟨hlow, hhigh⟩ := h.form_bounds
  obtain ⟨hchar, hletter, hdot⟩ := CaseRun.plain_iff.mp hplain
  generalize r.form n = m at *
  by_cases hwide : 128 ≤ m
  · have hvalid : m.isValidChar := by
      unfold Nat.isValidChar
      omega
    have hm : (Char.ofNat m).toNat = m := by
      rw [Char.ofNat, dif_pos hvalid]
      rfl
    refine ⟨lowerChar_eq_self (by omega) (by omega) (by rwa [hm]), fun hsigma => ?_⟩
    rw [hsigma] at hm
    obtain ⟨other, hother, hhas⟩ := CaseRun.exists_has_sigma
    exact hfree other hother (hm ▸ hhas)
  · obtain ⟨k, rfl⟩ : ∃ k, m = 97 + k := ⟨m - 97, by omega⟩
    exact settled_letter k (by omega)

theorem settled_of_mem_lowerChar (hd : d ∈ lowerChar c) (hsigma : c ≠ 'Σ') : Settled d := by
  unfold lowerChar at hd
  split at hd
  · rename_i hlow
    rw [List.mem_singleton.mp hd, ← Char.ofNat_toNat c]
    exact settled_toLower c.toNat hlow
  · rename_i hwide
    split at hd
    · rcases List.mem_cons.mp hd with rfl | hd
      · exact settled_dotted.1
      · rw [List.mem_singleton.mp hd]
        exact settled_dotted.2
    · rename_i hdot
      split at hd
      · rename_i r hfind
        have hmet := List.find?_some hfind
        rw [List.mem_singleton.mp hd]
        refine settled_form (List.mem_of_find?_eq_some hfind) ?_
        simpa only [CaseRun.Has, Bool.and_eq_true, decide_eq_true_eq, beq_iff_eq, and_assoc]
          using hmet
      · rename_i hnone
        have hself : d = c := List.mem_singleton.mp hd
        rw [hself]
        refine ⟨?_, hsigma⟩
        rw [lowerChar, if_neg hwide, if_neg hdot, hnone]

theorem settled_of_mem_lowerFrom (hd : d ∈ lowerFrom before cs) : Settled d := by
  induction cs generalizing before with
  | nil => cases hd
  | cons c rest ih =>
      rcases List.mem_append.mp hd with hhere | hlater
      · unfold lowerIn at hhere
        split at hhere
        · split at hhere
          · rw [List.mem_singleton.mp hhere]
            exact settled_sigma.2
          · rw [List.mem_singleton.mp hhere]
            exact settled_sigma.1
        · rename_i hsigma
          exact settled_of_mem_lowerChar hhere hsigma
      · exact ih hlater

theorem lowerFrom_of_settled (h : ∀ c ∈ cs, Settled c) : lowerFrom before cs = cs := by
  induction cs generalizing before with
  | nil => rfl
  | cons c rest ih =>
      obtain ⟨hform, hsigma⟩ := h c List.mem_cons_self
      rw [lowerFrom, lowerIn, if_neg hsigma, hform, ih fun d hd => h d (List.mem_cons_of_mem c hd)]
      rfl

-- A text in lower case stays as it is.
@[simp] theorem lower_lower (s : String) : lower (lower s) = lower s := by
  simp only [lower, String.toList_ofList, lowerChars]
  rw [lowerFrom_of_settled fun _ hd => settled_of_mem_lowerFrom hd]

end HostScript.Text
