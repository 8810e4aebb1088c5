import HostScript.Proofs.Levels.Expressions
import HostScript.Proofs.Meaning.Statements

namespace HostScript

namespace Layout

variable {L : Layout} {k k' j : Nat} {what : String} {s : UInt8} {l l' l'' : Array Cell}

-- The hidden variables up to the given number are as before.
def Kept (L : Layout) (k : Nat) (l l' : Array Cell) : Prop :=
  ∀ what j s, what ∈ hiddenWords → j ≤ k → L.Slot (hiddenName what j) s →
    l'[s.toNat]? = l[s.toNat]?

-- Above the given number, variables for the source of a loop hold nothing.
def Vacant (L : Layout) (k : Nat) (l : Array Cell) : Prop :=
  ∀ j s c, k < j → L.Slot (hiddenName "iter" j) s → l[s.toNat]? = some c → c = .null

theorem Kept.refl : L.Kept k l l :=
  fun _ _ _ _ _ _ => rfl

theorem Kept.trans (h : L.Kept k l l') (h' : L.Kept k' l' l'') (hk : k ≤ k') : L.Kept k l l'' :=
  fun what j s hw hj hs => (h' what j s hw (Nat.le_trans hj hk) hs).trans (h what j s hw hj hs)

theorem Vacant.mono (h : L.Vacant k l) (hk : k ≤ k') : L.Vacant k' l :=
  fun j s c hj => h j s c (Nat.lt_of_le_of_lt hk hj)

-- What is vacant stays so where it is kept or vacant again.
theorem Vacant.keep (h : L.Vacant k l) (hkept : L.Kept k' l l') (hvacant : L.Vacant k' l') :
    L.Vacant k l' := by
  intro j s c hj hs hc
  rcases Nat.lt_or_ge k' j with hlt | hle
  · exact hvacant j s c hlt hs hc
  · rw [hkept "iter" j s (by simp [hiddenWords]) hle hs] at hc
    exact h j s c hj hs hc

variable (hn : L.slots.Nodup)
include hn

-- Writing one variable leaves the others alone.
theorem getElem?_set_ne {name name' : String} {s' : UInt8} {c : Cell} (hs : L.Slot name s)
    (hs' : L.Slot name' s') (hne : name' ≠ name) :
    (l.setIfInBounds s.toNat c)[s'.toNat]? = l[s'.toNat]? :=
  Array.getElem?_setIfInBounds_ne fun he => hne ((slot_inj hn hs hs').mp he).symm

theorem kept_assign {name : String} (hname : PlainName name) (hs : L.Slot name s) (c : Cell) :
    L.Kept k l (l.setIfInBounds s.toNat c) :=
  fun what j _ _ _ hs' => getElem?_set_ne hn hs hs'
    fun he => not_plainName_hiddenName what j (he ▸ hname)

theorem kept_hide (hw : what ∈ hiddenWords) (hs : L.Slot (hiddenName what j) s) (hj : k < j)
    (c : Cell) : L.Kept k l (l.setIfInBounds s.toNat c) :=
  fun what' j' _ hw' hj' hs' => getElem?_set_ne hn hs hs' fun he => by
    have := (hiddenName_inj hw' hw he).2
    omega

theorem vacant_assign {name : String} (hname : PlainName name) (hs : L.Slot name s)
    (h : L.Vacant k l) (c : Cell) : L.Vacant k (l.setIfInBounds s.toNat c) := by
  intro j s' c' hj hs' hc
  rw [getElem?_set_ne hn hs hs' fun he => not_plainName_hiddenName "iter" j (he ▸ hname)] at hc
  exact h j s' c' hj hs' hc

theorem vacant_hide (hw : what ∈ hiddenWords) (hs : L.Slot (hiddenName what j) s)
    (h : L.Vacant k l) (c : Cell) (hfree : what = "iter" → j ≤ k ∨ c = .null) :
    L.Vacant k (l.setIfInBounds s.toNat c) := by
  intro j' s' c' hj hs' hc
  by_cases he : hiddenName "iter" j' = hiddenName what j
  · obtain ⟨rfl, rfl⟩ := hiddenName_inj (by simp [hiddenWords]) hw he
    have hsame := (slot_inj hn hs hs').mpr rfl
    rw [← hsame, Array.getElem?_setIfInBounds_self] at hc
    split at hc
    · cases hc
      exact (hfree rfl).resolve_left (by omega)
    · cases hc
  · rw [getElem?_set_ne hn hs hs' he] at hc
    exact h j' s' c' hj hs' hc

-- Giving up the source of a loop leaves its variable vacant.
theorem vacant_clear (hs : L.Slot (hiddenName "iter" (k + 1)) s) (h : L.Vacant (k + 1) l) :
    L.Vacant k (l.setIfInBounds s.toNat .null) := by
  intro j s' c hj hs' hc
  rcases Nat.lt_or_ge (k + 1) j with hlt | hle
  · exact vacant_hide hn (by simp [hiddenWords]) hs h .null (fun _ => .inr rfl) j s' c hlt hs' hc
  · obtain rfl : j = k + 1 := by omega
    rw [← (slot_inj hn hs hs').mpr rfl, Array.getElem?_setIfInBounds_self] at hc
    split at hc
    · cases hc
      rfl
    · cases hc

end Layout

namespace Levels

variable {T : Levels} {k₀ k₁ j₀ j₁ : Nat} {l₀ l₁ l₀' l₁' l₀'' l₁'' : Array Cell}

-- The variables of both runs between two statements.
structure Alike (T : Levels) (k₀ k₁ : Nat) (l₀ l₁ : Array Cell) : Prop where
  named : T.Named l₀ l₁
  room : T.fast.slots.length ≤ l₁.size
  vacant₀ : T.slow.Vacant k₀ l₀
  vacant₁ : T.fast.Vacant k₁ l₁

-- What statements make of them: hidden variables of the code around them are as before.
structure After (T : Levels) (k₀ k₁ : Nat) (l₀ l₁ l₀' l₁' : Array Cell) : Prop where
  alike : T.Alike k₀ k₁ l₀' l₁'
  kept₀ : T.slow.Kept k₀ l₀ l₀'
  kept₁ : T.fast.Kept k₁ l₁ l₁'

theorem Alike.mono (h : T.Alike k₀ k₁ l₀ l₁) (hk₀ : k₀ ≤ j₀) (hk₁ : k₁ ≤ j₁) :
    T.Alike j₀ j₁ l₀ l₁ :=
  ⟨h.named, h.room, h.vacant₀.mono hk₀, h.vacant₁.mono hk₁⟩

-- Inner statements leave what outer ones do.
theorem Alike.after (h : T.Alike k₀ k₁ l₀ l₁) (h' : T.After j₀ j₁ l₀ l₁ l₀' l₁') (hk₀ : k₀ ≤ j₀)
    (hk₁ : k₁ ≤ j₁) : T.After k₀ k₁ l₀ l₁ l₀' l₁' where
  alike := ⟨h'.alike.named, h'.alike.room, h.vacant₀.keep h'.kept₀ h'.alike.vacant₀,
    h.vacant₁.keep h'.kept₁ h'.alike.vacant₁⟩
  kept₀ := Layout.Kept.refl.trans h'.kept₀ hk₀
  kept₁ := Layout.Kept.refl.trans h'.kept₁ hk₁

theorem After.refl (h : T.Alike k₀ k₁ l₀ l₁) : T.After k₀ k₁ l₀ l₁ l₀ l₁ :=
  ⟨h, .refl, .refl⟩

theorem After.trans (h : T.After k₀ k₁ l₀ l₁ l₀' l₁') (h' : T.After k₀ k₁ l₀' l₁' l₀'' l₁'') :
    T.After k₀ k₁ l₀ l₁ l₀'' l₁'' :=
  ⟨h'.alike, h.kept₀.trans h'.kept₀ (Nat.le_refl _), h.kept₁.trans h'.kept₁ (Nat.le_refl _)⟩

-- Both runs put the same into a variable of the script.
theorem Alike.assign {name : String} {s₀ s₁ : UInt8} (h : T.Alike k₀ k₁ l₀ l₁)
    (hname : PlainName name) (hs₀ : T.slow.Slot name s₀) (hs₁ : T.fast.Slot name s₁)
    (hlt₀ : s₀.toNat < l₀.size) (hlt₁ : s₁.toNat < l₁.size) (c : Cell) :
    T.After k₀ k₁ l₀ l₁ (l₀.setIfInBounds s₀.toNat c) (l₁.setIfInBounds s₁.toNat c) where
  alike :=
    { named := by
        intro other t₀ t₁ hother ht₀ ht₁
        by_cases he : other = name
        · subst he
          rw [← (Layout.slot_inj T.slowNodup hs₀ ht₀).mpr rfl,
            ← (Layout.slot_inj T.fastNodup hs₁ ht₁).mpr rfl,
            Array.getElem?_setIfInBounds_self_of_lt hlt₀,
            Array.getElem?_setIfInBounds_self_of_lt hlt₁]
        · rw [Layout.getElem?_set_ne T.slowNodup hs₀ ht₀ he,
            Layout.getElem?_set_ne T.fastNodup hs₁ ht₁ he]
          exact h.named other t₀ t₁ hother ht₀ ht₁
      room := by
        rw [Array.size_setIfInBounds]
        exact h.room
      vacant₀ := Layout.vacant_assign T.slowNodup hname hs₀ h.vacant₀ c
      vacant₁ := Layout.vacant_assign T.fastNodup hname hs₁ h.vacant₁ c }
  kept₀ := Layout.kept_assign T.slowNodup hname hs₀ c
  kept₁ := Layout.kept_assign T.fastNodup hname hs₁ c

-- The same where the later statements are inner ones.
theorem After.within (h : T.After k₀ k₁ l₀ l₁ l₀' l₁') (h' : T.After j₀ j₁ l₀' l₁' l₀'' l₁'')
    (hk₀ : k₀ ≤ j₀) (hk₁ : k₁ ≤ j₁) : T.After k₀ k₁ l₀ l₁ l₀'' l₁'' :=
  h.trans (h.alike.after h' hk₀ hk₁)

section

variable {what : String} {s s₀ s₁ : UInt8} {c : Cell}

-- Hidden variables of the code around that are the same stay so.
theorem After.hidden {i₀ i₁ : Nat} (h : T.After k₀ k₁ l₀ l₁ l₀' l₁') (hw : what ∈ hiddenWords)
    (hi₀ : i₀ ≤ k₀) (hi₁ : i₁ ≤ k₁) (hs₀ : T.slow.Slot (hiddenName what i₀) s₀)
    (hs₁ : T.fast.Slot (hiddenName what i₁) s₁) (hsame : l₁[s₁.toNat]? = l₀[s₀.toNat]?) :
    l₁'[s₁.toNat]? = l₀'[s₀.toNat]? := by
  rw [h.kept₁ what i₁ s₁ hw hi₁ hs₁, h.kept₀ what i₀ s₀ hw hi₀ hs₀, hsame]

-- One run puts something into a hidden variable.
theorem Alike.hideSlow {j : Nat} (h : T.Alike k₀ k₁ l₀ l₁) (hw : what ∈ hiddenWords)
    (hs : T.slow.Slot (hiddenName what j) s) (hfree : what = "iter" → j ≤ k₀ ∨ c = .null) :
    T.Alike k₀ k₁ (l₀.setIfInBounds s.toNat c) l₁ where
  named := by
    intro name t₀ t₁ hname ht₀ ht₁
    rw [Layout.getElem?_set_ne T.slowNodup hs ht₀ fun he =>
      not_plainName_hiddenName what j (he ▸ hname)]
    exact h.named name t₀ t₁ hname ht₀ ht₁
  room := h.room
  vacant₀ := Layout.vacant_hide T.slowNodup hw hs h.vacant₀ c hfree
  vacant₁ := h.vacant₁

theorem Alike.hideFast {j : Nat} (h : T.Alike k₀ k₁ l₀ l₁) (hw : what ∈ hiddenWords)
    (hs : T.fast.Slot (hiddenName what j) s) (hfree : what = "iter" → j ≤ k₁ ∨ c = .null) :
    T.Alike k₀ k₁ l₀ (l₁.setIfInBounds s.toNat c) where
  named := by
    intro name t₀ t₁ hname ht₀ ht₁
    rw [Layout.getElem?_set_ne T.fastNodup hs ht₁ fun he =>
      not_plainName_hiddenName what j (he ▸ hname)]
    exact h.named name t₀ t₁ hname ht₀ ht₁
  room := by
    rw [Array.size_setIfInBounds]
    exact h.room
  vacant₀ := h.vacant₀
  vacant₁ := Layout.vacant_hide T.fastNodup hw hs h.vacant₁ c hfree

-- Both runs put the same into a hidden variable that is no source of a loop.
theorem Alike.hide (h : T.Alike k₀ k₁ l₀ l₁) (hw : what ∈ hiddenWords) (hiter : what ≠ "iter")
    (hs₀ : T.slow.Slot (hiddenName what j₀) s₀) (hs₁ : T.fast.Slot (hiddenName what j₁) s₁)
    (hj₀ : k₀ < j₀) (hj₁ : k₁ < j₁) (c : Cell) :
    T.After k₀ k₁ l₀ l₁ (l₀.setIfInBounds s₀.toNat c) (l₁.setIfInBounds s₁.toNat c) where
  alike := (h.hideSlow hw hs₀ fun he => absurd he hiter).hideFast hw hs₁ fun he => absurd he hiter
  kept₀ := Layout.kept_hide T.slowNodup hw hs₀ hj₀ c
  kept₁ := Layout.kept_hide T.fastNodup hw hs₁ hj₁ c

theorem Alike.clear (h : T.Alike (k₀ + 1) (k₁ + 1) l₀ l₁)
    (hs₀ : T.slow.Slot (hiddenName "iter" (k₀ + 1)) s₀)
    (hs₁ : T.fast.Slot (hiddenName "iter" (k₁ + 1)) s₁) :
    T.Alike k₀ k₁ (l₀.setIfInBounds s₀.toNat .null) (l₁.setIfInBounds s₁.toNat .null) where
  named := ((h.hideSlow (by simp [hiddenWords]) hs₀ fun _ => .inr rfl).hideFast
    (by simp [hiddenWords]) hs₁ fun _ => .inr rfl).named
  room := by
    rw [Array.size_setIfInBounds]
    exact h.room
  vacant₀ := Layout.vacant_clear T.slowNodup hs₀ h.vacant₀
  vacant₁ := Layout.vacant_clear T.fastNodup hs₁ h.vacant₁

-- A loop over the items of a source, from keeping the source to giving it up.
theorem After.clear
    (h : T.After (k₀ + 1) (k₁ + 1) (l₀.setIfInBounds s₀.toNat c) (l₁.setIfInBounds s₁.toNat c) l₀' l₁')
    (hs₀ : T.slow.Slot (hiddenName "iter" (k₀ + 1)) s₀)
    (hs₁ : T.fast.Slot (hiddenName "iter" (k₁ + 1)) s₁) :
    T.After k₀ k₁ l₀ l₁ (l₀'.setIfInBounds s₀.toNat .null) (l₁'.setIfInBounds s₁.toNat .null) where
  alike := h.alike.clear hs₀ hs₁
  kept₀ := ((Layout.kept_hide T.slowNodup (by simp [hiddenWords]) hs₀ (Nat.lt_succ_self k₀) c).trans
    h.kept₀ (Nat.le_succ _)).trans (Layout.kept_hide T.slowNodup (by simp [hiddenWords]) hs₀
      (Nat.lt_succ_self k₀) .null) (Nat.le_refl _)
  kept₁ := ((Layout.kept_hide T.fastNodup (by simp [hiddenWords]) hs₁ (Nat.lt_succ_self k₁) c).trans
    h.kept₁ (Nat.le_succ _)).trans (Layout.kept_hide T.fastNodup (by simp [hiddenWords]) hs₁
      (Nat.lt_succ_self k₁) .null) (Nat.le_refl _)

end

-- Old values are given up in the same way where the variables hold the same, and places that the
-- slow run has are there in the fast one as well.
theorem Alike.old {name : String} {s₀ s₁ : UInt8} {holdsRef : Bool} (h : T.Alike k₀ k₁ l₀ l₁)
    (hs₁ : T.fast.Slot name s₁) (hsame : holdsRef = true → l₁[s₁.toNat]? = l₀[s₀.toNat]?)
    (old : Cell) (hold : l₀[s₀.toNat]? = some old) :
    ∃ old₁, l₁[s₁.toNat]? = some old₁ ∧ (holdsRef = true → old₁ = old) := by
  have hlt : s₁.toNat < l₁.size := Nat.lt_of_lt_of_le (Layout.slot_lt hs₁) h.room
  refine ⟨l₁[s₁.toNat], Array.getElem?_eq_getElem hlt, fun href => ?_⟩
  have hcell := (hsame href).trans hold
  rw [Array.getElem?_eq_getElem hlt] at hcell
  exact Option.some.inj hcell

end Levels

end HostScript
