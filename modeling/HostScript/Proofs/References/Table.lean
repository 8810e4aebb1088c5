import Mathlib
import HostScript.Machine.References

namespace HostScript.References

variable {t t' : References} {h k : Nat} {p : Payload} {o : ObjectRef} {e : Reference}

-- How many references to a position the table counts; none to one that is not in use.
def uses (t : References) (h : Nat) : Nat :=
  (t.count? h).getD 0

-- What the operations keep true of the table: `free` lists exactly the empty positions, a position
-- in use is referenced at least once, and `holders` finds exactly the positions of objects.
structure Sound (t : References) : Prop where
  nodup : t.free.Nodup
  free : ∀ h, h ∈ t.free ↔ h < t.slots.size ∧ t.find? h = none
  positive : ∀ h e, t.find? h = some e → 0 < e.count
  holder : ∀ o h, t.holders[o]? = some h ↔ t.get? h = some (.object o)

theorem lt_size_of_find? (he : t.find? h = some e) : h < t.slots.size := by
  apply Nat.lt_of_not_le
  intro hn
  simp [find?, Array.getElem?_eq_none hn] at he

theorem find?_set (hh : h < t.slots.size) (entry : Option Reference) (free : List Nat)
    (holders : Std.TreeMap ObjectRef Nat) (hooks : Array Hook) (k : Nat) :
    (References.mk t.capacity (t.slots.setIfInBounds h entry) free holders hooks).find? k =
      if k = h then entry else t.find? k := by
  by_cases hk : k = h
  · subst hk
    simp [find?, hh]
  · simp [find?, Array.getElem?_setIfInBounds_ne (Ne.symm hk), hk]

theorem find?_push (entry : Option Reference) (free : List Nat)
    (holders : Std.TreeMap ObjectRef Nat) (hooks : Array Hook) (k : Nat) :
    (References.mk t.capacity (t.slots.push entry) free holders hooks).find? k =
      if k = t.slots.size then entry else t.find? k := by
  by_cases hk : k = t.slots.size
  · simp [find?, hk]
  · simp [find?, Array.getElem?_push, hk]

theorem Sound.uses_ne_zero (hs : t.Sound) : t.uses h ≠ 0 ↔ (t.find? h).isSome := by
  cases he : t.find? h with
  | none => simp [uses, count?, he]
  | some e => simpa [uses, count?, he] using Nat.ne_of_gt (hs.positive h e he)

theorem uses_of_find? (he : t.find? h = some e) : t.uses h = e.count := by
  simp [uses, count?, he]

theorem uses_of_empty (he : t.find? h = none) : t.uses h = 0 := by
  simp [uses, count?, he]

theorem sound_ofCapacity (capacity : Nat) : (ofCapacity capacity).Sound where
  nodup := List.nodup_nil
  free h := by simp [ofCapacity]
  positive h e he := by simp [ofCapacity, find?] at he
  holder o h := by simp [ofCapacity, get?, find?]

-- One more reference to `h`, which holds `p` afterwards; everything in use stays what it was.
structure Gains (t : References) (h : Nat) (p : Payload) (t' : References) : Prop where
  sound : t'.Sound
  uses : ∀ k, t'.uses k = t.uses k + if k = h then 1 else 0
  payload : t'.get? h = some p
  kept : ∀ k, t.uses k ≠ 0 → t'.get? k = t.get? k
  capacity : t'.capacity = t.capacity

-- One reference to `h` less; everything still in use stays what it was.
structure Loses (t : References) (h : Nat) (t' : References) : Prop where
  sound : t'.Sound
  uses : ∀ k, t'.uses k = t.uses k - if k = h then 1 else 0
  kept : ∀ k, t'.uses k ≠ 0 → t'.get? k = t.get? k
  capacity : t'.capacity = t.capacity

-- A table that differs from `t` in a new entry at an empty position only.
theorem Gains.of_entry (hs : t'.Sound) (hn : t.find? h = none)
    (hf : ∀ k, t'.find? k = if k = h then some ⟨p, 1⟩ else t.find? k)
    (hc : t'.capacity = t.capacity) : t.Gains h p t' where
  sound := hs
  uses k := by
    by_cases hk : k = h
    · subst hk
      simp [References.uses, count?, hf, hn]
    · simp [References.uses, count?, hf, hk]
  payload := by simp [get?, hf]
  kept k hu := by
    have hk : k ≠ h := by
      rintro rfl
      exact hu (uses_of_empty hn)
    simp [get?, hf, hk]
  capacity := hc

theorem Gains.of_more (hs : t'.Sound) (he : t.find? h = some e)
    (hf : ∀ k, t'.find? k = if k = h then some { e with count := e.count + 1 } else t.find? k)
    (hc : t'.capacity = t.capacity) : t.Gains h e.payload t' where
  sound := hs
  uses k := by
    by_cases hk : k = h
    · subst hk
      simp [References.uses, count?, hf, he]
    · simp [References.uses, count?, hf, hk]
  payload := by simp [get?, hf]
  kept k _ := by
    by_cases hk : k = h
    · subst hk
      simp [get?, hf, he]
    · simp [get?, hf, hk]
  capacity := hc

theorem Sound.find?_free (hs : t.Sound) {rest : List Nat} (hf : t.free = h :: rest) :
    h < t.slots.size ∧ t.find? h = none :=
  (hs.free h).mp (by simp [hf])

-- Taking a position from the list of free ones, or a new one behind the last, keeps that list
-- right.
theorem allocate_spec (hs : t.Sound) (ha : t.allocate p = .ok (h, t')) :
    t.find? h = none ∧ (∀ k, t'.find? k = if k = h then some ⟨p, 1⟩ else t.find? k) ∧
      t'.free.Nodup ∧ (∀ k, k ∈ t'.free ↔ k < t'.slots.size ∧ t'.find? k = none) ∧
      t'.holders = t.holders ∧ t'.capacity = t.capacity := by
  unfold allocate at ha
  cases hfree : t.free with
  | nil =>
      simp only [hfree] at ha
      split at ha
      · obtain ⟨rfl, rfl⟩ := Prod.mk.inj (Except.ok.inj ha)
        have hnone : t.find? t.slots.size = none := by simp [find?]
        refine ⟨hnone, fun k => find?_push _ _ _ _ k, List.nodup_nil, fun k => ?_, rfl, rfl⟩
        rw [find?_push]
        have hk := hs.free k
        simp only [hfree, List.not_mem_nil, false_iff, not_and] at hk
        simp only [List.not_mem_nil, Array.size_push, false_iff, not_and]
        intro hlt
        by_cases heq : k = t.slots.size
        · simp [heq]
        · simpa [heq] using hk (by omega)
      · cases ha
  | cons first rest =>
      simp only [hfree] at ha
      obtain ⟨rfl, rfl⟩ := Prod.mk.inj (Except.ok.inj ha)
      obtain ⟨hlt, hnone⟩ := hs.find?_free hfree
      have hnodup := hs.nodup
      rw [hfree, List.nodup_cons] at hnodup
      refine ⟨hnone, fun k => find?_set hlt _ _ _ _ k, hnodup.2, fun k => ?_, rfl, rfl⟩
      rw [find?_set hlt]
      have hk := hs.free k
      simp only [hfree, List.mem_cons] at hk
      by_cases heq : k = first
      · subst heq
        simp [hnodup.1]
      · simpa [heq] using hk

theorem insertText_gains (hs : t.Sound) {s : String} (ha : t.insertText s = .ok (h, t')) :
    t.Gains h (.text s) t' := by
  obtain ⟨hn, hf, hnodup, hfree, hholders, hcap⟩ := allocate_spec hs ha
  refine Gains.of_entry ⟨hnodup, hfree, fun k e he => ?_, fun o k => ?_⟩ hn hf hcap
  · rw [hf] at he
    split at he
    · cases he
      exact Nat.one_pos
    · exact hs.positive k e he
  · rw [hholders, hs.holder]
    by_cases hk : k = h
    · subst hk
      simp [get?, hf, hn]
    · simp [get?, hf, hk]

theorem sound_addRef (hs : t.Sound) (he : t.find? h = some e) :
    Sound { t with slots := t.slots.setIfInBounds h (some { e with count := e.count + 1 }) } where
  nodup := hs.nodup
  free k := by
    rw [find?_set (lt_size_of_find? he)]
    by_cases hk : k = h
    · subst hk
      simp [hs.free, he]
    · simp [hs.free, hk]
  positive k e' he' := by
    rw [find?_set (lt_size_of_find? he)] at he'
    split at he'
    · cases he'
      exact Nat.succ_pos _
    · exact hs.positive k e' he'
  holder o k := by
    rw [hs.holder, get?, get?, find?_set (lt_size_of_find? he)]
    by_cases hk : k = h
    · subst hk
      simp [he]
    · simp [hk]

theorem addRef_gains (hs : t.Sound) (hu : t.uses h ≠ 0) :
    ∃ t' p, t.addRef h = .ok t' ∧ t.get? h = some p ∧ t.Gains h p t' := by
  obtain ⟨e, he⟩ := Option.isSome_iff_exists.mp (hs.uses_ne_zero.mp hu)
  refine ⟨_, e.payload, by rw [addRef, he], by simp [get?, he], ?_⟩
  exact Gains.of_more (sound_addRef hs he) he (find?_set (lt_size_of_find? he) _ _ _ _) rfl

theorem acquire_gains (hs : t.Sound) (ha : t.acquire o = .ok (h, t')) :
    t.Gains h (.object o) t' := by
  unfold acquire at ha
  cases hh : t.holders[o]? with
  | some k =>
      rw [hh] at ha
      have hget := (hs.holder o k).mp hh
      obtain ⟨e, he, hp⟩ := Option.map_eq_some_iff.mp hget
      simp only [addRef, he, bind, Except.bind, pure, Except.pure, Except.ok.injEq,
        Prod.mk.injEq] at ha
      obtain ⟨rfl, rfl⟩ := ha
      rw [← hp]
      exact Gains.of_more (sound_addRef hs he) he (find?_set (lt_size_of_find? he) _ _ _ _) rfl
  | none =>
      rw [hh] at ha
      cases hal : t.allocate (.object o) with
      | error f =>
          rw [hal] at ha
          cases ha
      | ok r =>
          obtain ⟨k, t₁⟩ := r
          rw [hal] at ha
          obtain ⟨rfl, rfl⟩ := Prod.mk.inj (Except.ok.inj ha)
          obtain ⟨hn, hf, hnodup, hfree, hholders, hcap⟩ := allocate_spec hs hal
          refine Gains.of_entry ⟨hnodup, hfree, fun k' e he => ?_, fun o' k' => ?_⟩ hn hf hcap
          · change t₁.find? k' = some e at he
            rw [hf] at he
            split at he
            · cases he
              exact Nat.one_pos
            · exact hs.positive k' e he
          · change (t₁.holders.insert o k)[o']? = some k' ↔ t₁.get? k' = some (.object o')
            simp only [Std.TreeMap.getElem?_insert, Std.LawfulEqOrd.compare_eq_iff_eq, hholders, get?, hf]
            have hother := hs.holder o' k'
            by_cases ho : o = o'
            · subst ho
              simp only [if_true, Option.some.injEq]
              by_cases hk : k' = k
              · simp [hk]
              · rw [hh] at hother
                simpa [hk, Ne.symm hk, get?] using hother
            · by_cases hk : k' = k
              · subst hk
                simpa [ho, get?, hn] using hother
              · simpa [ho, hk, get?] using hother

-- Only a table without an empty position refuses a payload.
theorem allocate_error {f : Fault} (ha : t.allocate p = .error f) :
    f = .referencesFull t.capacity ∧ t.free = [] ∧ t.capacity ≤ t.slots.size := by
  unfold allocate at ha
  cases hfree : t.free with
  | nil =>
      simp only [hfree] at ha
      split at ha
      · cases ha
      · cases ha
        exact ⟨rfl, rfl, by omega⟩
  | cons first rest =>
      simp only [hfree] at ha
      cases ha

theorem acquire_error (hs : t.Sound) {f : Fault} (ha : t.acquire o = .error f) :
    f = .referencesFull t.capacity ∧ t.free = [] ∧ t.capacity ≤ t.slots.size := by
  unfold acquire at ha
  cases hh : t.holders[o]? with
  | some k =>
      rw [hh] at ha
      obtain ⟨e, he, _⟩ := Option.map_eq_some_iff.mp ((hs.holder o k).mp hh)
      simp [addRef, he, bind, Except.bind, pure, Except.pure] at ha
  | none =>
      rw [hh] at ha
      cases hal : t.allocate (.object o) with
      | error g =>
          rw [hal] at ha
          cases ha
          exact allocate_error hal
      | ok r =>
          rw [hal] at ha
          cases ha

theorem sound_vacate (hs : t.Sound) (he : t.find? h = some e) : (t.vacate h e.payload).Sound := by
  have hlt := lt_size_of_find? he
  have hnot : h ∉ t.free := by simp [hs.free, he]
  have hfind : ∀ k holders hooks,
      (References.mk t.capacity (t.slots.setIfInBounds h none) (h :: t.free) holders hooks).find? k =
        if k = h then none else t.find? k :=
    fun k _ _ => find?_set hlt _ _ _ _ k
  have hfree : ∀ k, k ∈ h :: t.free ↔
      k < t.slots.size ∧ (if k = h then none else t.find? k) = none := by
    intro k
    by_cases hk : k = h
    · simp [hk, hlt]
    · simp [hk, hs.free]
  have hpositive : ∀ k e', (if k = h then none else t.find? k) = some e' → 0 < e'.count := by
    intro k e' he'
    split at he'
    · cases he'
    · exact hs.positive k e' he'
  cases hp : e.payload with
  | text s =>
      refine ⟨List.nodup_cons.mpr ⟨hnot, hs.nodup⟩, fun k => ?_, fun k e' he' => ?_, fun o k => ?_⟩
      · simpa [vacate, hfind] using hfree k
      · simp only [vacate, hfind] at he'
        exact hpositive k e' he'
      · simp only [vacate, get?, hfind]
        rw [hs.holder, get?]
        by_cases hk : k = h
        · simp [hk, he, hp]
        · simp [hk]
  | object o =>
      have hheld : t.holders[o]? = some h := (hs.holder o h).mpr (by simp [get?, he, hp])
      refine ⟨List.nodup_cons.mpr ⟨hnot, hs.nodup⟩, fun k => ?_, fun k e' he' => ?_, fun o' k => ?_⟩
      · simpa [vacate, hfind] using hfree k
      · simp only [vacate, hfind] at he'
        exact hpositive k e' he'
      · simp only [vacate, get?, hfind, Std.TreeMap.getElem?_erase]
        have hother := hs.holder o' k
        rw [get?] at hother
        by_cases ho : o = o'
        · subst ho
          rw [hheld] at hother
          by_cases hk : k = h
          · simp [hk]
          · simpa [hk, Ne.symm hk] using hother
        · by_cases hk : k = h
          · subst hk
            simp only [he, Option.map_some, hp, Option.some.injEq, Payload.object.injEq] at hother
            simpa [ho] using hother
          · simpa [ho, hk] using hother

theorem find?_vacate (he : t.find? h = some e) (k : Nat) :
    (t.vacate h e.payload).find? k = if k = h then none else t.find? k := by
  unfold vacate
  cases e.payload <;> exact find?_set (lt_size_of_find? he) _ _ _ _ k

theorem capacity_vacate (p : Payload) : (t.vacate h p).capacity = t.capacity := by
  cases p <;> rfl

-- A position that is counted can be given up once. This needs nothing of the rest of the table.
theorem release_counted (hu : t.uses h ≠ 0) :
    ∃ t', t.release h = .ok t' ∧ (∀ k, t'.uses k = t.uses k - if k = h then 1 else 0) ∧
      (∀ k, t'.uses k ≠ 0 → t'.get? k = t.get? k) ∧ t'.capacity = t.capacity := by
  obtain ⟨e, he⟩ : ∃ e, t.find? h = some e := by
    rw [← Option.isSome_iff_exists, Option.isSome_iff_ne_none]
    exact fun hnone => hu (uses_of_empty hnone)
  have hlt := lt_size_of_find? he
  rw [uses_of_find? he] at hu
  by_cases hc : 1 < e.count
  · refine ⟨{ t with slots := t.slots.setIfInBounds h (some { e with count := e.count - 1 }) },
      by simp [release, he, hc], fun k => ?_, fun k _ => ?_, rfl⟩
    · by_cases hk : k = h
      · subst hk
        simp [uses, count?, find?_set hlt, he]
      · simp [uses, count?, find?_set hlt, hk]
    · by_cases hk : k = h
      · subst hk
        simp [get?, find?_set hlt, he]
      · simp [get?, find?_set hlt, hk]
  · refine ⟨t.vacate h e.payload, by simp [release, he, hc], fun k => ?_, fun k hk => ?_,
      capacity_vacate _⟩
    · by_cases hk : k = h
      · subst hk
        simp only [uses, count?, find?_vacate he, he]
        simp
        omega
      · simp [uses, count?, find?_vacate he, hk]
    · by_cases heq : k = h
      · subst heq
        simp [uses, count?, find?_vacate he] at hk
      · simp [get?, find?_vacate he, heq]

theorem sound_release (hs : t.Sound) (hr : t.release h = .ok t') : t'.Sound := by
  unfold release at hr
  cases he : t.find? h with
  | none => simp [he] at hr
  | some e =>
      have hlt := lt_size_of_find? he
      simp only [he] at hr
      split at hr
      · rename_i hc
        cases hr
        refine ⟨hs.nodup, fun k => ?_, fun k e' he' => ?_, fun o k => ?_⟩
        · rw [find?_set hlt]
          by_cases hk : k = h
          · subst hk
            simp [hs.free, he]
          · simp [hs.free, hk]
        · rw [find?_set hlt] at he'
          split at he'
          · cases he'
            exact Nat.sub_pos_of_lt hc
          · exact hs.positive k e' he'
        · rw [hs.holder, get?, get?, find?_set hlt]
          by_cases hk : k = h
          · subst hk
            simp [he]
          · simp [hk]
      · cases hr
        exact sound_vacate hs he

theorem release_loses (hs : t.Sound) (hu : t.uses h ≠ 0) :
    ∃ t', t.release h = .ok t' ∧ t.Loses h t' := by
  obtain ⟨t', hr, huses, hkept, hcap⟩ := release_counted hu
  exact ⟨t', hr, sound_release hs hr, huses, hkept, hcap⟩

end HostScript.References
