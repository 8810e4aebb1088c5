import HostScript.Proofs.References.Hooks

namespace HostScript.References

variable {t t' u u' : References} {h k : Nat} {s : String} {e : Reference}

-- What a host is told can be read off the end of the record.
theorem toldSince_eq {told : List Hook} (h : t'.hooks = t.hooks ++ told.toArray) :
    t'.toldSince t = told := by
  simp [toldSince, h]

theorem toldSince_same (h : t'.hooks = t.hooks) : t'.toldSince t = [] :=
  toldSince_eq (by simpa using h)

theorem toldSince_congr (ht : t'.hooks = t.hooks) (hu : u'.hooks = u.hooks) :
    u'.toldSince t' = u.toldSince t := by
  simp only [toldSince, ht, hu]

-- A list with the place of each item, read off place by place.
theorem zipIdx_eq_filterMap {α : Type} (xs : List α) {n : Nat} (hn : xs.length ≤ n) :
    xs.zipIdx = (List.range n).filterMap fun k => xs[k]?.map (·, k) := by
  induction n generalizing xs with
  | zero =>
      obtain rfl := List.length_eq_zero_iff.mp (Nat.le_zero.mp hn)
      rfl
  | succ n ih =>
      rw [List.range_succ, List.filterMap_append]
      by_cases hlt : xs.length ≤ n
      · simp [ih xs hlt, List.getElem?_eq_none hlt]
      · have hne : xs ≠ [] := by
          rintro rfl
          simp at hlt
        have hlen : xs.length = n + 1 := by omega
        have hsame : (List.range n).filterMap (fun k => xs[k]?.map (·, k)) =
            (List.range n).filterMap fun k => xs.dropLast[k]?.map (·, k) := by
          refine List.filterMap_congr fun k hk => ?_
          rw [List.getElem?_dropLast, if_pos (by simp at hk; omega)]
        rw [hsame, ← ih xs.dropLast (by simp [hlen])]
        conv_lhs => rw [← List.dropLast_append_getLast hne]
        simp [List.zipIdx_append, hlen, List.getLast_eq_getElem]

-- What a position still holds, for the list of what is left.
def left? (t : References) (h : Nat) : Option (Nat × Payload) :=
  (t.find? h).map fun e => (h, e.payload)

theorem leftovers_eq {n : Nat} (hn : t.slots.size ≤ n) :
    t.leftovers = (List.range n).filterMap t.left? := by
  rw [leftovers, zipIdx_eq_filterMap t.slots.toList (by simpa using hn), List.filterMap_filterMap]
  refine List.filterMap_congr fun k _ => ?_
  simp only [left?, find?, Array.getElem?_toList]
  cases t.slots[k]? with
  | none => rfl
  | some e => cases e <;> rfl

-- Two tables that hold the same in the same positions and told the host the same.
structure Alike (t t' : References) : Prop where
  hooks : t'.hooks = t.hooks
  find : ∀ j, t'.find? j = t.find? j

-- The second table holds one text more, in a position that is not in use in the first one.
structure Spare (k : Nat) (s : String) (t t' : References) : Prop where
  hooks : t'.hooks = t.hooks
  empty : t.find? k = none
  entry : t'.find? k = some ⟨.text s, 1⟩
  find : ∀ j, j ≠ k → t'.find? j = t.find? j

-- What is left of an entry that loses a reference, and what the host is told of it.
def lowered (e : Reference) : Option Reference :=
  if 1 < e.count then some { e with count := e.count - 1 } else none

def partingHooks (e : Reference) : Array Hook :=
  match e.payload with
  | .text _ => #[]
  | .object o => if 1 < e.count then #[] else #[.released o]

theorem release_eq (he : t.find? h = some e) :
    ∃ u, t.release h = .ok u ∧ u.hooks = t.hooks ++ partingHooks e ∧
      ∀ j, u.find? j = if j = h then lowered e else t.find? j := by
  have hlt := lt_size_of_find? he
  by_cases hc : 1 < e.count
  · refine ⟨{ t with slots := t.slots.setIfInBounds h (some { e with count := e.count - 1 }) },
      by simp only [release, he, hc, if_true], ?_, fun j => ?_⟩
    · cases hp : e.payload <;> simp [partingHooks, hp, hc]
    · rw [find?_set hlt, lowered, if_pos hc]
  · refine ⟨t.vacate h e.payload, by simp only [release, he, hc, if_false], ?_, fun j => ?_⟩
    · cases hp : e.payload <;> simp [vacate, partingHooks, hp, hc]
    · rw [find?_vacate he, lowered, if_neg hc]

theorem release_empty (he : t.find? h = none) : t.release h = .error (.deadHandle h) := by
  simp [release, he]

theorem Alike.release (ha : Alike t t') (h : Nat) :
    (t.release h = .error (.deadHandle h) ∧ t'.release h = .error (.deadHandle h)) ∨
    ∃ u u', t.release h = .ok u ∧ t'.release h = .ok u' ∧ Alike u u' := by
  cases he : t.find? h with
  | none => exact .inl ⟨release_empty he, release_empty ((ha.find h).trans he)⟩
  | some e =>
      obtain ⟨u, hu, hhooks, hfind⟩ := release_eq he
      obtain ⟨u', hu', hhooks', hfind'⟩ := release_eq ((ha.find h).trans he)
      refine .inr ⟨u, u', hu, hu', by rw [hhooks', hhooks, ha.hooks], fun j => ?_⟩
      rw [hfind', hfind, ha.find]

theorem Spare.release (hs : Spare k s t t') (hne : h ≠ k) :
    (t.release h = .error (.deadHandle h) ∧ t'.release h = .error (.deadHandle h)) ∨
    ∃ u u', t.release h = .ok u ∧ t'.release h = .ok u' ∧ Spare k s u u' := by
  cases he : t.find? h with
  | none => exact .inl ⟨release_empty he, release_empty ((hs.find h hne).trans he)⟩
  | some e =>
      obtain ⟨u, hu, hhooks, hfind⟩ := release_eq he
      obtain ⟨u', hu', hhooks', hfind'⟩ := release_eq ((hs.find h hne).trans he)
      refine .inr ⟨u, u', hu, hu', by rw [hhooks', hhooks, hs.hooks], ?_, ?_, fun j hj => ?_⟩
      · rw [hfind, if_neg (Ne.symm hne), hs.empty]
      · rw [hfind', if_neg (Ne.symm hne), hs.entry]
      · rw [hfind', hfind, hs.find j hj]

-- The text in the additional position goes when that handle is given back.
theorem Spare.release_self (hs : Spare k s t t') :
    t.release k = .error (.deadHandle k) ∧ ∃ u', t'.release k = .ok u' ∧ Alike t u' := by
  obtain ⟨u', hu', hhooks, hfind⟩ := release_eq hs.entry
  refine ⟨release_empty hs.empty, u', hu', ?_, fun j => ?_⟩
  · simp [hhooks, partingHooks, hs.hooks]
  · by_cases hj : j = k
    · subst hj
      rw [hfind, if_pos rfl, hs.empty]
      rfl
    · rw [hfind, if_neg hj, hs.find j hj]

-- A text gets a position that was not in use.
theorem spare_of_insertText (ht : t.Sound) (hi : t.insertText s = .ok (k, t')) :
    Spare k s t t' := by
  obtain ⟨hempty, hfind, -⟩ := allocate_spec ht hi
  exact ⟨hooks_allocate hi, hempty, by rw [hfind, if_pos rfl],
    fun j hj => by rw [hfind, if_neg hj]⟩

theorem Alike.leftovers (ha : Alike t t') : t'.leftovers = t.leftovers := by
  have hleft : t'.left? = t.left? := funext fun j => by simp only [left?, ha.find]
  rw [leftovers_eq (n := max t.slots.size t'.slots.size) (by omega),
    leftovers_eq (n := max t.slots.size t'.slots.size) (by omega), hleft]

-- The additional text is listed where its position stands.
theorem Spare.leftovers (hs : Spare k s t t') : ∃ before after,
    t.leftovers = before ++ after ∧ t'.leftovers = before ++ (k, .text s) :: after := by
  have hlt : k < t'.slots.size := lt_size_of_find? hs.entry
  let n := max t.slots.size t'.slots.size
  let rest := List.range' (k + 1) (n - (k + 1))
  have hsplit : List.range n = List.range k ++ k :: rest := by
    have hn : n = k + (1 + (n - (k + 1))) := by omega
    conv_lhs => rw [hn]
    rw [List.range_eq_range', List.range_eq_range', ← List.range'_append_1, ← List.range'_append_1]
    simp [rest]
  have hleft : ∀ j, j ≠ k → t'.left? j = t.left? j := fun j hj => by simp only [left?, hs.find j hj]
  have hbefore : (List.range k).filterMap t'.left? = (List.range k).filterMap t.left? :=
    List.filterMap_congr fun j hj => hleft j (by simp at hj; omega)
  have hafter : rest.filterMap t'.left? = rest.filterMap t.left? :=
    List.filterMap_congr fun j hj => hleft j (by simp [rest] at hj; omega)
  have hnone : t.left? k = none := by simp [left?, hs.empty]
  have hsome : t'.left? k = some (k, .text s) := by simp [left?, hs.entry]
  refine ⟨(List.range k).filterMap t.left?, rest.filterMap t.left?, ?_, ?_⟩
  · rw [leftovers_eq (n := n) (by omega), hsplit, List.filterMap_append,
      List.filterMap_cons_none hnone]
  · rw [leftovers_eq (n := n) (by omega), hsplit, List.filterMap_append,
      List.filterMap_cons_some hsome, hbefore, hafter]

end HostScript.References
