import HostScript.Proofs.References.Table
import HostScript.Proofs.Stateful

namespace HostScript

-- The object that the host is told about.
def Hook.about : Hook → ObjectRef
  | .acquired o | .released o => o

@[simp] theorem Hook.about_acquired (o : ObjectRef) : (Hook.acquired o).about = o := rfl

@[simp] theorem Hook.about_released (o : ObjectRef) : (Hook.released o).about = o := rfl

namespace References

variable {t t' u : References} {h : Nat} {p : Payload} {o : ObjectRef} {e : Reference}

-- One table comes from another by taking and giving references, of any handles and in any order.
inductive Leads (t : References) : References → Prop
  | refl : Leads t t
  | insertText {u u' : References} {s : String} {h : Nat} :
      Leads t u → u.insertText s = .ok (h, u') → Leads t u'
  | addRef {u u' : References} {h : Nat} : Leads t u → u.addRef h = .ok u' → Leads t u'
  | acquire {u u' : References} {o : ObjectRef} {h : Nat} :
      Leads t u → u.acquire o = .ok (h, u') → Leads t u'
  | release {u u' : References} {h : Nat} : Leads t u → u.release h = .ok u' → Leads t u'

theorem Leads.trans (h₁ : t.Leads t') (h₂ : t'.Leads u) : t.Leads u := by
  induction h₂ with
  | refl => exact h₁
  | insertText _ hop ih => exact ih.insertText hop
  | addRef _ hop ih => exact ih.addRef hop
  | acquire _ hop ih => exact ih.acquire hop
  | release _ hop ih => exact ih.release hop

-- What the host was told about an object, in order.
def toldOf (t : References) (o : ObjectRef) : List Hook :=
  t.hooks.toList.filter (·.about = o)

-- Being acquired and being released, so often in turn.
def turns (o : ObjectRef) (n : Nat) : List Hook :=
  (List.replicate n [.acquired o, .released o]).flatten

theorem turns_succ (o : ObjectRef) (n : Nat) :
    turns o (n + 1) = turns o n ++ [.acquired o, .released o] := by
  simp [turns, List.replicate_succ', List.flatten_append]

-- The table tells its host the truth: acquiring and releasing take turns, and the last word about an
-- object is that it was acquired exactly if the table holds it.
structure Told (t : References) : Prop where
  sound : t.Sound
  turns : ∀ o, ∃ n, t.toldOf o =
    References.turns o n ++ if t.holders.contains o then [.acquired o] else []

theorem hooks_allocate (ha : t.allocate p = .ok (h, t')) : t'.hooks = t.hooks := by
  unfold allocate at ha
  split at ha
  · obtain ⟨-, rfl⟩ := Prod.mk.inj (Except.ok.inj ha)
    rfl
  · split at ha
    · obtain ⟨-, rfl⟩ := Prod.mk.inj (Except.ok.inj ha)
      rfl
    · cases ha

-- The record and the objects held stay as they are.
theorem Told.of_eq (ht : t.Told) (hs : t'.Sound) (hhooks : t'.hooks = t.hooks)
    (hholders : t'.holders = t.holders) : t'.Told where
  sound := hs
  turns o := by
    rw [toldOf, hhooks, hholders]
    exact ht.turns o

theorem toldOf_push (hook : Hook) (o : ObjectRef) (hooks : Array Hook) :
    (hooks.push hook).toList.filter (·.about = o) =
      hooks.toList.filter (·.about = o) ++ if hook.about = o then [hook] else [] := by
  by_cases ho : hook.about = o <;> simp [List.filter_append, ho]

theorem Told.insertText (ht : t.Told) {s : String} (hop : t.insertText s = .ok (h, t')) :
    t'.Told := by
  obtain ⟨-, -, -, -, hholders, -⟩ := allocate_spec ht.sound hop
  exact ht.of_eq (insertText_gains ht.sound hop).sound (hooks_allocate hop) hholders

theorem addRef_eq (hop : t.addRef h = .ok t') : ∃ e, t.find? h = some e ∧
    t' = { t with slots := t.slots.setIfInBounds h (some { e with count := e.count + 1 }) } := by
  unfold References.addRef at hop
  split at hop
  · rename_i e he
    exact ⟨e, he, (Except.ok.inj hop).symm⟩
  · cases hop

theorem Told.addRef (ht : t.Told) (hop : t.addRef h = .ok t') : t'.Told := by
  obtain ⟨e, he, rfl⟩ := addRef_eq hop
  exact ht.of_eq (sound_addRef ht.sound he) rfl rfl

theorem Told.acquire (ht : t.Told) (hop : t.acquire o = .ok (h, t')) : t'.Told := by
  have hs := (acquire_gains ht.sound hop).sound
  unfold References.acquire at hop
  split at hop
  · obtain ⟨u, hadd, hu⟩ := except_bind_ok.mp hop
    obtain ⟨-, rfl⟩ := Prod.mk.inj (Except.ok.inj hu)
    exact ht.addRef hadd
  · rename_i hnone
    cases hal : t.allocate (.object o) with
    | error f =>
        rw [hal] at hop
        cases hop
    | ok r =>
        rw [hal] at hop
        obtain ⟨-, rfl⟩ := Prod.mk.inj (Except.ok.inj hop)
        obtain ⟨-, -, -, -, hholders, -⟩ := allocate_spec ht.sound hal
        refine ⟨hs, fun o' => ?_⟩
        obtain ⟨n, hn⟩ := ht.turns o'
        refine ⟨n, ?_⟩
        simp only [toldOf, toldOf_push, hooks_allocate hal, hholders, Std.TreeMap.contains_insert]
        rw [toldOf] at hn
        by_cases ho : o = o'
        · subst ho
          have hnot : t.holders.contains o = false := by
            rw [Std.TreeMap.contains_eq_isSome_getElem?, hnone]
            rfl
          simp [hn, hnot]
        · simp [hn, ho]

theorem Told.vacate (ht : t.Told) (he : t.find? h = some e) : (t.vacate h e.payload).Told := by
  have hs := sound_vacate ht.sound he
  cases hp : e.payload with
  | text s =>
      rw [hp] at hs
      exact ht.of_eq hs rfl rfl
  | object o =>
      rw [hp] at hs
      have hheld : t.holders.contains o = true := by
        have hget : t.get? h = some (.object o) := by simp [get?, he, hp]
        rw [Std.TreeMap.contains_eq_isSome_getElem?, (ht.sound.holder o h).mpr hget]
        rfl
      refine ⟨hs, fun o' => ?_⟩
      obtain ⟨n, hn⟩ := ht.turns o'
      rw [toldOf] at hn
      by_cases ho : o = o'
      · subst ho
        refine ⟨n + 1, ?_⟩
        simp only [toldOf, References.vacate, toldOf_push, hn, hheld, turns_succ]
        simp
      · refine ⟨n, ?_⟩
        simp only [toldOf, References.vacate, toldOf_push, hn]
        simp [ho, Std.TreeMap.contains_erase]

theorem Told.release (ht : t.Told) (hop : t.release h = .ok t') : t'.Told := by
  have hlost : t'.Sound := by
    have hu : t.uses h ≠ 0 := by
      rw [ht.sound.uses_ne_zero]
      unfold References.release at hop
      split at hop
      · rename_i e he
        rw [he]
        rfl
      · cases hop
    obtain ⟨u, hu', hl⟩ := release_loses ht.sound hu
    rw [hop] at hu'
    obtain rfl := Except.ok.inj hu'
    exact hl.sound
  unfold References.release at hop
  split at hop
  · rename_i e he
    split at hop
    · obtain rfl := Except.ok.inj hop
      exact ht.of_eq hlost rfl rfl
    · obtain rfl := Except.ok.inj hop
      exact ht.vacate he
  · cases hop

theorem Leads.told (hl : t.Leads t') (ht : t.Told) : t'.Told := by
  induction hl with
  | refl => exact ht
  | insertText _ hop ih => exact ih.insertText hop
  | addRef _ hop ih => exact ih.addRef hop
  | acquire _ hop ih => exact ih.acquire hop
  | release _ hop ih => exact ih.release hop

theorem not_contains_of_unused (hs : t.Sound) (hu : ∀ k, t.uses k = 0) (o : ObjectRef) :
    t.holders.contains o = false := by
  rw [Std.TreeMap.contains_eq_isSome_getElem?]
  cases hh : t.holders[o]? with
  | none => rfl
  | some k =>
      obtain ⟨e, he, -⟩ := Option.map_eq_some_iff.mp ((hs.holder o k).mp hh)
      have hlive := hs.uses_ne_zero (h := k)
      rw [hu k, he] at hlive
      simp at hlive

-- A table that holds nothing starts a new record.
theorem told_forgetHooks (hs : t.Sound) (hu : ∀ k, t.uses k = 0) : t.forgetHooks.Told where
  sound := ⟨hs.nodup, hs.free, hs.positive, hs.holder⟩
  turns o := by
    refine ⟨0, ?_⟩
    have hnot : t.forgetHooks.holders.contains o = false := not_contains_of_unused hs hu o
    rw [hnot]
    rfl

-- What is told of an object when a position is given back.
def farewell (o : ObjectRef) (entry : Option Reference) : Option Hook :=
  if entry.map (·.payload) = some (.object o) then some (.released o) else none

theorem filterMap_leftovers (o : ObjectRef) (entries : List (Option Reference)) (start : Nat) :
    ((entries.zipIdx start).filterMap fun slot => slot.1.map fun e => (slot.2, e.payload)).filterMap
      (fun held => farewell o (some ⟨held.2, 1⟩)) = entries.filterMap (farewell o) := by
  induction entries generalizing start with
  | nil => rfl
  | cons entry entries ih =>
      rw [List.zipIdx_cons]
      cases entry with
      | none => simpa [farewell] using ih (start + 1)
      | some e =>
          have hrest := ih (start + 1)
          by_cases hp : e.payload = .object o
          · simpa [farewell, hp] using hrest
          · simpa [farewell, hp] using hrest

-- What is told of one object when everything is given back at once.
theorem toldOf_drain (t : References) (o : ObjectRef) :
    t.drain.2.toldOf o = t.toldOf o ++ t.slots.toList.filterMap (farewell o) := by
  have hleft : t.leftovers.filterMap (fun held => farewell o (some ⟨held.2, 1⟩)) =
      t.slots.toList.filterMap (farewell o) := filterMap_leftovers o t.slots.toList 0
  rw [← hleft]
  simp only [References.drain, toldOf, Array.toList_append, List.filter_append,
    List.append_cancel_left_eq, ← List.filterMap_eq_filter, List.filterMap_filterMap]
  refine List.filterMap_congr fun held _ => ?_
  obtain ⟨h, payload⟩ := held
  cases payload with
  | text s => rfl
  | object p =>
      by_cases hp : p = o
      · simp [farewell, hp]
      · simp [farewell, hp]

theorem getElem?_farewell {k : Nat} {entry : Option Reference}
    (hk : t.slots.toList[k]? = some entry) :
    farewell o entry = if t.get? k = some (.object o) then some (.released o) else none := by
  have hget : t.get? k = entry.map (·.payload) := by
    rw [Array.getElem?_toList] at hk
    simp [get?, find?, hk]
  rw [farewell, hget]

-- An object has one position at most, so it is told once.
theorem filterMap_farewell (hs : t.Sound) (o : ObjectRef) :
    t.slots.toList.filterMap (farewell o) =
      if t.holders.contains o then [.released o] else [] := by
  rw [Std.TreeMap.contains_eq_isSome_getElem?]
  cases hh : t.holders[o]? with
  | none =>
      refine List.filterMap_eq_nil_iff.mpr fun entry hmem => ?_
      obtain ⟨k, hk⟩ := List.getElem?_of_mem hmem
      rw [getElem?_farewell hk, if_neg]
      rw [← hs.holder, hh]
      simp
  | some h =>
      have hget := (hs.holder o h).mp hh
      obtain ⟨e, he, -⟩ := Option.map_eq_some_iff.mp hget
      have hlt : h < t.slots.toList.length := by simpa using lt_size_of_find? he
      have hother : ∀ k, k ≠ h → ∀ entry, t.slots.toList[k]? = some entry →
          farewell o entry = none := by
        intro k hk entry hentry
        rw [getElem?_farewell hentry, if_neg]
        rw [← hs.holder, hh]
        simpa using Ne.symm hk
      have hsplit : t.slots.toList = t.slots.toList.take h ++
          t.slots.toList[h] :: t.slots.toList.drop (h + 1) := by
        rw [← List.drop_eq_getElem_cons hlt, List.take_append_drop]
      have hbefore : (t.slots.toList.take h).filterMap (farewell o) = [] := by
        refine List.filterMap_eq_nil_iff.mpr fun entry hmem => ?_
        obtain ⟨k, hk⟩ := List.getElem?_of_mem hmem
        rw [List.getElem?_take] at hk
        split at hk
        · exact hother k (by omega) entry hk
        · cases hk
      have hafter : (t.slots.toList.drop (h + 1)).filterMap (farewell o) = [] := by
        refine List.filterMap_eq_nil_iff.mpr fun entry hmem => ?_
        obtain ⟨k, hk⟩ := List.getElem?_of_mem hmem
        rw [List.getElem?_drop] at hk
        exact hother (h + 1 + k) (by omega) entry hk
      have hhere : farewell o t.slots.toList[h] = some (.released o) := by
        rw [getElem?_farewell (List.getElem?_eq_getElem hlt), if_pos hget]
      rw [hsplit, List.filterMap_append, List.filterMap_cons, hbefore, hafter, hhere]
      rfl

-- Giving everything back at once tells of each object still held that it is released.
theorem Told.drain (ht : t.Told) (o : ObjectRef) : ∃ n, t.drain.2.toldOf o = References.turns o n := by
  obtain ⟨n, hn⟩ := ht.turns o
  have hdrain : t.drain.2.toldOf o =
      t.toldOf o ++ if t.holders.contains o then [.released o] else [] := by
    rw [← filterMap_farewell ht.sound o, toldOf_drain]
  by_cases hheld : t.holders.contains o
  · refine ⟨n + 1, ?_⟩
    rw [hdrain, hn, turns_succ, if_pos hheld, if_pos hheld, List.append_assoc]
    rfl
  · refine ⟨n, ?_⟩
    rw [hdrain, hn, if_neg hheld, if_neg hheld, List.append_nil, List.append_nil]

end References

end HostScript
