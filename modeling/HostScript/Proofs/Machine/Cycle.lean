import HostScript.Proofs.Machine.Primitives

namespace HostScript

namespace Machine

-- Between two runs no position of the reference table is in use.
structure Idle (m : Machine) : Prop where
  sound : m.refs.Sound
  unused : ∀ h, m.refs.uses h = 0

-- References are counted, and nothing was reported.
def Clean (m : Machine) : Prop :=
  ∃ v, m.Shows [] [] v ∧ v.warnings = #[]

theorem idle_new (limits : Limits) (world : World) : (Machine.new limits world).Idle where
  sound := References.sound_ofCapacity limits.references
  unused h := by simp [Machine.new, References.ofCapacity, References.uses, References.count?,
    References.find?]

end Machine

-- What a machine shows that is ready for a script with so many variables.
def View.start (m : Machine) (localsCount : Nat) : View :=
  { stackCapacity := m.stackCapacity
    refCapacity := m.refs.capacity
    locals := Array.replicate (max m.locals.size localsCount) .null
    world := m.world }

theorem Cell.occurrences_replicate_null (h n : Nat) :
    Cell.occurrences h (List.replicate n .null) = 0 := by
  induction n with
  | zero => rfl
  | succ n ih => simp [List.replicate_succ, ih, Cell.handle?]

theorem Machine.Idle.prepare {m : Machine} (h : m.Idle) (localsCount : Nat) :
    (m.prepare localsCount).Shows [] [] (View.start m localsCount) where
  sound := ⟨h.sound.nodup, h.sound.free, h.sound.positive, h.sound.holder⟩
  counted k := by
    have hk : (m.refs.forgetHooks).uses k = 0 := h.unused k
    simp [Machine.prepare, hk, Cell.occurrences_replicate_null]
  pending := rfl
  stack := rfl
  locals := by simp [Machine.prepare, View.start, References.value?]
  stackCapacity := rfl
  refCapacity := rfl
  loops := rfl
  pc := rfl
  returned := rfl
  world := rfl
  printed := rfl
  warnings := rfl

namespace Machine

section

variable [HostHooks]

-- Giving a cell back changes nothing but the reference table and what the host makes of it.
theorem letGo_eq (m : Machine) (c : Cell) : ∃ refs told,
    m.letGo c = { m with refs, world := HostHooks.tellAll told m.world } := by
  unfold letGo Work.release
  cases c.handle? with
  | none => exact ⟨m.refs, [], rfl⟩
  | some h =>
      simp only [Work.onRefs]
      cases (do return ((), ← m.refs.release h) : Except Fault (Unit × References)) with
      | ok r => exact ⟨r.2, _, rfl⟩
      | error f => exact ⟨m.refs, [], rfl⟩

theorem foldl_letGo_eq (cells : List Cell) (m : Machine) : ∃ refs told,
    cells.foldl letGo m = { m with refs, world := HostHooks.tellAll told m.world } := by
  induction cells generalizing m with
  | nil => exact ⟨m.refs, [], rfl⟩
  | cons c cells ih =>
      obtain ⟨refs, told, h⟩ := letGo_eq m c
      obtain ⟨refs', told', h'⟩ := ih (m.letGo c)
      refine ⟨refs', told ++ told', ?_⟩
      rw [List.foldl_cons, h', h]
      simp only [HostHooks.tellAll, List.foldl_append]

theorem foldl_letGo_of_releaseAll {cells : List Cell} {m m' : Machine}
    (h : Work.releaseAll cells m = .ok () m') : cells.foldl letGo m = m' := by
  induction cells generalizing m with
  | nil =>
      cases h
      rfl
  | cons c cells ih =>
      simp only [Work.releaseAll, bind, EStateM.bind] at h
      split at h
      · rename_i m₁ h₁
        rw [List.foldl_cons, letGo, h₁]
        exact ih h
      · cases h

theorem idle_reset (m : Machine) : m.reset.Idle where
  sound :=
    { nodup := List.nodup_nil
      free := fun h => by simp [reset, References.drain]
      positive := fun h e he => by simp [reset, References.drain, References.find?] at he
      holder := fun o h => by simp [reset, References.drain, References.get?, References.find?] }
  unused h := by
    simp [reset, References.drain, References.uses, References.count?, References.find?]

-- Cleaning up changes nothing that a run shows, but may add warnings.
theorem reset_spec (m : Machine) : m.reset.returned = m.returned ∧ m.reset.printed = m.printed := by
  obtain ⟨refs, told, h⟩ := foldl_letGo_eq (m.stack.reverse ++ m.locals.toList)
    { m with stack := [], locals := m.locals.map fun _ => .null }
  simp only [reset, h, and_self]

theorem world_reset (hhooks : ∀ hook w, HostHooks.tell hook w = w) (m : Machine) :
    m.reset.world = m.world := by
  obtain ⟨refs, told, h⟩ := foldl_letGo_eq (m.stack.reverse ++ m.locals.toList)
    { m with stack := [], locals := m.locals.map fun _ => .null }
  simp only [reset, h, HostHooks.tellAll_eq_self hhooks]

end

end Machine

theorem References.leftovers_of_unused {t : References} (hs : t.Sound) (h : ∀ k, t.uses k = 0) :
    t.leftovers = [] := by
  have hempty : ∀ k, t.find? k = none := fun k => by
    have hk := hs.uses_ne_zero (h := k)
    rw [h k] at hk
    simpa using hk
  simp only [References.leftovers, List.filterMap_eq_nil_iff]
  rintro ⟨e, k⟩ hmem
  have hget := List.mk_mem_zipIdx_iff_getElem?.mp hmem
  have hk := hempty k
  simp only [References.find?, Array.getElem?_toList] at hk hget
  rw [hget] at hk
  cases e with
  | none => rfl
  | some e => cases hk

namespace Machine.Shows

variable {m : Machine} {v : View}

-- Everything that a machine holds can be given back, with nothing left over.
theorem reset_warnings (hs : m.Shows [] [] v) : m.reset.warnings = m.warnings := by
  let cleared : Machine := { m with stack := [], locals := m.locals.map fun _ => .null }
  let held := m.stack.reverse ++ m.locals.toList
  have hlocals : cleared.locals.toList = List.replicate m.locals.size .null := by
    simp [cleared, List.map_const']
  have hcleared : cleared.Shows held (v.stack.reverse ++ v.locals.toList)
      { v with stack := [], locals := Array.replicate v.locals.size .null } :=
    { hs with
      counted := fun k => by
        have hk := hs.counted k
        simp only [Cell.occurrences_nil, Nat.zero_add] at hk
        rw [hlocals, Cell.occurrences_replicate_null]
        simp only [held, Cell.occurrences_append, Cell.occurrences_reverse, cleared,
          Cell.occurrences_nil, Nat.add_zero]
        exact hk
      pending := by
        simp only [held, List.map_append, List.map_reverse]
        exact congr (congrArg _ (congrArg _ hs.stack)) hs.locals
      stack := rfl
      locals := by
        rw [hlocals]
        simp [References.value?, hs.locals_size] }
  have hlength : held.length = (v.stack.reverse ++ v.locals.toList).length := by
    simp [held, hs.stack_length, hs.locals_size]
  have hpending : cleared.Shows (held ++ []) (v.stack.reverse ++ v.locals.toList ++ [])
      { v with stack := [], locals := Array.replicate v.locals.size .null } := by
    simpa using hcleared
  obtain ⟨m', hall, hs'⟩ := hpending.releaseAll hlength
  have hfold := foldl_letGo_of_releaseAll hall
  obtain ⟨refs, told, hrefs⟩ := foldl_letGo_eq held cleared
  have hunused : ∀ k, m'.refs.uses k = 0 := by
    intro k
    have hk := hs'.counted k
    rw [← hfold, hrefs] at hk ⊢
    rw [hlocals, Cell.occurrences_replicate_null] at hk
    simpa [cleared] using hk
  have hleft := References.leftovers_of_unused hs'.sound hunused
  have hwarnings : m'.warnings = m.warnings := by
    rw [← hfold, hrefs]
  have hreset : m.reset.warnings =
      m'.warnings ++ (m'.refs.leftovers.map (leftoverWarning m'.world)).toArray := by
    simp only [← hfold, reset, HostHooks.tellAll_idle]
    rfl
  rw [hreset, hleft, hwarnings]
  simp

end Machine.Shows

end HostScript
