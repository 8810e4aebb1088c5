import HostScript.Proofs.Machine.Agreement
import HostScript.Proofs.Machine.Cycle

namespace HostScript

-- The variables after the inputs were put into their places.
def View.bound (supplied : List (String × Value)) :
    List (String × InputSlot) → Array Value → Array Value
  | [], locals => locals
  | (name, slot) :: rest, locals =>
    bound supplied rest
      (locals.setIfInBounds slot.slot (Machine.suppliedValue supplied name))

-- Whether an input is of its declared type.
def InputSlot.accepted (r : Registry) (supplied : List (String × Value)) (name : String)
    (slot : InputSlot) : Bool :=
  slot.ty.admits (r.typeOf (Machine.suppliedValue supplied name))

namespace View

variable {supplied : List (String × Value)} {table : List (String × InputSlot)}
  {locals : Array Value}

@[simp] theorem size_bound : (bound supplied table locals).size = locals.size := by
  induction table generalizing locals with
  | nil => rfl
  | cons entry rest ih => rw [bound, ih, Array.size_setIfInBounds]

theorem getElem?_bound_of_forall_ne {i : Nat} (h : ∀ entry ∈ table, entry.2.slot ≠ i) :
    (bound supplied table locals)[i]? = locals[i]? := by
  induction table generalizing locals with
  | nil => rfl
  | cons entry rest ih =>
      rw [bound, ih fun e he => h e (List.mem_cons_of_mem _ he)]
      exact Array.getElem?_setIfInBounds_ne (h entry List.mem_cons_self)

theorem getElem?_bound (supplied : List (String × Value)) {name : String} {slot : InputSlot}
    (hmem : (name, slot) ∈ table)
    (hnodup : (table.map fun entry => entry.2.slot).Nodup) (hlt : slot.slot < locals.size) :
    (bound supplied table locals)[slot.slot]? = some (Machine.suppliedValue supplied name) := by
  induction table generalizing locals with
  | nil => cases hmem
  | cons entry rest ih =>
      rw [List.map_cons, List.nodup_cons] at hnodup
      rw [bound]
      rcases List.mem_cons.mp hmem with rfl | hrest
      · rw [getElem?_bound_of_forall_ne]
        · exact Array.getElem?_setIfInBounds_self_of_lt hlt
        · intro e he heq
          exact hnodup.1 (List.mem_map.mpr ⟨e, he, heq⟩)
      · exact ih hrest hnodup.2 (by simpa using hlt)

end View

namespace Machine.Shows

variable {m : Machine} {v : View}

-- An input replaces a value that needs no reference.
theorem bindInput (hs : m.Shows [] [] v) (r : Registry) (supplied : List (String × Value))
    (name : String) {slot : InputSlot} {old : Value} (hslot : v.locals[slot.slot]? = some old)
    (hold : old.isRef = false) :
    (∃ m', Machine.bindInput r name slot (suppliedValue supplied name) m = .ok () m' ∧
      slot.accepted r supplied name = true ∧ m'.Shows [] []
        { v with locals := v.locals.setIfInBounds slot.slot (suppliedValue supplied name) }) ∨
    ∃ f, Machine.bindInput r name slot (suppliedValue supplied name) m = .error f m ∧
      (m.Exhausted f ∨ f.code = .inVarTypeError ∧ slot.accepted r supplied name = false) := by
  unfold Machine.bindInput InputSlot.accepted
  by_cases hty : slot.ty.admits (r.typeOf (suppliedValue supplied name))
  · simp only [hty, if_true]
    rcases hs.getLocal slot.slot with ⟨hnone, -⟩ | ⟨c, x, hx, hc, hvalue⟩
    · rw [hslot] at hnone
      cases hnone
    · rw [hslot, Option.some.injEq] at hx
      subst hx
      simp only [bind, EStateM.bind, Work.loadLocal, hc]
      rcases hs.ofValue (by simp) (suppliedValue supplied name) with ⟨d, m₁, h₁, hs₁⟩ | ⟨f, h₁, hf⟩
      · left
        rcases hs₁.getLocal slot.slot with ⟨hnone, -⟩ | ⟨c₁, x₁, hx₁, hc₁, hvalue₁⟩
        · rw [hslot] at hnone
          cases hnone
        · rw [hslot, Option.some.injEq] at hx₁
          subst hx₁
          refine ⟨{ m₁ with locals := m₁.locals.setIfInBounds slot.slot d }, ?_, trivial, ?_⟩
          · simp only [h₁, Work.storeLocal, bind, EStateM.bind, Work.loadLocal, hc₁]
            rfl
          · have hput := hs₁.setLocal hc₁ hvalue₁
            exact hput.forget ((References.handle?_eq_none_iff hput.value).mpr hold)
      · right
        refine ⟨f, ?_, .inl hf⟩
        simp only [h₁]
  · simp only [hty]
    exact .inr ⟨_, rfl, .inr ⟨rfl, trivial⟩⟩

-- All inputs are bound, or one is not of its type, or there is no room for one.
theorem bindInputs (hs : m.Shows [] [] v) (r : Registry) (supplied : List (String × Value))
    (table : List (String × InputSlot)) (hnodup : (table.map fun entry => entry.2.slot).Nodup)
    (hslots : ∀ entry ∈ table, v.locals[entry.2.slot]? = some .null) :
    (∃ m', Machine.bindInputs r supplied table m = .ok () m' ∧
      (∀ entry ∈ table, entry.2.accepted r supplied entry.1 = true) ∧
      m'.Shows [] [] { v with locals := View.bound supplied table v.locals }) ∨
    ∃ f m' v', Machine.bindInputs r supplied table m = .error f m' ∧ m'.Shows [] [] v' ∧
      v'.outside = v.outside ∧ v'.warnings = v.warnings ∧
      (m'.Exhausted f ∨ f.code = .inVarTypeError ∧
        ∃ entry ∈ table, entry.2.accepted r supplied entry.1 = false) := by
  induction table generalizing m v with
  | nil => exact .inl ⟨m, rfl, fun _ h => (List.not_mem_nil h).elim, hs⟩
  | cons entry rest ih =>
      obtain ⟨name, slot⟩ := entry
      rw [List.map_cons, List.nodup_cons] at hnodup
      simp only [Machine.bindInputs, bind, EStateM.bind]
      rcases hs.bindInput r supplied name (hslots _ List.mem_cons_self) rfl with
        ⟨m₁, h₁, hty, hs₁⟩ | ⟨f, h₁, hf⟩
      · have hrest : ∀ entry ∈ rest, (v.locals.setIfInBounds slot.slot
            (suppliedValue supplied name))[entry.2.slot]? = some .null := by
          intro e he
          rw [Array.getElem?_setIfInBounds_ne]
          · exact hslots e (List.mem_cons_of_mem _ he)
          · exact fun heq => hnodup.1 (List.mem_map.mpr ⟨e, he, heq.symm⟩)
        rw [h₁]
        rcases ih hs₁ hnodup.2 hrest with ⟨m₂, h₂, hall, hs₂⟩ | ⟨f, m₂, v₂, h₂, hs₂, ho, hw, hf⟩
        · refine .inl ⟨m₂, h₂, fun e he => ?_, hs₂⟩
          rcases List.mem_cons.mp he with rfl | he
          · exact hty
          · exact hall e he
        · refine .inr ⟨f, m₂, v₂, h₂, hs₂, ho, hw, hf.imp_right ?_⟩
          rintro ⟨hcode, e, he, hrefused⟩
          exact ⟨hcode, e, List.mem_cons_of_mem _ he, hrefused⟩
      · rw [h₁]
        refine .inr ⟨f, m, v, rfl, hs, rfl, rfl, hf.imp_right ?_⟩
        rintro ⟨hcode, hrefused⟩
        exact ⟨hcode, _, List.mem_cons_self, hrefused⟩

end Machine.Shows

end HostScript
