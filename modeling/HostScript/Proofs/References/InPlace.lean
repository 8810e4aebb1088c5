import HostScript.Proofs.References.Spare

namespace HostScript.References

variable {t : References} {h : Nat} {o : ObjectRef}

theorem acquire_held (hh : t.holders[o]? = some h) :
    t.acquire o = (t.addRef h).map (h, ·) := by
  cases hadd : t.addRef h <;> simp only [acquire, hh, hadd] <;> rfl

theorem acquire_unheld (hh : t.holders[o]? = none) : t.acquire o =
    (t.allocate (.object o)).map fun (h, t') =>
      (h, { t' with holders := t'.holders.insert o h, hooks := t'.hooks.push (.acquired o) }) := by
  cases hal : t.allocate (.object o) <;> simp only [acquire, hh, hal] <;> rfl

-- The table as its host changes it: one part at a time and in place, so that a request refused half
-- way leaves what it had changed by then.
abbrev InPlace := EStateM Fault References

namespace InPlace

def put (h : Nat) (entry : Option Reference) : InPlace Unit :=
  modify fun t => { t with slots := t.slots.setIfInBounds h entry }

def tell (hook : Hook) : InPlace Unit :=
  modify fun t => { t with hooks := t.hooks.push hook }

def entry (h : Nat) : InPlace Reference := do
  match (← get).find? h with
  | some e => return e
  | none => throw (.deadHandle h)

def allocate (payload : Payload) : InPlace Nat := do
  match (← get).free with
  | h :: free =>
    modify fun t => { t with free }
    put h (some ⟨payload, 1⟩)
    return h
  | [] =>
    if (← get).slots.size < (← get).capacity then
      modify fun t => { t with slots := t.slots.push (some ⟨payload, 1⟩) }
      return (← get).slots.size - 1
    else throw (.referencesFull (← get).capacity)

def addRef (h : Nat) : InPlace Unit := do
  let e ← entry h
  put h (some { e with count := e.count + 1 })

def acquire (o : ObjectRef) : InPlace Nat := do
  match (← get).holders[o]? with
  | some h =>
    addRef h
    return h
  | none =>
    let h ← allocate (.object o)
    modify fun t => { t with holders := t.holders.insert o h }
    tell (.acquired o)
    return h

-- The count goes down before it is looked at.
def release (h : Nat) : InPlace Unit := do
  let e ← entry h
  put h (some { e with count := e.count - 1 })
  if 0 < e.count - 1 then return
  put h none
  modify fun t => { t with free := h :: t.free }
  match e.payload with
  | .text _ => return
  | .object o =>
    modify fun t => { t with holders := t.holders.erase o }
    tell (.released o)

-- Empties the positions listed, in that order.
def clear : List Nat → InPlace (List (Nat × Payload))
  | [] => return []
  | h :: rest => do
    match (← get).find? h with
    | none => clear rest
    | some e =>
      put h none
      match e.payload with
      | .text _ => pure ()
      | .object o => tell (.released o)
      return (h, e.payload) :: (← clear rest)

def drain : InPlace (List (Nat × Payload)) := do
  let left ← clear (List.range (← get).slots.size)
  modify fun t => { t with slots := #[], free := [], holders := ∅ }
  return left

-- What is left of the table by an operation that answers with a table only when it is not refused.
def ofExcept {α : Type} (t : References) :
    Except Fault (α × References) → EStateM.Result Fault References α
  | .ok (a, t') => .ok a t'
  | .error f => .error f t

-- What the host is told of the payloads that are given back.
def farewells (left : List (Nat × Payload)) : List Hook :=
  left.filterMap fun (_, payload) => match payload with
    | .text _ => none
    | .object o => some (Hook.released o)

theorem entry_run (h : Nat) (t : References) : (entry h).run t =
    match t.find? h with
    | some e => .ok e t
    | none => .error (.deadHandle h) t := by
  simp only [entry, EStateM.run_bind, EStateM.run_get]
  cases t.find? h <;> rfl

theorem allocate_run (p : Payload) (t : References) :
    (allocate p).run t = ofExcept t (t.allocate p) := by
  cases hfree : t.free with
  | cons h free => simp [allocate, References.allocate, put, ofExcept, hfree]
  | nil =>
      by_cases hroom : t.slots.size < t.capacity
      · simp [allocate, References.allocate, ofExcept, hfree, hroom]
      · have hrefused : (allocate p).run t = .error (.referencesFull t.capacity) t := by
          simp only [allocate, EStateM.run_bind, EStateM.run_get, hfree, hroom, if_false]
          rfl
        simp [hrefused, References.allocate, ofExcept, hfree, hroom]

theorem addRef_run (h : Nat) (t : References) :
    (addRef h).run t = ofExcept t ((t.addRef h).map ((), ·)) := by
  cases he : t.find? h <;>
    simp [addRef, References.addRef, put, ofExcept, entry_run, he, Except.map]

theorem acquire_run (o : ObjectRef) (t : References) :
    (acquire o).run t = ofExcept t (t.acquire o) := by
  cases hh : t.holders[o]? with
  | some h =>
      rw [acquire_held hh]
      cases hadd : t.addRef h <;> simp [acquire, hh, addRef_run, hadd, ofExcept, Except.map]
  | none =>
      rw [acquire_unheld hh]
      cases hal : t.allocate (.object o) <;>
        simp [acquire, tell, hh, allocate_run, hal, ofExcept, Except.map]

theorem release_run (h : Nat) (t : References) :
    (release h).run t = ofExcept t ((t.release h).map ((), ·)) := by
  cases he : t.find? h with
  | none => simp [release, References.release, ofExcept, entry_run, he, Except.map]
  | some e =>
      by_cases hc : 1 < e.count
      · simp [release, References.release, put, ofExcept, entry_run, he, hc, Except.map]
      · cases hp : e.payload <;>
          simp [release, References.release, vacate, put, tell, ofExcept, entry_run, he, hc, hp,
            Except.map]

-- Each position is looked at before anything but earlier ones was emptied.
theorem clear_run (hs : List Nat) (hn : hs.Nodup) (t : References) : ∃ slots,
    (clear hs).run t = .ok (hs.filterMap t.left?)
      { t with slots, hooks := t.hooks ++ (farewells (hs.filterMap t.left?)).toArray } := by
  induction hs generalizing t with
  | nil => exact ⟨t.slots, by simp [clear, farewells]⟩
  | cons h rest ih =>
      obtain ⟨hnot, hrest⟩ := List.nodup_cons.mp hn
      cases he : t.find? h with
      | none =>
          obtain ⟨slots, hrun⟩ := ih hrest t
          refine ⟨slots, ?_⟩
          have hleft : t.left? h = none := by simp [left?, he]
          rw [List.filterMap_cons_none hleft]
          simpa [clear, he] using hrun
      | some e =>
          have hleft : t.left? h = some (h, e.payload) := by simp [left?, he]
          have hsame : ∀ holders hooks, rest.filterMap (References.mk t.capacity
              (t.slots.setIfInBounds h none) t.free holders hooks).left? =
                rest.filterMap t.left? := by
            intro holders hooks
            refine List.filterMap_congr fun k hk => ?_
            have hne : k ≠ h := by
              rintro rfl
              exact hnot hk
            simp only [left?, find?_set (lt_size_of_find? he), if_neg hne]
          rw [List.filterMap_cons_some hleft]
          cases hp : e.payload with
          | text s =>
              obtain ⟨slots, hrun⟩ := ih hrest
                { t with slots := t.slots.setIfInBounds h none }
              rw [hsame] at hrun
              refine ⟨slots, ?_⟩
              simp [clear, he, hp, put, hrun, farewells]
          | object o =>
              obtain ⟨slots, hrun⟩ := ih hrest
                { t with slots := t.slots.setIfInBounds h none,
                         hooks := t.hooks.push (.released o) }
              rw [hsame] at hrun
              refine ⟨slots, ?_⟩
              simp [clear, he, hp, put, tell, hrun, farewells]

theorem drain_run (t : References) : drain.run t = .ok t.drain.1 t.drain.2 := by
  obtain ⟨slots, hrun⟩ := clear_run (List.range t.slots.size) List.nodup_range t
  rw [← leftovers_eq (Nat.le_refl _)] at hrun
  simp only [drain, EStateM.run_bind, EStateM.run_get, hrun]
  rfl

end InPlace

end HostScript.References
