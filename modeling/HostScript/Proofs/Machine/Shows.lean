import HostScript.Machine.Run
import HostScript.Proofs.Machine.View
import HostScript.Proofs.References.Table

namespace HostScript

-- How many cells of a list hold a handle.
def Cell.occurrences (h : Nat) (cells : List Cell) : Nat :=
  (cells.filterMap Cell.handle?).count h

namespace Cell

@[simp] theorem occurrences_nil (h : Nat) : occurrences h [] = 0 := rfl

@[simp] theorem occurrences_cons (h : Nat) (c : Cell) (cells : List Cell) :
    occurrences h (c :: cells) = (if c.handle? = some h then 1 else 0) + occurrences h cells := by
  cases hc : c.handle? with
  | none => simp [occurrences, hc]
  | some k => simp [occurrences, hc, List.count_cons, Nat.add_comm]

@[simp] theorem occurrences_append (h : Nat) (cells more : List Cell) :
    occurrences h (cells ++ more) = occurrences h cells + occurrences h more := by
  simp [occurrences]

theorem occurrences_reverse (h : Nat) (cells : List Cell) :
    occurrences h cells.reverse = occurrences h cells := by
  simp [occurrences, List.filterMap_reverse]

theorem occurrences_pos {h : Nat} {c : Cell} {cells : List Cell} (hc : c ∈ cells)
    (hh : c.handle? = some h) : 0 < occurrences h cells :=
  List.count_pos_iff.mpr (List.mem_filterMap.mpr ⟨c, hc, hh⟩)

theorem occurrences_take_drop (h n : Nat) (cells : List Cell) :
    occurrences h (cells.take n) + occurrences h (cells.drop n) = occurrences h cells := by
  rw [← occurrences_append, List.take_append_drop]

-- Exchanging one cell of a list for another.
theorem occurrences_set (h : Nat) {cells : List Cell} {i : Nat} {old : Cell}
    (hi : cells[i]? = some old) (new : Cell) :
    occurrences h (cells.set i new) + (if old.handle? = some h then 1 else 0) =
      occurrences h cells + (if new.handle? = some h then 1 else 0) := by
  induction cells generalizing i with
  | nil => simp at hi
  | cons c cells ih =>
      cases i with
      | zero =>
          simp only [List.getElem?_cons_zero, Option.some.injEq] at hi
          subst hi
          simp only [List.set_cons_zero, occurrences_cons]
          omega
      | succ i =>
          have hrest := ih (by simpa using hi)
          simp only [List.set_cons_succ, occurrences_cons]
          omega

end Cell

-- The value behind a cell, if its handle is in use for a payload of its kind.
def References.value? (t : References) : Cell → Option Value
  | .null => some .null
  | .number x => some (.number x)
  | .bool b => some (.bool b)
  | .text h => match t.get? h with
    | some (.text s) => some (.text s)
    | _ => none
  | .object h => match t.get? h with
    | some (.object o) => some (.object o)
    | _ => none

namespace References

variable {t t' : References}

theorem value?_congr {c : Cell} (hk : ∀ h, c.handle? = some h → t'.get? h = t.get? h) :
    t'.value? c = t.value? c := by
  cases c with
  | null => rfl
  | number x => rfl
  | bool b => rfl
  | text h => simp only [value?, hk h rfl]
  | object h => simp only [value?, hk h rfl]

theorem map_value?_congr {cells : List Cell}
    (hk : ∀ h, Cell.occurrences h cells ≠ 0 → t'.get? h = t.get? h) :
    cells.map t'.value? = cells.map t.value? :=
  List.map_congr_left fun _ hc => value?_congr fun h hh =>
    hk h (Nat.ne_of_gt (Cell.occurrences_pos hc hh))

theorem handle?_eq_none_iff {c : Cell} {x : Value} (hx : t.value? c = some x) :
    c.handle? = none ↔ x.isRef = false := by
  cases c with
  | null => cases hx; simp [Cell.handle?, Value.isRef]
  | number y => cases hx; simp [Cell.handle?, Value.isRef]
  | bool b => cases hx; simp [Cell.handle?, Value.isRef]
  | text h =>
      simp only [value?] at hx
      split at hx <;> cases hx
      simp [Cell.handle?, Value.isRef]
  | object h =>
      simp only [value?] at hx
      split at hx <;> cases hx
      simp [Cell.handle?, Value.isRef]

end References

-- The machine `m` shows `v` while some cells that were taken off the stack are still to be given
-- back: each handle is counted as often as it is held, and every cell has a value.
structure Machine.Shows (pending : List Cell) (values : List Value) (m : Machine) (v : View) :
    Prop where
  sound : m.refs.Sound
  counted : ∀ h, m.refs.uses h = Cell.occurrences h pending + Cell.occurrences h m.stack +
    Cell.occurrences h m.locals.toList
  pending : pending.map m.refs.value? = values.map some
  stack : m.stack.map m.refs.value? = v.stack.map some
  locals : m.locals.toList.map m.refs.value? = v.locals.toList.map some
  stackCapacity : m.stackCapacity = v.stackCapacity
  refCapacity : m.refs.capacity = v.refCapacity
  loops : m.loops = v.loops
  pc : m.pc = v.pc
  returned : m.returned = v.returned
  world : m.world = v.world
  printed : m.printed = v.printed
  warnings : m.warnings = v.warnings

namespace Machine.Shows

variable {pending : List Cell} {values : List Value} {m : Machine} {v : View} {c : Cell}
  {x : Value}

theorem stack_length (hs : Shows pending values m v) : m.stack.length = v.stack.length := by
  simpa using congrArg List.length hs.stack

theorem locals_size (hs : Shows pending values m v) : m.locals.size = v.locals.size := by
  simpa using congrArg List.length hs.locals

theorem value (hs : Shows (c :: pending) (x :: values) m v) : m.refs.value? c = some x :=
  (List.cons.inj hs.pending).1

-- A table with one more reference to the handle of a new pending cell.
theorem gain (hs : Shows pending values m v) {h : Nat} {p : Payload} {t : References}
    (hg : m.refs.Gains h p t) (hc : c.handle? = some h) (hx : t.value? c = some x) :
    Shows (c :: pending) (x :: values) { m with refs := t } v := by
  have hkept : ∀ cells : List Cell, (∀ k, Cell.occurrences k cells ≤ m.refs.uses k) →
      cells.map t.value? = cells.map m.refs.value? := by
    intro cells hle
    exact References.map_value?_congr fun k hk => hg.kept k (by have := hle k; omega)
  have hcount := hs.counted
  refine { hs with
    sound := hg.sound
    refCapacity := hg.capacity.trans hs.refCapacity
    counted := fun k => ?_
    pending := ?_
    stack := ?_
    locals := ?_ }
  · have hk := hcount k
    have hu := hg.uses k
    simp only [Cell.occurrences_cons, hc, Option.some.injEq]
    by_cases heq : k = h
    · subst heq
      simp only [if_true] at hu ⊢
      omega
    · simp only [heq, Ne.symm heq, if_false] at hu ⊢
      omega
  · rw [List.map_cons, List.map_cons, hx, hkept _ fun k => by rw [hcount k]; omega, hs.pending]
  · exact (hkept m.stack fun k => by rw [hcount k]; omega).trans hs.stack
  · exact (hkept m.locals.toList fun k => by rw [hcount k]; omega).trans hs.locals

theorem lose (hs : Shows (c :: pending) (x :: values) m v) {h : Nat} {t : References}
    (hl : m.refs.Loses h t) (hc : c.handle? = some h) :
    Shows pending values { m with refs := t } v := by
  have hcount : ∀ k, t.uses k = Cell.occurrences k pending + Cell.occurrences k m.stack +
      Cell.occurrences k m.locals.toList := by
    intro k
    have hk := hs.counted k
    have hu := hl.uses k
    simp only [Cell.occurrences_cons, hc, Option.some.injEq] at hk
    by_cases heq : k = h
    · subst heq
      simp only [if_true] at hu hk
      omega
    · simp only [heq, Ne.symm heq, if_false] at hu hk
      omega
  have hkept : ∀ cells : List Cell, (∀ k, Cell.occurrences k cells ≤ t.uses k) →
      cells.map t.value? = cells.map m.refs.value? := by
    intro cells hle
    exact References.map_value?_congr fun k hk => hl.kept k (by have := hle k; omega)
  refine { hs with
    sound := hl.sound
    refCapacity := hl.capacity.trans hs.refCapacity
    counted := hcount
    pending := ?_
    stack := ?_
    locals := ?_ }
  · rw [hkept _ fun k => by rw [hcount k]; omega, (List.cons.inj hs.pending).2]
  · exact (hkept m.stack fun k => by rw [hcount k]; omega).trans hs.stack
  · exact (hkept m.locals.toList fun k => by rw [hcount k]; omega).trans hs.locals

theorem uses_ne_zero (hs : Shows (c :: pending) (x :: values) m v) {h : Nat}
    (hc : c.handle? = some h) : m.refs.uses h ≠ 0 := by
  have := hs.counted h
  simp only [Cell.occurrences_cons, hc, if_true] at this
  omega

-- A cell without a handle comes and goes freely.
theorem forget (hs : Shows (c :: pending) (x :: values) m v) (hc : c.handle? = none) :
    Shows pending values m v :=
  { hs with
    counted := fun k => by simpa [hc] using hs.counted k
    pending := (List.cons.inj hs.pending).2 }

theorem bring (hs : Shows pending values m v) (hc : c.handle? = none)
    (hx : m.refs.value? c = some x) : Shows (c :: pending) (x :: values) m v :=
  { hs with
    counted := fun k => by simpa [hc] using hs.counted k
    pending := by rw [List.map_cons, List.map_cons, hx, hs.pending] }

-- When no position is free, each one is held by some cell, so there are no more positions than
-- cells.
theorem size_le (hs : Shows pending values m v) (hf : m.refs.free = []) :
    m.refs.slots.size ≤ pending.length + m.stack.length + m.locals.size := by
  let held := (pending ++ m.stack ++ m.locals.toList).filterMap Cell.handle?
  have hsub : List.range m.refs.slots.size ⊆ held := by
    intro k hk
    have hlive : m.refs.uses k ≠ 0 := by
      rw [hs.sound.uses_ne_zero]
      have hfree := hs.sound.free k
      simp only [hf, List.not_mem_nil, false_iff, not_and] at hfree
      exact Option.isSome_iff_ne_none.mpr (hfree (List.mem_range.mp hk))
    have hocc : 0 < Cell.occurrences k (pending ++ m.stack ++ m.locals.toList) := by
      have := hs.counted k
      simp only [Cell.occurrences_append]
      omega
    exact List.count_pos_iff.mp hocc
  calc m.refs.slots.size = (List.range m.refs.slots.size).length := by simp
    _ ≤ held.length := List.Nodup.length_le_of_subset List.nodup_range hsub
    _ ≤ (pending ++ m.stack ++ m.locals.toList).length := List.length_filterMap_le _ _
    _ = pending.length + m.stack.length + m.locals.size := by simp [Nat.add_assoc]

end Machine.Shows

end HostScript
