import HostScript.Proofs.References.InPlace

namespace HostScript.References

-- What is asked of the table, by a script or by the machine.
inductive Request where
  | insertText (s : String)
  | acquire (o : ObjectRef)
  | addRef (h : Nat)
  | release (h : Nat)
  | drain
  deriving DecidableEq

inductive Answer where
  | handle (h : Nat)
  | done
  | left (held : List (Nat × Payload))
  deriving DecidableEq

-- How a request changes one table.
inductive Change (t : References) : Request → Answer → List Hook → References → Prop
  | text {t' : References} {s : String} {h : Nat} (empty : t.find? h = none)
      (find : ∀ k, t'.find? k = if k = h then some ⟨.text s, 1⟩ else t.find? k) :
      Change t (.insertText s) (.handle h) [] t'
  | entered {t' : References} {o : ObjectRef} {h : Nat} (empty : t.find? h = none)
      (unheld : ∀ k, t.get? k ≠ some (.object o))
      (find : ∀ k, t'.find? k = if k = h then some ⟨.object o, 1⟩ else t.find? k) :
      Change t (.acquire o) (.handle h) [.acquired o] t'
  | again {t' : References} {o : ObjectRef} {h c : Nat} (used : t.find? h = some ⟨.object o, c⟩)
      (find : ∀ k, t'.find? k = if k = h then some ⟨.object o, c + 1⟩ else t.find? k) :
      Change t (.acquire o) (.handle h) [] t'
  | raised {t' : References} {h : Nat} {e : Reference} (used : t.find? h = some e)
      (find : ∀ k, t'.find? k = if k = h then some ⟨e.payload, e.count + 1⟩ else t.find? k) :
      Change t (.addRef h) .done [] t'
  | lowered {t' : References} {h : Nat} {e : Reference} (used : t.find? h = some e)
      (find : ∀ k, t'.find? k = if k = h then lowered e else t.find? k) :
      Change t (.release h) .done (partingHooks e).toList t'
  | drained {t' : References} (find : ∀ k, t'.find? k = none) :
      Change t .drain (.left t.leftovers) (InPlace.farewells t.leftovers) t'

variable {t t' : References} {r : Request} {a : Answer} {told : List Hook} {h k : Nat}
  {o : ObjectRef} {f : Fault}

-- The payload that a request asks a position for.
def Request.payload? : Request → Option Payload
  | .insertText s => some (.text s)
  | .acquire o => some (.object o)
  | .addRef _ | .release _ | .drain => none

-- The operations on the table, as the machine calls them.
def serve (t : References) : Request → Except Fault (Answer × References)
  | .insertText s => (t.insertText s).map fun (h, t') => (.handle h, t')
  | .acquire o => (t.acquire o).map fun (h, t') => (.handle h, t')
  | .addRef h => (t.addRef h).map (.done, ·)
  | .release h => (t.release h).map (.done, ·)
  | .drain => .ok (.left t.drain.1, t.drain.2)

-- The same operations on one table in place.
def perform : Request → InPlace Answer
  | .insertText s => return .handle (← InPlace.allocate (.text s))
  | .acquire o => return .handle (← InPlace.acquire o)
  | .addRef h => do
    InPlace.addRef h
    return .done
  | .release h => do
    InPlace.release h
    return .done
  | .drain => return .left (← InPlace.drain)

theorem perform_run (r : Request) (t : References) :
    (perform r).run t = InPlace.ofExcept t (t.serve r) := by
  cases r with
  | insertText s =>
      cases hop : t.insertText s <;> rw [insertText] at hop <;>
        simp [perform, serve, insertText, InPlace.allocate_run, hop, InPlace.ofExcept, Except.map]
  | acquire o =>
      cases hop : t.acquire o <;>
        simp [perform, serve, InPlace.acquire_run, hop, InPlace.ofExcept, Except.map]
  | addRef h =>
      cases hop : t.addRef h <;>
        simp [perform, serve, InPlace.addRef_run, hop, InPlace.ofExcept, Except.map]
  | release h =>
      cases hop : t.release h <;>
        simp [perform, serve, InPlace.release_run, hop, InPlace.ofExcept, Except.map]
  | drain => simp [perform, serve, InPlace.drain_run, InPlace.ofExcept]

theorem map_ok {α β : Type} {x : Except Fault α} {g : α → β} {b : β} (hx : x.map g = .ok b) :
    ∃ a, x = .ok a ∧ g a = b := by
  cases x with
  | error f => cases hx
  | ok a => exact ⟨a, rfl, Except.ok.inj hx⟩

-- The table grows only below its capacity, and never changes it.
structure Within (t t' : References) : Prop where
  capacity : t'.capacity = t.capacity
  size : t.slots.size ≤ t.capacity → t'.slots.size ≤ t.capacity

-- What a request that is not refused does, said once for all that follows.
structure Serving (t : References) (r : Request) (a : Answer) (t' : References) : Prop where
  sound : t'.Sound
  within : t.Within t'
  change : ∃ told, t'.hooks.toList = t.hooks.toList ++ told ∧ Change t r a told t'

theorem within_allocate {p : Payload} (ha : t.allocate p = .ok (h, t')) : t.Within t' := by
  unfold allocate at ha
  split at ha
  · obtain ⟨-, rfl⟩ := Prod.mk.inj (Except.ok.inj ha)
    exact ⟨rfl, by simp⟩
  · split at ha
    · rename_i hroom
      obtain ⟨-, rfl⟩ := Prod.mk.inj (Except.ok.inj ha)
      exact ⟨rfl, fun _ => by simpa using hroom⟩
    · cases ha

theorem within_release (hr : t.release h = .ok t') : t.Within t' := by
  unfold release at hr
  split at hr
  · rename_i e he
    split at hr
    · obtain rfl := Except.ok.inj hr
      exact ⟨rfl, by simp⟩
    · obtain rfl := Except.ok.inj hr
      cases hp : e.payload <;> exact ⟨rfl, by simp [vacate]⟩
  · cases hr

theorem serving_acquire (ht : t.Sound) (ha : t.acquire o = .ok (h, t')) :
    Serving t (.acquire o) (.handle h) t' := by
  have hs := (acquire_gains ht ha).sound
  cases hh : t.holders[o]? with
  | some k =>
      rw [acquire_held hh] at ha
      obtain ⟨u, hadd, hu⟩ := map_ok ha
      obtain ⟨rfl, rfl⟩ := Prod.mk.inj hu
      obtain ⟨e, he, rfl⟩ := addRef_eq hadd
      have hp : e.payload = .object o := by
        have hget := (ht.holder o k).mp hh
        simpa [get?, he] using hget
      refine ⟨hs, ⟨rfl, by simp⟩, [], by simp, .again (c := e.count) ?_ fun j => ?_⟩
      · rw [he, ← hp]
      · rw [find?_set (lt_size_of_find? he), hp]
  | none =>
      rw [acquire_unheld hh] at ha
      obtain ⟨⟨k, u⟩, hal, hu⟩ := map_ok ha
      obtain ⟨rfl, rfl⟩ := Prod.mk.inj hu
      obtain ⟨hempty, hfind, -⟩ := allocate_spec ht hal
      have hwithin := within_allocate hal
      refine ⟨hs, ⟨hwithin.capacity, hwithin.size⟩, [.acquired o], by simp [hooks_allocate hal],
        .entered hempty (fun j hj => ?_) hfind⟩
      rw [← ht.holder, hh] at hj
      cases hj

theorem sound_drain (t : References) : t.drain.2.Sound where
  nodup := List.nodup_nil
  free k := by simp [drain]
  positive k e he := by simp [drain, find?] at he
  holder o k := by simp [drain, get?, find?]

theorem serving_of_ok (ht : t.Sound) (hr : t.serve r = .ok (a, t')) : Serving t r a t' := by
  cases r with
  | insertText s =>
      obtain ⟨⟨h, u⟩, hop, hu⟩ := map_ok hr
      obtain ⟨rfl, rfl⟩ := Prod.mk.inj hu
      obtain ⟨hempty, hfind, -⟩ := allocate_spec ht hop
      exact ⟨(insertText_gains ht hop).sound, within_allocate hop, [],
        by simp [hooks_allocate hop], .text hempty hfind⟩
  | acquire o =>
      obtain ⟨⟨h, u⟩, hop, hu⟩ := map_ok hr
      obtain ⟨rfl, rfl⟩ := Prod.mk.inj hu
      exact serving_acquire ht hop
  | addRef h =>
      obtain ⟨u, hop, hu⟩ := map_ok hr
      obtain ⟨rfl, rfl⟩ := Prod.mk.inj hu
      obtain ⟨e, he, rfl⟩ := addRef_eq hop
      exact ⟨sound_addRef ht he, ⟨rfl, by simp⟩, [], by simp,
        .raised he (find?_set (lt_size_of_find? he) _ _ _ _)⟩
  | release h =>
      obtain ⟨u, hop, hu⟩ := map_ok hr
      obtain ⟨rfl, rfl⟩ := Prod.mk.inj hu
      cases he : t.find? h with
      | none => simp [release_empty he] at hop
      | some e =>
          obtain ⟨v, hv, hhooks, hfind⟩ := release_eq he
          obtain rfl := Except.ok.inj (hop.symm.trans hv)
          exact ⟨sound_release ht hop, within_release hop, (partingHooks e).toList,
            by simp [hhooks], .lowered he hfind⟩
  | drain =>
      obtain ⟨rfl, rfl⟩ := Prod.mk.inj (Except.ok.inj hr)
      refine ⟨sound_drain t, ⟨rfl, by simp [drain]⟩, InPlace.farewells t.leftovers, ?_,
        .drained fun k => rfl⟩
      simp only [drain, Array.toList_append]
      rfl

end HostScript.References
