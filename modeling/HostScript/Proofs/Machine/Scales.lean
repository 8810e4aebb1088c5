import HostScript.Proofs.Machine.Tiers

namespace HostScript

-- Whether a fault says that the machine is too small.
def Fault.Cramped (f : Fault) : Prop :=
  f.code ∈ [.stackOverflow, .referenceTableFull, .invalidLocal]

theorem Fault.cramped_overflow (capacity : Nat) : (Fault.stackOverflow capacity).Cramped := by
  simp [Cramped, code]

theorem Fault.cramped_full (capacity : Nat) : (Fault.referencesFull capacity).Cramped := by
  simp [Cramped, code]

theorem Fault.cramped_local (slot : Nat) : (Fault.noSuchLocal slot).Cramped := by
  simp [Cramped, code]

namespace References

variable {t t' : References} {h n : Nat} {p : Payload} {o : ObjectRef}

theorem Leads.sound (hl : t.Leads t') (hs : t.Sound) : t'.Sound := by
  induction hl with
  | refl => exact hs
  | insertText _ hop ih => exact (insertText_gains ih hop).sound
  | addRef _ hop ih =>
      obtain ⟨e, he, rfl⟩ := addRef_eq hop
      exact sound_addRef ih he
  | acquire _ hop ih => exact (acquire_gains ih hop).sound
  | release _ hop ih => exact sound_release ih hop

-- The same table with room for more positions.
def extend (n : Nat) (t : References) : References :=
  { t with capacity := t.capacity + n }

theorem addRef_extend (n : Nat) (t : References) (h : Nat) :
    (t.extend n).addRef h = (t.addRef h).map (extend n) := by
  have hfind : (t.extend n).find? h = t.find? h := rfl
  simp only [addRef, hfind]
  cases t.find? h <;> rfl

theorem release_extend (n : Nat) (t : References) (h : Nat) :
    (t.extend n).release h = (t.release h).map (extend n) := by
  have hfind : (t.extend n).find? h = t.find? h := rfl
  simp only [release, hfind]
  cases t.find? h with
  | none => rfl
  | some e =>
      dsimp only
      split
      · rfl
      · cases hp : e.payload <;> simp only [vacate, Except.map] <;> rfl

-- Positions given back are used first, so that a larger table takes the same ones.
theorem allocate_extend (ha : t.allocate p = .ok (h, t')) :
    (t.extend n).allocate p = .ok (h, t'.extend n) := by
  have hfree : (t.extend n).free = t.free := rfl
  have hslots : (t.extend n).slots = t.slots := rfl
  unfold allocate at ha ⊢
  rw [hfree]
  cases hlist : t.free with
  | cons k rest =>
      simp only [hlist] at ha ⊢
      cases ha
      rfl
  | nil =>
      simp only [hlist] at ha ⊢
      split at ha
      · rename_i hroom
        cases ha
        have hroom' : t.slots.size < (t.extend n).capacity := Nat.lt_add_right n hroom
        rw [hslots, if_pos hroom']
        rfl
      · cases ha

theorem acquire_extend (ha : t.acquire o = .ok (h, t')) :
    (t.extend n).acquire o = .ok (h, t'.extend n) := by
  have hholders : (t.extend n).holders = t.holders := rfl
  unfold acquire at ha ⊢
  rw [hholders]
  cases hheld : t.holders[o]? with
  | some k =>
      simp only [hheld] at ha ⊢
      obtain ⟨u, hadd, hu⟩ := except_bind_ok.mp ha
      cases hu
      rw [addRef_extend, hadd]
      rfl
  | none =>
      simp only [hheld] at ha ⊢
      obtain ⟨⟨k, u⟩, hal, hu⟩ := except_bind_ok.mp ha
      cases hu
      rw [allocate_extend hal]
      rfl

end References

namespace Machine

-- The same machine with so much more room. The additional variables are empty.
def enlarge (more : Limits) (m : Machine) : Machine :=
  { m with
    stackCapacity := m.stackCapacity + more.stack
    locals := m.locals ++ Array.replicate more.locals .null
    refs := m.refs.extend more.references }

variable [HostHooks]

theorem release_enlarge (more : Limits) (c : Cell) :
    Work.Ignores (enlarge more) (Work.release c) := by
  intro m
  have hrefs : (m.enlarge more).refs = m.refs.extend more.references := rfl
  unfold Work.release
  cases c.handle? with
  | none => rfl
  | some h =>
      simp only [Work.Overlooks, Work.onRefs, hrefs, References.release_extend]
      cases m.refs.release h <;> rfl

theorem unseen_enlarge (more : Limits) : Unseen (enlarge more) where
  stack _ := rfl
  world _ := rfl
  printed _ := rfl
  warnings _ := rfl
  payload _ _ := rfl
  setStack _ _ := rfl
  setOutside _ _ _ := rfl
  setWarnings _ _ := rfl
  setReturned _ _ := rfl
  release := release_enlarge more

end Machine

namespace Work

open Machine (enlarge unseen_enlarge)

variable {α β : Type} {more : Limits} {m : Machine}

-- Work that makes the same of a larger machine, or finds this one too small.
def Fits (more : Limits) (x : Work α) (m : Machine) : Prop :=
  Overlooks (enlarge more) x m ∨ ∃ f m', x m = .error f m' ∧ f.Cramped

theorem push_overlooks [HostHooks] {c : Cell} (hroom : m.stack.length < m.stackCapacity) :
    Overlooks (enlarge more) (push c) m := by
  have hroom' : (m.enlarge more).stack.length < (m.enlarge more).stackCapacity :=
    Nat.lt_add_right _ hroom
  simp only [Overlooks, push_eq, if_pos hroom, if_pos hroom']
  rfl

namespace Fits

theorem bind {x : Work α} {f : α → Work β} (hx : Fits more x m)
    (hf : ∀ a m', x m = .ok a m' → Fits more (f a) m') : Fits more (x >>= f) m := by
  rcases hx with hx | ⟨e, m', he, hcramped⟩
  · cases hresult : x m with
    | error e m' => exact .inl (hx.bind fun a m₁ h₁ => by rw [hresult] at h₁; cases h₁)
    | ok a m' =>
        have hdone : (x >>= f) m = f a m' := by simp only [Bind.bind, EStateM.bind, hresult]
        rcases hf a m' hresult with hnext | ⟨e, m₁, he, hcramped⟩
        · refine .inl (hx.bind fun a₁ m₁ h₁ => ?_)
          rw [hresult] at h₁
          cases h₁
          exact hnext
        · exact .inr ⟨e, m₁, hdone.trans he, hcramped⟩
  · exact .inr ⟨e, m', by simp only [Bind.bind, EStateM.bind, he], hcramped⟩

theorem loadLocal (slot : Nat) : Fits more (Work.loadLocal slot) m := by
  by_cases hslot : slot < m.locals.size
  · have hget : (m.enlarge more).locals[slot]? = m.locals[slot]? :=
      Array.getElem?_append_left hslot
    refine .inl ?_
    simp only [Overlooks, Work.loadLocal, hget]
    cases m.locals[slot]? <;> rfl
  · refine .inr ⟨.noSuchLocal slot, m, ?_, Fault.cramped_local slot⟩
    simp [Work.loadLocal, Array.getElem?_eq_none (Nat.le_of_not_lt hslot)]

theorem storeLocal (slot : Nat) (c : Cell) : Fits more (Work.storeLocal slot c) m := by
  refine (loadLocal slot).bind fun old m₁ h₁ => .inl ?_
  have hslot : slot < m₁.locals.size := by
    unfold Work.loadLocal at h₁
    split at h₁
    · rename_i c hc
      cases h₁
      exact (Array.getElem?_eq_some_iff.mp hc).1
    · cases h₁
  have hset : (m₁.locals ++ Array.replicate more.locals Cell.null).setIfInBounds slot c =
      m₁.locals.setIfInBounds slot c ++ Array.replicate more.locals .null :=
    Array.setIfInBounds_append_left hslot
  simp only [Overlooks, modify, modifyGet, MonadStateOf.modifyGet, EStateM.modifyGet, Bind.bind,
    EStateM.bind, enlarge, hset]
  rfl

variable [HostHooks]

theorem push_full {c : Cell} {m' : Machine} (hroom : ¬ m.stack.length < m.stackCapacity)
    (hgiven : Work.release c m = .ok () m') : Fits more (Work.push c) m := by
  refine .inr ⟨.stackOverflow m.stackCapacity, m', ?_, Fault.cramped_overflow _⟩
  rw [push_eq, if_neg hroom]
  simp only [Bind.bind, EStateM.bind, hgiven]
  rfl

-- A full stack refuses what it is given, which is noticed if that can be given back.
theorem push {c : Cell} (hc : ∀ h, c.handle? = some h → m.refs.uses h ≠ 0) :
    Fits more (Work.push c) m := by
  by_cases hroom : m.stack.length < m.stackCapacity
  · exact .inl (push_overlooks hroom)
  · have hgiven : ∃ m', Work.release c m = .ok () m' := by
      unfold Work.release
      cases hh : c.handle? with
      | none => exact ⟨m, rfl⟩
      | some h =>
          obtain ⟨t, hrelease, -⟩ := References.release_counted (hc h hh)
          exact ⟨_, by simp [onRefs, hrelease, Bind.bind, Except.bind, Pure.pure, Except.pure]; rfl⟩
    obtain ⟨m', hgiven⟩ := hgiven
    exact push_full hroom hgiven

end Fits

-- Work that fits wherever the reference table is in order, and leaves it so.
def Scales (more : Limits) (x : Work α) : Prop :=
  ∀ m, m.refs.Sound → Fits more x m ∧ ∀ a m', x m = .ok a m' → m'.refs.Sound

namespace Scales

theorem bind {x : Work α} {f : α → Work β} (hx : Scales more x) (hf : ∀ a, Scales more (f a)) :
    Scales more (x >>= f) := by
  intro m hs
  obtain ⟨hfits, hsound⟩ := hx m hs
  refine ⟨hfits.bind fun a m₁ h₁ => (hf a m₁ (hsound a m₁ h₁)).1, fun b m₂ h₂ => ?_⟩
  simp only [Bind.bind, EStateM.bind] at h₂
  cases hresult : x m with
  | ok a m₁ =>
      rw [hresult] at h₂
      exact (hf a m₁ (hsound a m₁ hresult)).2 b m₂ h₂
  | error e m₁ =>
      rw [hresult] at h₂
      cases h₂

theorem of_ignores {x : Work α} (hx : Ignores (enlarge more) x)
    (hrefs : ∀ m, Upholds (fun _ _ => True) (fun _ m' => m'.refs = m.refs) (x m)) :
    Scales more x := by
  refine fun m hs => ⟨.inl (hx m), fun a m' h => ?_⟩
  have hsame := hrefs m
  rw [h] at hsame
  exact hsame ▸ hs

theorem of_calm {x : Work α} (hx : Ignores (enlarge more) x ∧ x.Calm) : Scales more x := by
  refine fun m hs => ⟨.inl (hx.1 m), fun a m' h => ?_⟩
  have hstill := hx.2 m
  rw [h] at hstill
  exact hstill.refs.sound hs

theorem attempt {x : Work α} (hx : Ignores (enlarge more) x ∧ x.Calm) :
    Scales more (Work.attempt x) := by
  refine fun m hs => ⟨.inl (hx.1.attempt m), fun a m' h => ?_⟩
  have hstill := hx.2 m
  unfold Work.attempt at h
  cases hresult : x m with
  | ok b m₁ =>
      rw [hresult] at h hstill
      cases h
      exact hstill.refs.sound hs
  | error f m₁ =>
      rw [hresult] at h hstill
      cases h
      exact hstill.1.refs.sound hs

theorem pure (a : α) : Scales more (Pure.pure a : Work α) :=
  of_ignores (.pure a) fun _ => rfl

theorem throw (f : Fault) : Scales more (MonadExcept.throw f : Work α) :=
  of_ignores (.throw f) fun _ => trivial

theorem settle (result : Except Fault α) : Scales more (Work.settle result) := by
  cases result with
  | ok a => exact pure a
  | error f => exact throw f

theorem loadLocal (slot : Nat) : Scales more (Work.loadLocal slot) := by
  refine fun m hs => ⟨.loadLocal slot, fun c m' h => ?_⟩
  rw [loadLocal_ok h]
  exact hs

theorem storeLocal (slot : Nat) (c : Cell) : Scales more (Work.storeLocal slot c) := by
  refine fun m hs => ⟨.storeLocal slot c, fun old m' h => ?_⟩
  simp only [Work.storeLocal, Bind.bind, EStateM.bind] at h
  cases hload : Work.loadLocal slot m with
  | error f m₁ =>
      rw [hload] at h
      cases h
  | ok old₁ m₁ =>
      rw [hload] at h
      cases h
      exact (loadLocal_ok hload) ▸ hs

variable [HostHooks]

theorem takes : Takes (fun {α} (x : Work α) => Ignores (enlarge more) x ∧ x.Calm) (Scales more) where
  pure := pure
  throw _ := throw _
  bind := bind
  reads := (unseen_enlarge more).reads.and Calm.reads
  of_reads := of_calm
  attempt hx hf := (attempt hx).bind fun outcome => hf outcome (settle outcome)
  missing _ := throw _
  pop := by
    refine of_ignores (unseen_enlarge more).pop fun m => ?_
    unfold Work.pop
    cases m.stack with
    | nil => exact trivial
    | cons c rest => exact rfl
  popMany count := by
    refine of_ignores ((unseen_enlarge more).popMany count) fun m => ?_
    unfold Work.popMany
    split
    · exact rfl
    · exact trivial
  peek depth := by
    refine of_ignores ((unseen_enlarge more).peek depth) fun m => ?_
    unfold Work.peek
    cases m.stack[depth]? with
    | none => exact trivial
    | some c => exact rfl

theorem refs_push {c : Cell} (m : Machine) :
    Upholds (fun _ _ => True) (fun _ m' => m'.refs = m.refs) (Work.push c m) := by
  rw [push_eq]
  split
  · exact rfl
  · simp only [Bind.bind, EStateM.bind]
    cases Work.release c m <;> exact trivial

theorem push {c : Cell} (hc : c.handle? = none) : Scales more (Work.push c) := by
  refine fun m hs => ⟨.push fun h hh => ?_, fun a m' h => ?_⟩
  · rw [hc] at hh
    cases hh
  · have hrefs := refs_push (c := c) m
    rw [h] at hrefs
    exact hrefs ▸ hs

-- Something new gets the same position in a larger table, and can be given back.
theorem gain {f : References → Except Fault (Nat × References)} {p : Payload} {place : Nat → Cell}
    (hplace : ∀ h, (place h).handle? = some h)
    (hextend : ∀ {t t' : References} {h : Nat}, f t = .ok (h, t') →
      f (t.extend more.references) = .ok (h, t'.extend more.references))
    (hgains : ∀ {t t' : References} {h : Nat}, t.Sound → f t = .ok (h, t') → t.Gains h p t')
    (herror : ∀ {t : References} {e : Fault}, t.Sound → f t = .error e → e.Cramped) :
    Scales more (Work.onRefs f) ∧ Scales more (do Work.push (place (← Work.onRefs f))) := by
  have hrefs : ∀ m : Machine, (m.enlarge more).refs = m.refs.extend more.references := fun _ => rfl
  have hfits : ∀ m : Machine, m.refs.Sound → Fits more (Work.onRefs f) m := by
    intro m hs
    cases hresult : f m.refs with
    | error e => exact .inr ⟨e, m, by simp only [Work.onRefs, hresult], herror hs hresult⟩
    | ok r =>
        refine .inl ?_
        simp only [Overlooks, Work.onRefs, hrefs, hextend hresult, hresult]
        rfl
  have hok : ∀ {m m' : Machine} {h : Nat}, m.refs.Sound → Work.onRefs f m = .ok h m' →
      m.refs.Gains h p m'.refs := by
    intro m m' h hs hresult
    unfold Work.onRefs at hresult
    split at hresult
    · rename_i a t hf
      cases hresult
      exact hgains hs hf
    · cases hresult
  refine ⟨fun m hs => ⟨hfits m hs, fun h m' hresult => (hok hs hresult).sound⟩,
    fun m hs => ⟨(hfits m hs).bind fun h m₁ h₁ => .push fun k hk => ?_, fun u m₂ h₂ => ?_⟩⟩
  · rw [hplace, Option.some.injEq] at hk
    rw [(hok hs h₁).uses, if_pos hk.symm]
    exact Nat.succ_ne_zero _
  · simp only [Bind.bind, EStateM.bind] at h₂
    cases hresult : Work.onRefs f m with
    | error e m₁ =>
        rw [hresult] at h₂
        cases h₂
    | ok h m₁ =>
        rw [hresult] at h₂
        have hpush := refs_push (c := place h) m₁
        simp only [h₂] at hpush
        exact hpush ▸ (hok hs hresult).sound

theorem insertText (s : String) : Scales more (Work.onRefs (·.insertText s)) ∧
    Scales more (do Work.push (.text (← Work.onRefs (·.insertText s)))) :=
  gain (fun _ => rfl) References.allocate_extend (fun hs ha => References.insertText_gains hs ha)
    fun _ he => (References.allocate_error he).1 ▸ Fault.cramped_full _

theorem acquire (o : ObjectRef) : Scales more (Work.onRefs (·.acquire o)) ∧
    Scales more (do Work.push (.object (← Work.onRefs (·.acquire o)))) :=
  gain (fun _ => rfl) References.acquire_extend References.acquire_gains
    fun hs he => (References.acquire_error hs he).1 ▸ Fault.cramped_full _

theorem ofValue (v : Value) : Scales more (Work.ofValue v) := by
  cases v with
  | text s => exact (insertText s).1.bind fun h => pure _
  | object o => exact (acquire o).1.bind fun h => pure _
  | _ => exact pure _

theorem calculates :
    Calculates (fun {α} (x : Work α) => Ignores (enlarge more) x ∧ x.Calm) (Scales more) where
  toTakes := takes
  push := push
  pushValue v := by
    cases v with
    | text s =>
        simp only [Work.ofValue, bind_assoc, pure_bind]
        exact (insertText s).2
    | object o =>
        simp only [Work.ofValue, bind_assoc, pure_bind]
        exact (acquire o).2
    | _ => exact push rfl

end Scales

end Work

end HostScript
