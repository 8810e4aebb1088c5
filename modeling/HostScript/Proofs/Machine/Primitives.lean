import HostScript.Proofs.Machine.Shows

namespace HostScript

-- Why a machine of this size could not go on: its stack or its reference table is too small. A full
-- table has all its positions held by the stack, the variables and at most two values at hand.
def Machine.Exhausted (m : Machine) : Fault → Prop
  | .stackOverflow _ => m.stackCapacity ≤ m.stack.length
  | .referencesFull _ => m.refs.capacity ≤ m.stack.length + m.locals.size + 2
  | _ => False

namespace Machine.Shows

variable {pending : List Cell} {values : List Value} {m : Machine} {v : View} {c d : Cell}
  {x y : Value}

theorem rotate (cells : List Cell) (xs : List Value) (hlen : cells.length = xs.length)
    (hs : Shows (c :: (cells ++ pending)) (x :: (xs ++ values)) m v) :
    Shows (cells ++ c :: pending) (xs ++ x :: values) m v := by
  have hp := hs.pending
  simp only [List.map_cons, List.map_append, List.cons.injEq] at hp
  obtain ⟨hc, happ⟩ := hp
  obtain ⟨hcells, hpend⟩ := List.append_inj happ (by simpa using hlen)
  refine { hs with
    counted := fun k => ?_
    pending := by simp [hcells, hc, hpend] }
  have hk := hs.counted k
  simp only [Cell.occurrences_cons, Cell.occurrences_append] at hk ⊢
  omega

theorem outside (hs : Shows pending values m v) (o : Outside) :
    Shows pending values { m with world := o.world, printed := o.printed } (v.withOutside o) :=
  { hs with
    world := rfl
    printed := rfl }

theorem jump (hs : Shows pending values m v) (pc : Nat) :
    Shows pending values { m with pc } { v with pc } :=
  { hs with pc := rfl }

theorem release (hs : Shows (c :: pending) (x :: values) m v) :
    ∃ m', Work.release c m = .ok () m' ∧ Shows pending values m' v := by
  unfold Work.release
  cases hc : c.handle? with
  | none => exact ⟨m, rfl, hs.forget hc⟩
  | some h =>
      obtain ⟨t, ht, hl⟩ := References.release_loses hs.sound (hs.uses_ne_zero hc)
      refine ⟨{ m with refs := t }, ?_, hs.lose hl hc⟩
      simp [Work.onRefs, ht, bind, Except.bind, pure, Except.pure]

theorem releaseAll {cells : List Cell} {xs : List Value} (hlen : cells.length = xs.length)
    (hs : Shows (cells ++ pending) (xs ++ values) m v) :
    ∃ m', Work.releaseAll cells m = .ok () m' ∧ Shows pending values m' v := by
  induction cells generalizing xs m with
  | nil =>
      obtain rfl := List.length_eq_zero_iff.mp hlen.symm
      exact ⟨m, rfl, hs⟩
  | cons c cells ih =>
      cases xs with
      | nil => simp at hlen
      | cons x xs =>
          obtain ⟨m₁, h₁, hs₁⟩ := hs.release
          obtain ⟨m₂, h₂, hs₂⟩ := ih (by simpa using hlen) hs₁
          refine ⟨m₂, ?_, hs₂⟩
          simp [Work.releaseAll, bind, EStateM.bind, h₁, h₂]

theorem push (hs : Shows (c :: pending) (x :: values) m v) :
    (∃ m', Work.push c m = .ok () m' ∧
      Shows pending values m' { v with stack := x :: v.stack }) ∨
    ∃ f m', Work.push c m = .error f m' ∧ m'.Exhausted f ∧ Shows pending values m' v := by
  by_cases hroom : m.stack.length < m.stackCapacity
  · refine .inl ⟨{ m with stack := c :: m.stack }, ?_, { hs with
      counted := fun k => ?_
      pending := (List.cons.inj hs.pending).2
      stack := ?_ }⟩
    · simp [Work.push, bind, EStateM.bind, get, getThe, MonadStateOf.get, EStateM.get, hroom, set,
        EStateM.set]
    · have hk := hs.counted k
      simp only [Cell.occurrences_cons] at hk ⊢
      omega
    · rw [List.map_cons, List.map_cons, hs.value, hs.stack]
  · obtain ⟨m', h', hs'⟩ := hs.release
    refine .inr ⟨.stackOverflow m.stackCapacity, m', ?_, ?_, hs'⟩
    · simp [Work.push, bind, EStateM.bind, get, getThe, MonadStateOf.get, EStateM.get, hroom, h',
        throw, throwThe, MonadExceptOf.throw, EStateM.throw]
    · rw [Exhausted, hs'.stackCapacity, hs'.stack_length, ← hs.stackCapacity, ← hs.stack_length]
      omega

theorem pop_nil (hs : Shows pending values m v) (hv : v.stack = []) :
    Work.pop m = .error .stackUnderflow m := by
  have hm : m.stack = [] := by
    have := hs.stack_length
    rw [hv] at this
    exact List.length_eq_zero_iff.mp this
  simp [Work.pop, hm]

theorem pop_cons (hs : Shows pending values m v) {rest : List Value} (hv : v.stack = x :: rest) :
    ∃ c m', Work.pop m = .ok c m' ∧
      Shows (c :: pending) (x :: values) m' { v with stack := rest } := by
  have hstack := hs.stack
  rw [hv] at hstack
  cases hm : m.stack with
  | nil => simp [hm] at hstack
  | cons c cells =>
      simp only [hm, List.map_cons, List.cons.injEq] at hstack
      refine ⟨c, { m with stack := cells }, by simp [Work.pop, hm], { hs with
        counted := fun k => ?_
        pending := ?_
        stack := hstack.2 }⟩
      · have hk := hs.counted k
        simp only [hm, Cell.occurrences_cons] at hk ⊢
        omega
      · rw [List.map_cons, List.map_cons, hstack.1, hs.pending]

theorem popMany_ok (hs : Shows pending values m v) {count : Nat} (hc : count ≤ v.stack.length) :
    ∃ cells m', Work.popMany count m = .ok cells m' ∧ cells.length = count ∧
      Shows (cells ++ pending) ((v.stack.take count).reverse ++ values) m'
        { v with stack := v.stack.drop count } := by
  have hm : count ≤ m.stack.length := by rw [hs.stack_length]; exact hc
  refine ⟨(m.stack.take count).reverse, { m with stack := m.stack.drop count },
    by simp [Work.popMany, hm], by simp [hm], { hs with
      counted := fun k => ?_
      pending := ?_
      stack := ?_ }⟩
  · have hk := hs.counted k
    have hsplit := Cell.occurrences_take_drop k count m.stack
    simp only [Cell.occurrences_append, Cell.occurrences_reverse]
    omega
  · simp only [List.map_append, List.map_reverse, List.map_take, hs.stack, hs.pending]
  · simp only [List.map_drop, hs.stack]

theorem popMany_error (hs : Shows pending values m v) {count : Nat}
    (hc : ¬count ≤ v.stack.length) : Work.popMany count m = .error .stackUnderflow m := by
  have hm : ¬count ≤ m.stack.length := by rw [hs.stack_length]; exact hc
  simp [Work.popMany, hm]

-- The cell at a depth of the stack, and the one of a variable, have the values that are shown.
theorem peek (hs : Shows pending values m v) (depth : Nat) :
    (v.stack[depth]? = none ∧ Work.peek depth m = .error .stackUnderflow m) ∨
    ∃ c x, v.stack[depth]? = some x ∧ Work.peek depth m = .ok c m ∧
      m.refs.value? c = some x := by
  have hmap := congrArg (·[depth]?) hs.stack
  simp only [List.getElem?_map] at hmap
  cases hm : m.stack[depth]? with
  | none =>
      rw [hm] at hmap
      exact .inl ⟨by simpa using hmap.symm, by simp [Work.peek, hm]⟩
  | some c =>
      rw [hm] at hmap
      cases hv : v.stack[depth]? with
      | none => simp [hv] at hmap
      | some x =>
          rw [hv] at hmap
          exact .inr ⟨c, x, rfl, by simp [Work.peek, hm], by simpa using hmap⟩

theorem getLocal (hs : Shows pending values m v) (slot : Nat) :
    (v.locals[slot]? = none ∧ m.locals[slot]? = none) ∨
    ∃ c x, v.locals[slot]? = some x ∧ m.locals[slot]? = some c ∧ m.refs.value? c = some x := by
  have hmap := congrArg (·[slot]?) hs.locals
  simp only [List.getElem?_map, Array.getElem?_toList] at hmap
  cases hm : m.locals[slot]? with
  | none =>
      rw [hm] at hmap
      exact .inl ⟨by simpa using hmap.symm, rfl⟩
  | some c =>
      rw [hm] at hmap
      cases hv : v.locals[slot]? with
      | none => simp [hv] at hmap
      | some x =>
          rw [hv] at hmap
          exact .inr ⟨c, x, rfl, rfl, by simpa using hmap⟩

-- A pending cell is exchanged for the one of a variable.
theorem setLocal (hs : Shows (c :: pending) (x :: values) m v) {slot : Nat}
    (hd : m.locals[slot]? = some d) (hy : m.refs.value? d = some y) :
    Shows (d :: pending) (y :: values) { m with locals := m.locals.setIfInBounds slot c }
      { v with locals := v.locals.setIfInBounds slot x } := by
  have hlist : m.locals.toList[slot]? = some d := by simpa using hd
  refine { hs with
    counted := fun k => ?_
    pending := ?_
    locals := ?_ }
  · have hk := hs.counted k
    have hset := Cell.occurrences_set k hlist c
    simp only [Cell.occurrences_cons, Array.toList_setIfInBounds] at hk ⊢
    omega
  · rw [List.map_cons, List.map_cons, hy, (List.cons.inj hs.pending).2]
  · simp only [Array.toList_setIfInBounds, List.map_set, hs.locals, hs.value]

end Machine.Shows

namespace Work

variable {m : Machine} {c : Cell} {x : Value}

theorem toValue_eq (hx : m.refs.value? c = some x) : toValue c m = .ok x m := by
  cases c with
  | null => cases hx; rfl
  | number y => cases hx; rfl
  | bool b => cases hx; rfl
  | text h =>
      simp only [References.value?] at hx
      split at hx <;> cases hx
      rename_i hg
      simp [toValue, bind, EStateM.bind, readRefs, References.text, hg, pure, EStateM.pure]
  | object h =>
      simp only [References.value?] at hx
      split at hx <;> cases hx
      rename_i hg
      simp [toValue, bind, EStateM.bind, readRefs, References.object, hg, pure, EStateM.pure]

theorem toValues_eq {cells : List Cell} {xs : List Value}
    (hx : cells.map m.refs.value? = xs.map some) : toValues cells m = .ok xs m := by
  induction cells generalizing xs with
  | nil =>
      cases xs with
      | nil => rfl
      | cons x xs => simp at hx
  | cons c cells ih =>
      cases xs with
      | nil => simp at hx
      | cons x xs =>
          simp only [List.map_cons, List.cons.injEq] at hx
          simp [toValues, bind, EStateM.bind, toValue_eq hx.1, ih hx.2, pure, EStateM.pure]

theorem typeOf_eq (r : Registry) (hx : m.refs.value? c = some x) :
    typeOf r c m = .ok (r.typeOf x) m := by
  cases c with
  | null => cases hx; rfl
  | number y => cases hx; rfl
  | bool b => cases hx; rfl
  | text h =>
      simp only [References.value?] at hx
      split at hx <;> cases hx
      rfl
  | object h =>
      simp only [References.value?] at hx
      split at hx <;> cases hx
      rename_i hg
      simp [typeOf, bind, EStateM.bind, get, getThe, MonadStateOf.get, EStateM.get, hg, pure,
        EStateM.pure]

theorem display_eq (hx : m.refs.value? c = some x) :
    display c m = .ok (m.world.display x) m := by
  simp [display, bind, EStateM.bind, toValue_eq hx, get, getThe, MonadStateOf.get, EStateM.get,
    pure, EStateM.pure]

-- A calculation made by the machine. It does not touch stack, variables and references.
def ofCalc {α : Type} (k : Calc α) : Work α := fun m =>
  match k ⟨m.world, m.printed⟩ with
  | .ok a o => .ok a { m with world := o.world, printed := o.printed }
  | .error f o => .error f { m with world := o.world, printed := o.printed }

-- The second part of a calculation finds the references as the first one left them.
theorem ofCalc_bind {α β : Type} {w : Work α} {k : Calc α} {w' : α → Work β} {k' : α → Calc β}
    (hw : w m = ofCalc k m)
    (hw' : ∀ a m', m'.refs = m.refs → w' a m' = ofCalc (k' a) m') :
    (w >>= w') m = ofCalc (k >>= k') m := by
  simp only [bind, EStateM.bind, hw, ofCalc]
  cases k ⟨m.world, m.printed⟩ with
  | ok a o => exact hw' a _ rfl
  | error f o => rfl

theorem host_eq {α : Type} (f : HostM α) : host f m = ofCalc (Calc.host f) m := by
  unfold host ofCalc Calc.host
  cases hr : (f m.world).result <;> simp [hr]

theorem objectOf_eq (member : String) (hx : m.refs.value? c = some x) :
    objectOf member c m = ofCalc (Calc.receiver member x) m := by
  cases c with
  | null => cases hx; rfl
  | number y => cases hx; rfl
  | bool b => cases hx; rfl
  | text h =>
      simp only [References.value?] at hx
      split at hx <;> cases hx
      rfl
  | object h =>
      simp only [References.value?] at hx
      split at hx <;> cases hx
      rename_i hg
      simp [objectOf, readRefs, References.object, hg, ofCalc, Calc.receiver, pure, EStateM.pure]

end Work

namespace Machine.Shows

variable {pending : List Cell} {values : List Value} {m : Machine} {v : View}

-- A full table is no larger than what holds on to it.
theorem full_le (hs : Shows pending values m v) {f : Fault} (hp : pending.length ≤ 2)
    (hf : f = .referencesFull m.refs.capacity ∧ m.refs.free = [] ∧
      m.refs.capacity ≤ m.refs.slots.size) : m.Exhausted f := by
  obtain ⟨rfl, hfree, hcap⟩ := hf
  have hsize := hs.size_le hfree
  simp only [Exhausted]
  omega

theorem insertText (hs : Shows pending values m v) (hp : pending.length ≤ 2) (s : String) :
    (∃ h m', Work.onRefs (·.insertText s) m = .ok h m' ∧
      Shows (.text h :: pending) (.text s :: values) m' v) ∨
    ∃ f, Work.onRefs (·.insertText s) m = .error f m ∧ m.Exhausted f := by
  cases hi : m.refs.insertText s with
  | error f => exact .inr ⟨f, by simp [Work.onRefs, hi], hs.full_le hp (References.allocate_error hi)⟩
  | ok r =>
      obtain ⟨h, t⟩ := r
      have hg := References.insertText_gains hs.sound hi
      refine .inl ⟨h, { m with refs := t }, by simp [Work.onRefs, hi], hs.gain hg rfl ?_⟩
      simp [References.value?, hg.payload]

theorem acquire (hs : Shows pending values m v) (hp : pending.length ≤ 2) (o : ObjectRef) :
    (∃ h m', Work.onRefs (·.acquire o) m = .ok h m' ∧
      Shows (.object h :: pending) (.object o :: values) m' v) ∨
    ∃ f, Work.onRefs (·.acquire o) m = .error f m ∧ m.Exhausted f := by
  cases hi : m.refs.acquire o with
  | error f =>
      exact .inr ⟨f, by simp [Work.onRefs, hi],
        hs.full_le hp (References.acquire_error hs.sound hi)⟩
  | ok r =>
      obtain ⟨h, t⟩ := r
      have hg := References.acquire_gains hs.sound hi
      refine .inl ⟨h, { m with refs := t }, by simp [Work.onRefs, hi], hs.gain hg rfl ?_⟩
      simp [References.value?, hg.payload]

theorem ofValue (hs : Shows pending values m v) (hp : pending.length ≤ 2) (x : Value) :
    (∃ c m', Work.ofValue x m = .ok c m' ∧ Shows (c :: pending) (x :: values) m' v) ∨
    ∃ f, Work.ofValue x m = .error f m ∧ m.Exhausted f := by
  cases x with
  | null => exact .inl ⟨.null, m, rfl, hs.bring rfl rfl⟩
  | number y => exact .inl ⟨.number y, m, rfl, hs.bring rfl rfl⟩
  | bool b => exact .inl ⟨.bool b, m, rfl, hs.bring rfl rfl⟩
  | text s =>
      rcases hs.insertText hp s with ⟨h, m', hi, hs'⟩ | ⟨f, hi, hf⟩
      · exact .inl ⟨.text h, m', by simp [Work.ofValue, bind, EStateM.bind, hi, pure, EStateM.pure],
          hs'⟩
      · exact .inr ⟨f, by simp [Work.ofValue, bind, EStateM.bind, hi], hf⟩
  | object o =>
      rcases hs.acquire hp o with ⟨h, m', hi, hs'⟩ | ⟨f, hi, hf⟩
      · exact .inl ⟨.object h, m', by simp [Work.ofValue, bind, EStateM.bind, hi, pure,
          EStateM.pure], hs'⟩
      · exact .inr ⟨f, by simp [Work.ofValue, bind, EStateM.bind, hi], hf⟩

end Machine.Shows

end HostScript
