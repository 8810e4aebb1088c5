import HostScript.Proofs.Typing.Settled

namespace HostScript

-- A call that is left to the run and has more arguments than can be counted in its operand.
def Expr.Sprawls : Expr → Prop
  | .member _ _ _ args .dynamic => 65535 < args.length
  | _ => False

-- A type that values have to have: of a parameter or of a property.
def Registry.Asks (r : Registry) (ty : Ty) : Prop :=
  (∃ m ∈ r.methods, ty ∈ m.params) ∨ (∃ c ∈ r.constructors, ty ∈ c.params) ∨
    ∃ p ∈ r.properties, p.ty = ty

namespace Registry

variable {r : Registry}

theorem asks_method (id : Nat) : ∀ ty ∈ (r.methods[id]?.map (·.params)).getD [], r.Asks ty := by
  intro ty hty
  cases hm : r.methods[id]? with
  | none => simp [hm] at hty
  | some m => exact .inl ⟨m, Array.mem_of_getElem? hm, by simpa [hm] using hty⟩

theorem asks_constructor (id : Nat) :
    ∀ ty ∈ (r.constructors[id]?.map (·.params)).getD [], r.Asks ty := by
  intro ty hty
  cases hc : r.constructors[id]? with
  | none => simp [hc] at hty
  | some c => exact .inr (.inl ⟨c, Array.mem_of_getElem? hc, by simpa [hc] using hty⟩)

-- A property that is not there may be anything.
theorem asks_property (id k : Nat)
    (h : (r.properties[id]?.map (·.ty)).getD .dynamic = .object k) : r.Asks (.object k) := by
  cases hp : r.properties[id]? with
  | none => simp [hp] at h
  | some p => exact .inr (.inr ⟨p, Array.mem_of_getElem? hp, by simpa [hp] using h⟩)

end Registry

namespace Emitter

variable {around : List LoopLabels} {w b : List Nat} {xs : List String} {e e' : Emitter} {l : Nat}

def Bound (e : Emitter) (l : Nat) : Prop :=
  ∃ position, e.writer.labels[l]? = some (some position)

-- Code inside the loops of `around` that may wait for the labels in `w`. Those in `b` have their
-- place, and the variables in `xs` have slots.
structure Owes (around : List LoopLabels) (w b : List Nat) (xs : List String) (e : Emitter) :
    Prop where
  loops : e.loops = around
  waiting : ∀ l ∈ w, l < e.writer.labels.size
  bound : ∀ l ∈ b, e.Bound l
  patches : ∀ p ∈ e.writer.patches.toList, e.Bound p.2 ∨ p.2 ∈ w
  names : xs ⊆ e.slots

namespace Owes

theorem of_same (h : Owes around w b xs e) (hloops : e'.loops = e.loops)
    (hlabels : e'.writer.labels = e.writer.labels) (hpatches : e'.writer.patches = e.writer.patches)
    (hslots : e.slots ⊆ e'.slots) : Owes around w b xs e' where
  loops := hloops.trans h.loops
  waiting := by
    rw [hlabels]
    exact h.waiting
  bound := by
    unfold Bound
    rw [hlabels]
    exact h.bound
  patches := by
    unfold Bound
    rw [hlabels, hpatches]
    exact h.patches
  names := List.Subset.trans h.names hslots

theorem newLabel (h : Owes around w b xs e) :
    Owes around (e.writer.labels.size :: w) b xs
      { e with writer := e.writer.newLabel.2 } := by
  have hkept : ∀ l, e.Bound l → Bound { e with writer := e.writer.newLabel.2 } l := by
    rintro l ⟨position, hl⟩
    obtain ⟨hlt, -⟩ := Array.getElem?_eq_some_iff.mp hl
    exact ⟨position, by simpa only [Writer.newLabel, Array.getElem?_push_lt hlt,
      Array.getElem?_eq_getElem hlt] using hl⟩
  exact
    { loops := h.loops
      waiting := fun l hl => by
        simp only [Writer.newLabel, Array.size_push]
        rcases List.mem_cons.mp hl with rfl | hl
        · omega
        · exact Nat.lt_succ_of_lt (h.waiting l hl)
      bound := fun l hl => hkept l (h.bound l hl)
      patches := fun p hp => (h.patches p hp).imp (hkept p.2) (List.mem_cons_of_mem _)
      names := h.names }

theorem mark (h : Owes around w b xs e) (hl : l ∈ w) :
    Owes around w (l :: b) xs { e with writer := e.writer.mark l } := by
  have hsize := h.waiting l hl
  have hself : Bound { e with writer := e.writer.mark l } l :=
    ⟨e.writer.position, by simp [Writer.mark, hsize]⟩
  have hkept : ∀ k, e.Bound k → Bound { e with writer := e.writer.mark l } k := by
    rintro k ⟨position, hk⟩
    by_cases heq : l = k
    · subst heq
      exact hself
    · exact ⟨position, by simpa only [Writer.mark, Array.getElem?_setIfInBounds_ne heq] using hk⟩
  exact
    { loops := h.loops
      waiting := fun k hk => by
        simpa only [Writer.mark, Array.size_setIfInBounds] using h.waiting k hk
      bound := fun k hk => by
        rcases List.mem_cons.mp hk with rfl | hk
        · exact hself
        · exact hkept k (h.bound k hk)
      patches := fun p hp => (h.patches p hp).imp_left (hkept p.2)
      names := h.names }

theorem emitJump (h : Owes around w b xs e) (o : Opcode)
    (hl : l ∈ w ∨ l ∈ b) :
    Owes around w b xs { e with writer := e.writer.emitJump o l } where
  loops := h.loops
  waiting := h.waiting
  bound := h.bound
  patches := fun p hp => by
    simp only [Writer.emitJump, Array.toList_push, List.mem_append, List.mem_singleton] at hp
    rcases hp with hp | rfl
    · exact h.patches p hp
    · exact hl.symm.imp_left (h.bound l)
  names := h.names

-- A label that has its place is not waited for.
theorem settle {w' b' : List Nat} (h : Owes around w b xs e) (hless : ∀ l ∈ w', l ∈ w)
    (hrest : ∀ l ∈ w, l ∈ w' ∨ l ∈ b) (hforget : ∀ l ∈ b', l ∈ b) : Owes around w' b' xs e where
  loops := h.loops
  waiting := fun l hl => h.waiting l (hless l hl)
  bound := fun l hl => h.bound l (hforget l hl)
  patches := fun p hp => by
    rcases h.patches p hp with hbound | hwaiting
    · exact .inl hbound
    · exact (hrest p.2 hwaiting).symm.imp_left (h.bound p.2)
  names := h.names

theorem enter (h : Owes around w b xs e) (labels : LoopLabels) :
    Owes (labels :: around) w b xs { e with loops := labels :: e.loops } :=
  ⟨congrArg (labels :: ·) h.loops, h.waiting, h.bound, h.patches, h.names⟩

theorem exit {labels : LoopLabels} (h : Owes (labels :: around) w b xs e) :
    Owes around w b xs { e with loops := e.loops.tail } :=
  ⟨congrArg List.tail h.loops, h.waiting, h.bound, h.patches, h.names⟩

end Owes

-- A loop can be left early from here.
def Exits (around : List LoopLabels) (w : List Nat) : Prop :=
  ∃ labels rest, around = labels :: rest ∧ labels.leave ∈ w ∧ labels.again ∈ w

theorem Exits.more {w' : List Nat} (h : Exits around w) (hmore : ∀ l ∈ w, l ∈ w') :
    Exits around w' := by
  obtain ⟨labels, rest, haround, hleave, hagain⟩ := h
  exact ⟨labels, rest, haround, hmore _ hleave, hmore _ hagain⟩

end Emitter

namespace Emit

open Emitter (Owes)

variable {α β : Type} {Ok : Diagnostic.Problem → Prop} {I : Emitter → Prop}
  {Q : α → Emitter → Prop} {R : β → Emitter → Prop}

-- Work that leads from `I` to `Q`, unless it fails as `Ok` says.
def Fares (Ok : Diagnostic.Problem → Prop) (I : Emitter → Prop) (Q : α → Emitter → Prop)
    (x : Emit α) : Prop :=
  ∀ e, I e → (∀ a e', x e = .ok (a, e') → Q a e') ∧ ∀ d, x e = .error d → Ok d.problem

abbrev Keeps (Ok : Diagnostic.Problem → Prop) (I : Emitter → Prop) (x : Emit α) : Prop :=
  Fares Ok I (fun _ => I) x

namespace Fares

theorem bind {x : Emit α} {f : α → Emit β} (hx : Fares Ok I Q x)
    (hf : ∀ a, Fares Ok (Q a) R (f a)) : Fares Ok I R (x >>= f) := by
  intro e he
  obtain ⟨hgood, hbad⟩ := hx e he
  constructor
  · intro b e' h
    obtain ⟨a, e₁, h₁, h₂⟩ := bind_ok.mp h
    exact (hf a e₁ (hgood a e₁ h₁)).1 b e' h₂
  · intro d h
    cases hrun : x e with
    | error d' =>
        have hd : (x >>= f) e = .error d' := by
          simp only [Bind.bind, StateT.bind, hrun, Except.bind]
        cases hd.symm.trans h
        exact hbad _ hrun
    | ok result =>
        have hd : (x >>= f) e = f result.1 result.2 := by
          simp only [Bind.bind, StateT.bind, hrun, Except.bind]
        exact (hf result.1 result.2 (hgood _ _ hrun)).2 d (hd.symm.trans h)

theorem pure {a : α} (h : ∀ e, I e → Q a e) : Fares Ok I Q (Pure.pure a : Emit α) := by
  intro e he
  constructor
  · intro b e' hrun
    cases pure_ok.mp hrun
    exact h e he
  · intro d hrun
    cases hrun

theorem fail {problem : Diagnostic.Problem} (h : Ok problem) (offset : Nat) :
    Fares Ok I Q (Emit.fail problem offset : Emit α) := by
  intro e _
  constructor
  · intro a e' hrun
    exact (throw_ok.mp hrun).elim
  · intro d hrun
    cases hrun
    exact h

theorem change {J : Emitter → Prop} {f : Emitter → Emitter} (h : ∀ e, I e → J (f e)) :
    Fares Ok I (fun _ => J) (modify f : Emit Unit) := by
  intro e he
  constructor
  · intro a e' hrun
    cases modify_ok.mp hrun
    exact h e he
  · intro d hrun
    cases hrun

theorem read {f : Emitter → Emit α} (h : ∀ e, I e → Fares Ok (· = e) Q (f e)) :
    Fares Ok I Q (MonadState.get >>= f) :=
  fun e he => h e he e rfl

theorem put {J : Emitter → Prop} {t : Emitter} (h : ∀ e, I e → J t) :
    Fares Ok I (fun _ => J) (MonadStateOf.set t : Emit Unit) := by
  intro e he
  constructor
  · intro a e' hrun
    cases set_ok.mp hrun
    exact h e he
  · intro d hrun
    cases hrun

theorem imp {Q' : α → Emitter → Prop} {x : Emit α} (hx : Fares Ok I Q x)
    (h : ∀ a e, Q a e → Q' a e) : Fares Ok I Q' x := fun e he =>
  ⟨fun a e' hrun => h a e' ((hx e he).1 a e' hrun), (hx e he).2⟩

theorem of {I' : Emitter → Prop} {x : Emit α} (hx : Fares Ok I Q x) (h : ∀ e, I' e → I e) :
    Fares Ok I' Q x :=
  fun e he => hx e (h e he)

theorem ite {c : Prop} [Decidable c] {x y : Emit α} (hx : c → Fares Ok I Q x)
    (hy : ¬c → Fares Ok I Q y) : Fares Ok I Q (if c then x else y) := by
  by_cases h : c
  · rw [if_pos h]
    exact hx h
  · rw [if_neg h]
    exact hy h

variable {around : List LoopLabels} {w b : List Nat} {xs : List String} {env : EmitEnv}
  {P : Expr → Prop}

theorem append {f : Writer → Writer}
    (h : ∀ v, (f v).labels = v.labels ∧ (f v).patches = v.patches) :
    Keeps Ok (Owes around w b xs) (write f) :=
  change fun e he => he.of_same rfl (h e.writer).1 (h e.writer).2 (List.Subset.refl _)

theorem op (o : Opcode) : Keeps Ok (Owes around w b xs) (Emit.op o) :=
  append fun _ => ⟨rfl, rfl⟩

theorem pushed (n : Nat) : Keeps Ok (Owes around w b xs) (Emit.pushed n) :=
  change fun _ he => he.of_same rfl rfl rfl (List.Subset.refl _)

theorem popped (n : Nat) : Keeps Ok (Owes around w b xs) (Emit.popped n) :=
  change fun _ he => he.of_same rfl rfl rfl (List.Subset.refl _)

theorem newLabel :
    Fares Ok (Owes around w b xs) (fun l => Owes around (l :: w) b xs) Emit.newLabel := by
  intro e he
  constructor
  · intro l e' hrun
    cases hrun
    exact he.newLabel
  · intro d hrun
    cases hrun

theorem mark {l : Nat} (hl : l ∈ w) :
    Fares Ok (Owes around w b xs) (fun _ => Owes around w (l :: b) xs) (Emit.mark l) :=
  change fun _ he => he.mark hl

theorem jump (o : Opcode) {l : Nat} (hl : l ∈ w ∨ l ∈ b) :
    Keeps Ok (Owes around w b xs) (Emit.jump o l) := by
  refine bind (change fun _ he => he.emitJump o hl) fun _ => ?_
  split
  · exact popped 1
  · exact pure fun _ he => he

theorem position : Keeps Ok (Owes around w b xs) Emit.position :=
  read fun _ he => pure fun _ h => h ▸ he

theorem loadSlot (n : UInt8) (holdsRef : Bool) :
    Keeps Ok (Owes around w b xs) (Emit.loadSlot n holdsRef) :=
  bind (append fun _ => ⟨rfl, rfl⟩) fun _ => pushed 1

theorem storeSlot (n : UInt8) (holdsRef : Bool) :
    Keeps Ok (Owes around w b xs) (Emit.storeSlot n holdsRef) :=
  bind (append fun _ => ⟨rfl, rfl⟩) fun _ => popped 1

theorem long (n : Int64) : Keeps Ok (Owes around w b xs) (Emit.long n) :=
  bind (append fun _ => ⟨rfl, rfl⟩) fun _ => pushed 1

theorem member (o : Opcode) (id : Nat) : Keeps Ok (Owes around w b xs) (Emit.member o id) :=
  append fun _ => ⟨rfl, rfl⟩

theorem binary (o : BinaryOp) (lhs rhs : Ty) :
    Keeps Ok (Owes around w b xs) (Emit.binary o lhs rhs) :=
  bind (op _) fun _ => popped 1

-- What can go wrong with code that is made of a checked script whose expressions are as `P` says.
structure Admits (env : EmitEnv) (P : Expr → Prop) (Ok : Diagnostic.Problem → Prop) : Prop where
  locals : ∀ name, Ok (.tooManyLocals name)
  strings : Ok .tooManyStrings
  body : Ok .largeLoop
  types : ∀ id, env.registry.Asks (.object id) → 65535 < id →
    Ok (.uncheckableType (env.registry.typeName (.object id)))
  arguments : ∀ e, P e → e.Sprawls → Ok .tooManyArguments

section Parts

variable (hl : Admits env P Ok)

include hl

theorem intern (text : String) : Keeps Ok (Owes around w b xs) (Emit.intern text) := by
  refine read fun e he => ?_
  unfold StringPool.intern
  have hput : ∀ strings, Owes around w b xs { e with strings } := fun _ =>
    he.of_same rfl rfl rfl (List.Subset.refl _)
  cases e.strings.index[text]? with
  | some i => exact bind (put fun _ _ => hput _) fun _ => pure fun _ h => h
  | none =>
      by_cases hroom : e.strings.strings.size < 65536
      · simp only [hroom, if_true]
        exact bind (put fun _ _ => hput _) fun _ => pure fun _ h => h
      · simp only [hroom, if_false]
        exact fail hl.strings 0

theorem slot (name : String) (offset : Nat) :
    Fares Ok (Owes around w b xs) (fun _ => Owes around w b (name :: xs))
      (Emit.slot name offset) := by
  refine read fun e he => ?_
  split
  · rename_i i hfound
    refine pure fun e' h => ?_
    rw [h]
    have hmem : name ∈ e.slots := by
      rw [← List.isSome_idxOf?, hfound]
      rfl
    exact { he with names := List.cons_subset.mpr ⟨hmem, he.names⟩ }
  · refine ite (fun _ => bind (put fun _ _ => ?_) fun _ => pure fun _ h => h)
      fun _ => fail (hl.locals name) offset
    exact ⟨he.loops, he.waiting, he.bound, he.patches, List.cons_subset.mpr
      ⟨by simp, List.Subset.trans he.names (List.subset_append_left _ _)⟩⟩

theorem place (name : String) (offset : Nat) :
    Keeps Ok (Owes around w b xs) (Emit.slot name offset) :=
  (slot hl name offset).imp fun _ _ h => { h with names := (List.cons_subset.mp h.names).2 }

theorem hiddenSlot (what : String) (offset : Nat) :
    Keeps Ok (Owes around w b xs) (Emit.hiddenSlot what offset) :=
  bind (change fun _ he => he.of_same rfl rfl rfl (List.Subset.refl _)) fun _ =>
    read fun _ he => (place hl _ offset).of fun _ h => h ▸ he

theorem load (name : String) (offset : Nat) :
    Keeps Ok (Owes around w b xs) (Emit.load env name offset) :=
  bind (place hl name offset) fun _ => loadSlot _ _

theorem store (name : String) (offset : Nat) :
    Keeps Ok (Owes around w b xs) (Emit.store env name offset) :=
  bind (place hl name offset) fun _ => storeSlot _ _

-- Only host types with high numbers have no code.
theorem uncheckable {ty : Ty} {depth : UInt8} (h : TypeGuard.encodeAt ty depth = none)
    (hasks : ∀ id, ty = .object id → env.registry.Asks ty) :
    Ok (.uncheckableType (env.registry.typeName ty)) := by
  have hid : 65535 < TypeGuard.idOf ty := by
    by_contra hsmall
    rw [TypeGuard.encodeAt, if_pos (by omega)] at h
    cases h
  cases ty with
  | object id => exact hl.types id (hasks id rfl) hid
  | _ => exact absurd hid (by decide)

theorem guardTop {ty : Ty} (hasks : ∀ id, ty = .object id → env.registry.Asks ty) (offset : Nat) :
    Keeps Ok (Owes around w b xs) (Emit.guardTop env ty offset) := by
  unfold Emit.guardTop
  split
  · exact append fun _ => ⟨rfl, rfl⟩
  · rename_i hcode
    exact fail (uncheckable hl hcode hasks) offset

theorem checkTop {expected : Ty} (hasks : ∀ id, expected = .object id → env.registry.Asks expected)
    (actual : Ty) (offset : Nat) :
    Keeps Ok (Owes around w b xs) (Emit.checkTop env expected actual offset) :=
  ite (fun _ => guardTop hl hasks offset) fun _ => pure fun _ h => h

theorem literal (value : Literal) : Keeps Ok (Owes around w b xs) (Emit.literal value) := by
  cases value with
  | null => exact bind (op _) fun _ => pushed 1
  | bool v => exact bind (op _) fun _ => pushed 1
  | long n => exact long n
  | double x => exact bind (append fun _ => ⟨rfl, rfl⟩) fun _ => pushed 1
  | string text =>
      exact bind (intern hl text) fun _ => bind (append fun _ => ⟨rfl, rfl⟩) fun _ => pushed 1

theorem guardArgs {params : List Ty} (hasks : ∀ ty ∈ params, env.registry.Asks ty)
    (args : List Expr) (above : Nat) :
    Keeps Ok (Owes around w b xs) (Emit.guardArgs env params args above) := by
  induction params generalizing args above with
  | nil =>
      unfold Emit.guardArgs
      exact pure fun _ h => h
  | cons param params ih =>
      cases args with
      | nil => exact pure fun _ h => h
      | cons arg args =>
          have hrest := ih (fun ty hty => hasks ty (List.mem_cons_of_mem _ hty)) args (above - 1)
          refine ite (fun _ => ?_) fun _ => hrest
          split
          · exact bind (append fun _ => ⟨rfl, rfl⟩) fun _ => hrest
          · rename_i hcode
            refine bind (fail (Q := fun _ => Owes around w b xs)
              (uncheckable hl hcode fun _ _ => hasks param List.mem_cons_self) _) fun _ => hrest

end Parts

-- An operator that may leave out its second operand. Both of its labels find their places.
theorem logical {skipOn push : Opcode} {lhs rhs check : Emit Unit}
    (hlhs : ∀ w b, Keeps Ok (Owes around w b xs) lhs)
    (hrhs : ∀ w b, Keeps Ok (Owes around w b xs) rhs)
    (hcheck : ∀ {w b}, Keeps Ok (Owes around w b xs) check) :
    Keeps Ok (Owes around w b xs) (do
      let skip ← Emit.newLabel
      let done ← Emit.newLabel
      lhs
      Emit.jump skipOn skip
      rhs
      check
      Emit.jump .jump done
      Emit.mark skip
      Emit.op push
      Emit.mark done) := by
  refine bind newLabel fun skip => bind newLabel fun done => ?_
  refine bind (hlhs _ _) fun _ => bind (jump skipOn (by simp)) fun _ => ?_
  refine bind (hrhs _ _) fun _ => bind hcheck fun _ => bind (jump .jump (by simp)) fun _ => ?_
  refine bind (mark (by simp)) fun _ => bind (op push) fun _ => (mark (by simp)).imp fun _ _ h => ?_
  exact h.settle (by simp +contextual) (by simp +contextual) (by simp +contextual)

theorem inLoop {labels : LoopLabels} {body : Emit Unit}
    (hbody : Keeps Ok (Owes (labels :: around) w b xs) body) :
    Keeps Ok (Owes around w b xs) (Emit.inLoop labels body) :=
  bind (change fun _ h => h.enter labels) fun _ => bind hbody fun _ => change fun _ h => h.exit

-- The body of a loop, wherever the loop's labels stand.
def LoopBody (Ok : Diagnostic.Problem → Prop) (xs : List String) (body : Emit Unit) : Prop :=
  ∀ around w b, Emitter.Exits around w → Keeps Ok (Owes around w b xs) body

theorem countedLoop (index limit : UInt8) {item body : Emit Unit}
    (hitem : ∀ {w b}, Keeps Ok (Owes around w b xs) item)
    (hbody : LoopBody Ok xs body) :
    Keeps Ok (Owes around w b xs) (Emit.countedLoop index limit item body) := by
  refine bind (long 0) fun _ => bind (storeSlot index false) fun _ => ?_
  refine bind newLabel fun top => bind newLabel fun next => bind newLabel fun done => ?_
  refine bind (mark (by simp)) fun _ => ?_
  refine bind (loadSlot index false) fun _ => bind (loadSlot limit false) fun _ => ?_
  refine bind (op _) fun _ => bind (popped 1) fun _ => ?_
  refine bind (jump .jumpIfFalse (by simp)) fun _ => ?_
  refine bind hitem fun _ => ?_
  refine bind (inLoop (hbody _ _ _ ⟨⟨done, next⟩, _, rfl, by simp, by simp⟩)) fun _ => ?_
  refine bind (mark (by simp)) fun _ => bind (loadSlot index false) fun _ => ?_
  refine bind (long 1) fun _ => bind (op _) fun _ => bind (popped 1) fun _ => ?_
  refine bind (storeSlot index false) fun _ => bind (jump .jump (by simp)) fun _ => ?_
  refine (mark (by simp)).imp fun _ _ h => ?_
  exact h.settle (by simp +contextual) (by simp +contextual) (by simp +contextual)

mutual

theorem expr (hl : Admits env P Ok) (w b : List Nat) (e : Expr) (hr : e.Every Expr.Resolved)
    (hc : e.Every P) : Keeps Ok (Owes around w b xs) (Emit.expr env e) := by
  cases e with
  | literal m value => exact literal hl value
  | name m name => exact load hl name m.offset
  | static m name args binding =>
      cases binding with
      | unresolved => exact absurd rfl hr.1
      | const value => exact literal hl value
      | property id => exact bind (member _ id) fun _ => pushed 1
      | method id =>
          exact bind (exprs hl w b args hr.2 hc.2) fun _ =>
            bind (guardArgs hl (Registry.asks_method id) args _) fun _ =>
              bind (member _ id) fun _ => bind (popped _) fun _ => pushed 1
  | member m target name args binding =>
      have htarget := expr hl w b target hr.2.1 hc.2.1
      have hargs := exprs hl w b args hr.2.2 hc.2.2
      cases binding with
      | unresolved => exact absurd rfl hr.1
      | property id =>
          exact bind htarget fun _ => bind (member _ id) fun _ => bind (popped 1) fun _ => pushed 1
      | method id =>
          exact bind htarget fun _ => bind hargs fun _ =>
            bind (guardArgs hl (Registry.asks_method id) args _) fun _ =>
              bind (member _ id) fun _ => bind (popped _) fun _ => pushed 1
      | dynamic =>
          refine bind htarget fun _ => bind (intern hl name) fun index => ?_
          refine ite (fun _ => ?_) fun _ => ?_
          · exact bind (append fun _ => ⟨rfl, rfl⟩) fun _ => bind (popped 1) fun _ => pushed 1
          · have hcall : Keeps Ok (Owes around w b xs) (do
                Emit.write (·.emitU16Pair .invokeDynamic index (UInt16.ofNat args.length))
                Emit.popped (args.length + 1)
                Emit.pushed 1) :=
              bind (append fun _ => ⟨rfl, rfl⟩) fun _ => bind (popped _) fun _ => pushed 1
            refine bind hargs fun _ => ite (fun hmany => ?_) fun _ => hcall
            have hok := hl.arguments _ hc.1 hmany
            exact bind (fail (Q := fun _ => Owes around w b xs) hok m.offset) fun _ => hcall
  | new m typeName args binding =>
      cases binding with
      | none => exact absurd rfl hr.1
      | some id =>
          exact bind (exprs hl w b args hr.2 hc.2) fun _ =>
            bind (guardArgs hl (Registry.asks_constructor id) args _) fun _ =>
              bind (member _ id) fun _ => bind (popped _) fun _ => pushed 1
  | binary m o lhs rhs =>
      cases o with
      | and =>
          refine logical (fun w b => expr hl w b lhs hr.2.1 hc.2.1)
            (fun w b => expr hl w b rhs hr.2.2 hc.2.2) ?_
          exact checkTop hl (fun _ h => by cases h) _ _
      | or =>
          refine logical (fun w b => expr hl w b lhs hr.2.1 hc.2.1)
            (fun w b => expr hl w b rhs hr.2.2 hc.2.2) ?_
          exact checkTop hl (fun _ h => by cases h) _ _
      | _ =>
          exact bind (expr hl w b lhs hr.2.1 hc.2.1) fun _ =>
            bind (expr hl w b rhs hr.2.2 hc.2.2) fun _ => binary _ lhs.ty rhs.ty
  | unary m o operand =>
      unfold Emit.expr
      split
      · exact literal hl _
      · refine bind (expr hl w b operand hr.2 hc.2) fun _ => ?_
        split
        · exact op _
        · exact op _
  | cast m typeName operand => exact hr.1.elim

theorem exprs (hl : Admits env P Ok) (w b : List Nat) (es : List Expr)
    (hr : Expr.EveryOne Expr.Resolved es) (hc : Expr.EveryOne P es) :
    Keeps Ok (Owes around w b xs) (Emit.exprs env es) := by
  cases es with
  | nil => exact pure fun _ h => h
  | cons e rest =>
      exact bind (expr hl w b e hr.1 hc.1) fun _ => exprs hl w b rest hr.2 hc.2

end

section Parts

variable (hl : Admits env P Ok)

include hl

theorem changeValue {how : Change} (hr : how.Every Expr.Resolved) (hc : how.Every P) :
    Keeps Ok (Owes around w b xs) (Emit.changeValue env how) := by
  cases how with
  | compound o value => exact bind (expr hl w b value hr hc) fun _ => pure fun _ h => h
  | increment => exact bind (long 1) fun _ => pure fun _ h => h
  | decrement => exact bind (long 1) fun _ => pure fun _ h => h

theorem varStmt {v : VarStmt} (hr : v.Every Expr.Resolved) (hc : v.Every P) :
    Keeps Ok (Owes around w b xs) (Emit.varStmt env v) := by
  cases v with
  | declare offset name value =>
      exact bind (expr hl w b value hr hc) fun _ => store hl name offset
  | update offset name how current result =>
      exact bind (load hl name offset) fun _ => bind (changeValue hl hr hc) fun _ =>
        bind (binary _ _ _) fun _ => store hl name offset

theorem setProperty (o : Opcode) (id : Nat) (value : Expr) :
    Keeps Ok (Owes around w b xs) (Emit.setProperty env o id value) := by
  refine bind (checkTop hl (fun k hk => ?_) value.ty value.offset) fun _ => member o id
  rw [hk]
  exact Registry.asks_property id k hk

theorem assignStmt {target value : Expr} (ht : target.Assigned) (htc : target.Every P)
    (hv : value.Every Expr.Resolved) (hvc : value.Every P) :
    Keeps Ok (Owes around w b xs) (Emit.assignStmt env target value) := by
  have hvalue : Keeps Ok (Owes around w b xs) (Emit.expr env value) := expr hl w b value hv hvc
  cases target with
  | static m name args binding =>
      cases binding with
      | property id => exact bind hvalue fun _ => bind (setProperty hl _ id value) fun _ => popped 1
      | _ => exact ht.elim
  | member m owner name args binding =>
      cases binding with
      | property id =>
          exact bind (expr hl w b owner ht htc.2.1) fun _ => bind hvalue fun _ =>
            bind (setProperty hl _ id value) fun _ => popped 2
      | dynamic =>
          exact bind (expr hl w b owner ht htc.2.1) fun _ => bind hvalue fun _ =>
            bind (intern hl name) fun _ => bind (append fun _ => ⟨rfl, rfl⟩) fun _ => popped 2
      | _ => exact ht.elim
  | _ => exact ht.elim

theorem countLoop {count : Expr} {body : Emit Unit} (hr : count.Every Expr.Resolved)
    (hc : count.Every P) (offset : Nat) (hbody : LoopBody Ok xs body) :
    Keeps Ok (Owes around w b xs) (Emit.countLoop env count body offset) :=
  bind (hiddenSlot hl _ offset) fun limit => bind (hiddenSlot hl _ offset) fun index =>
    bind (expr hl w b count hr hc) fun _ => bind (checkTop hl (fun _ h => by cases h) _ _) fun _ =>
      bind (storeSlot limit false) fun _ => countedLoop index limit (pure fun _ h => h) hbody

omit hl in
-- The length of the body goes into code that is there already.
theorem measured {body : Emit Unit} (hlarge : Ok .largeLoop) (offset lengthAt : Nat)
    (hbody : Keeps Ok (Owes around w b xs) body) :
    Keeps Ok (Owes around w b xs) (do
      let start ← Emit.position
      body
      let length := (← Emit.position) - start
      if length ≥ 2147483648 then Emit.fail .largeLoop offset
      Emit.write (·.patchI32 lengthAt (Int32.ofNat length))) := by
  refine bind position fun start => bind hbody fun _ => bind position fun stop => ?_
  refine ite (fun _ => ?_) fun _ => append fun _ => ⟨rfl, rfl⟩
  exact bind (fail hlarge offset) fun _ => append fun _ => ⟨rfl, rfl⟩

theorem machineLoop {count : Expr} {body : Emit Unit} (hr : count.Every Expr.Resolved)
    (hc : count.Every P) (offset : Nat) (hbody : Keeps Ok (Owes around w b xs) body) :
    Keeps Ok (Owes around w b xs) (Emit.machineLoop env count body offset) := by
  unfold Emit.machineLoop
  cases Emit.literalCount? count with
  | some n =>
      refine bind position fun _ => bind (append fun _ => ⟨rfl, rfl⟩) fun _ => ?_
      rw [pure_bind]
      exact measured hl.body offset _ hbody
  | none =>
      refine bind (expr hl w b count hr hc) fun _ =>
        bind (checkTop hl (fun _ h => by cases h) _ _) fun _ => bind (popped 1) fun _ => ?_
      refine bind position fun _ => bind (append fun _ => ⟨rfl, rfl⟩) fun _ => ?_
      rw [pure_bind]
      exact measured hl.body offset _ hbody

theorem itemCount {how : Iteration} (h : how ≠ .unresolved) (offset : Nat) :
    Keeps Ok (Owes around w b xs) (Emit.itemCount env how offset) := by
  cases how with
  | members count getItem => exact member _ count
  | dynamic =>
      exact bind (intern hl _) fun _ => bind (append fun _ => ⟨rfl, rfl⟩) fun _ =>
        guardTop hl (fun _ h => by cases h) offset
  | unresolved => exact absurd rfl h

theorem bindItem (item : String) (source index : UInt8) (how : Iteration) (offset : Nat) :
    Keeps Ok (Owes around w b xs) (Emit.bindItem env item source index how offset) := by
  refine bind (loadSlot source true) fun _ => bind (loadSlot index false) fun _ => ?_
  cases how with
  | members count getItem =>
      exact bind (member _ getItem) fun _ => bind (popped 1) fun _ => store hl item offset
  | _ =>
      exact bind (intern hl _) fun _ => bind (append fun _ => ⟨rfl, rfl⟩) fun _ =>
        bind (popped 1) fun _ => store hl item offset

theorem eachLoop (item : String) {source : Expr} {how : Iteration} {body : Emit Unit}
    (hr : source.Every Expr.Resolved) (hc : source.Every P) (hhow : how ≠ .unresolved)
    (offset : Nat) (hbody : LoopBody Ok xs body) :
    Keeps Ok (Owes around w b xs) (Emit.eachLoop env item source body how offset) :=
  bind (hiddenSlot hl _ offset) fun iter => bind (hiddenSlot hl _ offset) fun count =>
    bind (hiddenSlot hl _ offset) fun index => bind (expr hl w b source hr hc) fun _ =>
      bind (storeSlot iter true) fun _ => bind (loadSlot iter true) fun _ =>
        bind (itemCount hl hhow offset) fun _ => bind (storeSlot count false) fun _ =>
          bind (countedLoop index count (bindItem hl item iter index how offset) hbody) fun _ =>
            bind (op _) fun _ => bind (pushed 1) fun _ => storeSlot iter true

theorem testedLoop {c : List Nat} {test : Expr} {body : LoopLabels → Emit Unit} {top next : Nat}
    (hr : test.Every Expr.Resolved) (hc : test.Every P) (htop : top ∈ w)
    (hbody : ∀ done, Fares Ok (Owes around (done :: w) (top :: b) xs)
      (fun _ => Owes around (done :: w) c xs) (body ⟨done, next⟩)) :
    Fares Ok (Owes around w b xs) (fun _ => Owes around w c xs)
      (Emit.testedLoop env test body top next) := by
  refine bind newLabel fun done => bind (mark (by simp [htop])) fun _ => ?_
  refine bind (expr hl _ _ test hr hc) fun _ => bind (jump .jumpIfFalse (by simp)) fun _ => ?_
  refine bind (hbody done) fun _ => bind (jump .jump (by simp [htop])) fun _ => ?_
  refine (mark (by simp)).imp fun _ _ h => ?_
  exact h.settle (by simp +contextual) (by simp +contextual) (by simp +contextual)

end Parts

mutual

theorem stmt (hl : Admits env P Ok) (around : List LoopLabels) (w b : List Nat) (s : Stmt)
    (hs : s.Settled) (hc : s.Every P)
    (hexits : Emit.escapes s = true → Emitter.Exits around w) :
    Keeps Ok (Owes around w b xs) (Emit.stmt env s) := by
  cases s with
  | «using» offset ns => exact pure fun _ h => h
  | input offset name typeName declared => exact pure fun _ h => h
  | var v => exact varStmt hl hs hc
  | cond offset test body rest =>
      obtain ⟨htest, hbody, hrest⟩ := hs
      obtain ⟨htestc, hbodyc, hrestc⟩ := hc
      refine bind newLabel fun done => bind newLabel fun next => ?_
      have hmore : ∀ l ∈ w, l ∈ next :: done :: w := by simp +contextual
      have hbodyExits : Emit.anyEscapes body = true → Emitter.Exits around (next :: done :: w) :=
        fun h => (hexits (Bool.or_eq_true_iff.mpr (.inl h))).more hmore
      have hrestExits : Emit.branchesEscape rest = true →
          Emitter.Exits around (next :: done :: w) :=
        fun h => (hexits (Bool.or_eq_true_iff.mpr (.inr h))).more hmore
      refine bind (expr hl _ _ test htest htestc) fun _ => ?_
      refine bind (jump .jumpIfFalse (by simp)) fun _ => ?_
      refine bind (stmts hl around _ _ body hbody hbodyc hbodyExits) fun _ => ?_
      refine bind (jump .jump (by simp)) fun _ => bind (mark (by simp)) fun _ => ?_
      refine bind (branches hl around _ _ done rest (by simp) hrest hrestc hrestExits) fun _ => ?_
      refine (mark (by simp)).imp fun _ _ h => ?_
      exact h.settle (by simp +contextual) (by simp +contextual) (by simp +contextual)
  | whileLoop offset test body =>
      have hloop : LoopBody Ok xs (Emit.stmts env body) := fun around w b hexits =>
        stmts hl around w b body hs.2 hc.2 fun _ => hexits
      refine bind newLabel fun top => (testedLoop hl hs.1 hc.1 (by simp) fun done =>
        inLoop (hloop _ _ _ ⟨_, _, rfl, by simp, by simp⟩)).imp fun _ _ h => ?_
      exact h.settle (by simp +contextual) (by simp +contextual) (by simp +contextual)
  | forLoop offset init test step body =>
      obtain ⟨hinit, htest, hstep, hbody⟩ := hs
      obtain ⟨hinitc, htestc, hstepc, hbodyc⟩ := hc
      have hloop : LoopBody Ok xs (Emit.stmts env body) := fun around w b hexits =>
        stmts hl around w b body hbody hbodyc fun _ => hexits
      refine bind (varStmt hl hinit hinitc) fun _ => ?_
      refine bind newLabel fun top => bind newLabel fun next =>
        (testedLoop (c := next :: top :: b) hl htest htestc (by simp) fun done => ?_).imp
          fun _ _ h => ?_
      · refine bind (inLoop (hloop _ _ _ ⟨_, _, rfl, by simp, by simp⟩)) fun _ => ?_
        exact bind (mark (by simp)) fun _ => varStmt hl hstep hstepc
      · exact h.settle (by simp +contextual) (by simp +contextual) (by simp +contextual)
  | eachLoop offset item source body how =>
      have hloop : LoopBody Ok xs (Emit.stmts env body) := fun around w b hexits =>
        stmts hl around w b body hs.2.2 hc.2 fun _ => hexits
      exact eachLoop hl item hs.1 hc.1 hs.2.1 offset hloop
  | countLoop offset count body =>
      have hloop : LoopBody Ok xs (Emit.stmts env body) := fun around w b hexits =>
        stmts hl around w b body hs.2 hc.2 fun _ => hexits
      refine ite (fun hcounts => ?_) fun _ => countLoop hl hs.1 hc.1 offset hloop
      -- The machine's own loop has no labels, and nothing in its body asks for them.
      have hstays : Emit.anyEscapes body = false := by
        simpa using (Bool.and_eq_true_iff.mp hcounts).2
      exact machineLoop hl hs.1 hc.1 offset
        (stmts hl around w b body hs.2 hc.2 fun h => absurd h (by simp [hstays]))
  | leave offset =>
      obtain ⟨labels, rest, haround, hleave, -⟩ := hexits rfl
      refine read fun e he => ?_
      rw [he.loops, haround]
      exact (jump .jump (.inl hleave)).of fun _ h => h ▸ haround ▸ he
  | again offset =>
      obtain ⟨labels, rest, haround, -, hagain⟩ := hexits rfl
      refine read fun e he => ?_
      rw [he.loops, haround]
      exact (jump .jump (.inl hagain)).of fun _ h => h ▸ haround ▸ he
  | ret offset value =>
      cases value with
      | none => exact bind (op _) fun _ => bind (pushed 1) fun _ => bind (op _) fun _ => popped 1
      | some value =>
          exact bind (expr hl w b value (hs value rfl) (hc value rfl)) fun _ =>
            bind (op _) fun _ => popped 1
  | exit offset => exact op _
  | func offset name params body => exact hs.elim
  | call offset target =>
      exact bind (expr hl w b target hs hc) fun _ => bind (op _) fun _ => popped 1
  | assign offset target value => exact assignStmt hl hs.1 hc.1 hs.2 hc.2

theorem stmts (hl : Admits env P Ok) (around : List LoopLabels) (w b : List Nat) (ss : List Stmt)
    (hs : Stmt.AllSettled ss) (hc : Stmt.EveryOne P ss)
    (hexits : Emit.anyEscapes ss = true → Emitter.Exits around w) :
    Keeps Ok (Owes around w b xs) (Emit.stmts env ss) := by
  cases ss with
  | nil => exact pure fun _ h => h
  | cons s rest =>
      have hfirst : Keeps Ok (Owes around w b xs) (Emit.stmt env s) :=
        stmt hl around w b s hs.1 hc.1 fun h => hexits (Bool.or_eq_true_iff.mpr (.inl h))
      exact bind hfirst fun _ => stmts hl around w b rest hs.2 hc.2
        fun h => hexits (Bool.or_eq_true_iff.mpr (.inr h))

theorem branches (hl : Admits env P Ok) (around : List LoopLabels) (w b : List Nat) (done : Nat)
    (rest : Branches) (hdone : done ∈ w) (hs : Stmt.BranchesSettled rest)
    (hc : Stmt.EveryBranch P rest)
    (hexits : Emit.branchesEscape rest = true → Emitter.Exits around w) :
    Keeps Ok (Owes around w b xs) (Emit.branches env done rest) := by
  cases rest with
  | done => exact pure fun _ h => h
  | otherwise body => exact stmts hl around w b body hs hc hexits
  | elseIf test body rest =>
      obtain ⟨htest, hbody, hrest⟩ := hs
      obtain ⟨htestc, hbodyc, hrestc⟩ := hc
      refine bind newLabel fun next => ?_
      have hmore : ∀ l ∈ w, l ∈ next :: w := by simp +contextual
      have hbodyExits : Emit.anyEscapes body = true → Emitter.Exits around (next :: w) :=
        fun h => (hexits (Bool.or_eq_true_iff.mpr (.inl h))).more hmore
      have hrestExits : Emit.branchesEscape rest = true → Emitter.Exits around (next :: w) :=
        fun h => (hexits (Bool.or_eq_true_iff.mpr (.inr h))).more hmore
      refine bind (expr hl _ _ test htest htestc) fun _ => ?_
      refine bind (jump .jumpIfFalse (by simp)) fun _ => ?_
      refine bind (stmts hl around _ _ body hbody hbodyc hbodyExits) fun _ => ?_
      refine bind (jump .jump (by simp [hdone])) fun _ => bind (mark (by simp)) fun _ => ?_
      refine (branches hl around _ _ done rest (by simp [hdone]) hrest hrestc hrestExits).imp
        fun _ _ h => ?_
      exact h.settle (by simp +contextual) (by simp +contextual) (by simp +contextual)

end

theorem inputSlots (hl : Admits env P Ok) (inputs : List InputVar) :
    Fares Ok (Owes around w b xs) (fun _ => Owes around w b (inputs.map (·.name) ++ xs))
      (Emit.inputSlots inputs) := by
  induction inputs generalizing xs with
  | nil => exact pure fun _ h => h
  | cons v rest ih =>
      refine bind (slot hl v.name 0) fun _ => ih.imp fun _ _ h => { h with names := ?_ }
      simpa [List.append_subset, and_left_comm] using h.names

theorem script (hl : Admits env P Ok) (inputs : List InputVar) {s : Script} (hs : Stmt.AllSettled s)
    (hc : Stmt.EveryOne P s) (hstays : Emit.anyEscapes s = false) :
    Fares Ok (Owes [] [] [] []) (fun _ => Owes [] [] [] (inputs.map (·.name)))
      (Emit.script env inputs s) := by
  refine bind (inputSlots hl inputs) fun _ => ?_
  rw [List.append_nil]
  exact bind (stmts hl [] [] [] s hs hc fun h => absurd h (by simp [hstays])) fun _ => op _

end Fares

end Emit

-- Jumps to labels that have a place can only lead too far.
theorem Writer.resolve_bound {w : Writer} {patches : List (Nat × Nat)}
    (h : ∀ p ∈ patches, ∃ position, w.labels[p.2]? = some (some position)) :
    (∃ code, w.resolve patches = .ok code) ∨
    ∃ target, w.resolve patches = .error ⟨.farJump target, 0⟩ ∧ 2147483648 ≤ target := by
  induction patches generalizing w with
  | nil => exact .inl ⟨w.code, rfl⟩
  | cons p rest ih =>
      obtain ⟨target, htarget⟩ := h p List.mem_cons_self
      have hrest : ∀ q ∈ rest, ∃ position, w.labels[q.2]? = some (some position) :=
        fun q hq => h q (List.mem_cons_of_mem _ hq)
      simp only [resolve, htarget, Option.join_some]
      by_cases hnear : target < 2147483648
      · rw [if_pos hnear]
        exact ih hrest
      · rw [if_neg hnear]
        exact .inr ⟨target, rfl, Nat.le_of_not_lt hnear⟩

namespace CompiledScript

variable {r : Registry} {options : CompileOptions} {script : Script} {analysis : Analysis}

theorem inputTable_of_named {slots : List String} {inputs : List InputVar}
    (h : inputs.map (·.name) ⊆ slots) : ∃ table, inputTable slots inputs = .ok table := by
  induction inputs with
  | nil => exact ⟨[], rfl⟩
  | cons v rest ih =>
      obtain ⟨hmem, hrest⟩ := List.cons_subset.mp h
      obtain ⟨table, htable⟩ := ih hrest
      obtain ⟨slot, hslot⟩ := Option.isSome_iff_exists.mp (List.isSome_idxOf?.mpr hmem)
      refine ⟨putSorted v.name ⟨v.ty, slot⟩ table, ?_⟩
      simp only [inputTable, hslot, htable]
      rfl

-- What a checked script can have too much of for its code: variables, texts, code, numbers of host
-- types that have to be checked, and arguments of a call that is left to the run.
inductive Excess (r : Registry) (script : Script) : Diagnostic.Problem → Prop
  | locals (name : String) : Excess r script (.tooManyLocals name)
  | strings : Excess r script .tooManyStrings
  | jump {target : Nat} : 2147483648 ≤ target → Excess r script (.farJump target)
  | body : Excess r script .largeLoop
  | type {id : Nat} : r.Asks (.object id) → 65535 < id →
      Excess r script (.uncheckableType (r.typeName (.object id)))
  | arguments : ¬Stmt.EveryOne (fun e => ¬e.Sprawls) script → Excess r script .tooManyArguments

theorem generate_or_exceeds (hsettled : Stmt.AllSettled script)
    (hstays : Emit.anyEscapes script = false) :
    (∃ code, generate r options script analysis = .ok code) ∨
    ∃ d, generate r options script analysis = .error d ∧ Excess r script d.problem := by
  obtain ⟨P, hevery, harguments⟩ : ∃ P : Expr → Prop, Stmt.EveryOne P script ∧
      ∀ e, P e → e.Sprawls → Excess r script .tooManyArguments := by
    by_cases hslim : Stmt.EveryOne (fun e => ¬e.Sprawls) script
    · exact ⟨_, hslim, fun _ h hsprawls => absurd hsprawls h⟩
    · exact ⟨fun _ => True, Stmt.everyOne_of_always (fun _ => trivial) script,
        fun _ _ _ => .arguments hslim⟩
  have hadmits : Emit.Fares.Admits ⟨r, analysis.symbols, options.level⟩ P (Excess r script) :=
    ⟨.locals, .strings, .body, fun _ => .type, harguments⟩
  have hstart : Emitter.Owes [] [] [] [] {} :=
    ⟨rfl, by simp, by simp, by simp [Writer.empty], by simp⟩
  obtain ⟨hgood, hbad⟩ := Emit.Fares.script hadmits analysis.inputs hsettled hevery hstays {} hstart
  cases hrun : (Emit.script ⟨r, analysis.symbols, options.level⟩ analysis.inputs script).run {} with
  | error d =>
      refine .inr ⟨d, ?_, hbad d hrun⟩
      simp only [generate, hrun, bind, Except.bind]
  | ok result =>
      have hend := hgood result.1 result.2 hrun
      have hbound : ∀ p ∈ result.2.writer.patches.toList, result.2.Bound p.2 := fun p hp =>
        (hend.patches p hp).resolve_right (by simp)
      obtain ⟨table, htable⟩ := inputTable_of_named hend.names
      rcases Writer.resolve_bound hbound with ⟨code, hcode⟩ | ⟨target, hfar, htarget⟩
      · exact .inl ⟨_, except_bind_ok.mpr ⟨result, hrun, except_bind_ok.mpr ⟨code, hcode,
          except_bind_ok.mpr ⟨table, htable, rfl⟩⟩⟩⟩
      · refine .inr ⟨⟨.farJump target, 0⟩, ?_, .jump htarget⟩
        simp only [generate, hrun, bind, Except.bind, Writer.finish, hfar]

-- What is checked can be compiled, but for what does not fit the code's form.
theorem compile_or_exceeds {source : String}
    (h : Script.analyze r options.imports source = .ok (script, analysis)) :
    (∃ code, compile r options source = .ok code) ∨
    ∃ d, compile r options source = .error d ∧ Excess r script d.problem := by
  have hcompile : compile r options source = generate r options script analysis := by
    rw [compile, h]
    rfl
  rw [hcompile]
  obtain ⟨parsed, -, hcheck⟩ := except_bind_ok.mp h
  obtain ⟨hsettled, hstays⟩ := Script.settled_of_check hcheck
  exact generate_or_exceeds hsettled hstays

-- Parts are weighed up to the first one that is done. What they are is known only to the run.
def weighing : String :=
  "in [box]\nloop [3]\nforeach [part] in [box]\nif [part]:done\nbreak\nend\n" ++
    "[part]:weigh [2] [1]\nend\nend\nreturn [box]:mass"

theorem compile_or_exceeds_weighing : ∃ script analysis,
    Script.analyze .empty ["system"] weighing = .ok (script, analysis) ∧
    ((∃ code, compile .empty {} weighing = .ok code) ∨
      ∃ d, compile .empty {} weighing = .error d ∧ Excess .empty script d.problem) := by
  have hchecks : (Script.analyze .empty ["system"] weighing).isOk = true := by decide +kernel
  cases hanalyze : Script.analyze .empty ["system"] weighing with
  | error d =>
      rw [hanalyze] at hchecks
      cases hchecks
  | ok result =>
      exact ⟨result.1, result.2, rfl, compile_or_exceeds hanalyze⟩

end CompiledScript

end HostScript
