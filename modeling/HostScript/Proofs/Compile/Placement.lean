import HostScript.Proofs.Compile.Layout

namespace HostScript

open Emitter

-- What stays of a state until the end of the work: the code from position `a` on, the labels that
-- are bound, and everything that was entered. Operands that wait for a label later on lie behind.
structure Kept (a : Nat) (e fin : Emitter) : Prop where
  size : e.pos ≤ fin.pos
  code : ∀ i, a ≤ i → i < e.pos → fin.writer.code[i]? = e.writer.code[i]?
  labels : ∀ l t : Nat, e.writer.labels[l]? = some (some t) → fin.writer.labels[l]? = some (some t)
  patches : ∃ more, fin.writer.patches.toList = e.writer.patches.toList ++ more ∧
    ∀ x ∈ more, e.pos ≤ x.1
  strings : e.strings.strings.toList <+: fin.strings.strings.toList
  slots : e.slots <+: fin.slots

-- The operands that wait for a label lie within the code, and texts and variables are in order.
structure Sane (e : Emitter) : Prop where
  fits : Fits 0 e.pos e.writer.patches.toList
  tidy : e.Tidy

-- The finished code: every operand that waited for a label names its place, and everything else is
-- as it was written.
structure Finished (fin : Emitter) (L : Layout) : Prop where
  size : L.script.code.size = fin.pos
  code : ∀ i, (∀ x ∈ fin.writer.patches.toList, i < x.1 ∨ x.1 + 4 ≤ i) →
    L.script.code[i]? = fin.writer.code[i]?
  jumps : ∀ x ∈ fin.writer.patches.toList, ∃ t, fin.writer.labels[x.2]? = some (some t) ∧
    t < 2147483648 ∧ L.script.code.Holds x.1 (bytesOfI32 (Int32.ofNat t))
  strings : L.script.strings = fin.strings.strings
  slots : L.slots = fin.slots

namespace Emitter

-- A part of the work that binds no label known before.
def Step (e e' : Emitter) : Prop :=
  Ext e.writer.labels.size e e'

variable {e e₁ e₂ fin : Emitter} {a : Nat}

theorem Step.trans (h₁ : Step e e₁) (h₂ : Step e₁ e₂) : Step e e₂ :=
  Ext.trans h₁ (Ext.weaken h₂ h₁.labelCount)

theorem Step.label {l : Nat} {x : Option Nat} (h : Step e e₁)
    (hl : e.writer.labels[l]? = some x) : e₁.writer.labels[l]? = some x := by
  obtain ⟨hlt, -⟩ := Array.getElem?_eq_some_iff.mp hl
  rw [h.labels l hlt, hl]

end Emitter

theorem Sane.step {e e₁ : Emitter} (hs : Sane e) (h : Step e e₁) : Sane e₁ := by
  obtain ⟨new, hnew, hfits⟩ := h.patches
  refine ⟨?_, h.tidy hs.tidy⟩
  rw [hnew]
  exact hs.fits.append hfits (Nat.zero_le _) h.size

namespace Kept

variable {e e₁ fin : Emitter} {a : Nat}

-- What stays of a state stays of those before it.
theorem step (hk : Kept a e₁ fin) (h : Step e e₁) : Kept a e fin := by
  obtain ⟨new, hnew, hfits⟩ := h.patches
  obtain ⟨more, hmore, hbehind⟩ := hk.patches
  refine
    { size := Nat.le_trans h.size hk.size
      code := fun i hi hlt => (hk.code i hi (Nat.lt_of_lt_of_le hlt h.size)).trans (h.code i hlt)
      labels := fun l t hl => hk.labels l t (h.label hl)
      patches := ⟨new ++ more, by simp [hmore, hnew], fun x hx => ?_⟩
      strings := h.strings.trans hk.strings
      slots := h.slots.trans hk.slots }
  rcases List.mem_append.mp hx with h' | h'
  · exact (hfits.within x h').1
  · exact Nat.le_trans h.size (hbehind x h')

-- Binding a label that was not bound before.
theorem mark {l : Nat} (hfree : e.writer.labels[l]? = some none)
    (hk : Kept a { e with writer := e.writer.mark l } fin) :
    Kept a e fin ∧ fin.writer.labels[l]? = some (some e.pos) := by
  obtain ⟨hlt, -⟩ := Array.getElem?_eq_some_iff.mp hfree
  refine ⟨{ hk with labels := fun k t hk' => hk.labels k t ?_ }, hk.labels l e.pos ?_⟩
  · by_cases heq : l = k
    · subst heq
      rw [hfree] at hk'
      cases hk'
    · rw [← hk']
      exact Array.getElem?_setIfInBounds_ne heq
  · exact Array.getElem?_setIfInBounds_self_of_lt hlt

end Kept

section Instructions

variable {L : Layout} {fin e : Emitter} {a : Nat}

-- Bytes that were appended are found in the finished code.
theorem holds_append_of_kept (hf : Finished fin L) (hs : Sane e) (ha : a ≤ e.pos)
    {bytes : List UInt8} (hk : Kept a { e with writer := e.writer.append bytes } fin) :
    L.script.code.Holds e.pos bytes := by
  rw [Bytes.holds_iff]
  intro k hlt
  have hsize : Emitter.pos { e with writer := e.writer.append bytes } = e.pos + bytes.length := by
    simp [pos, Writer.code_append]
  obtain ⟨more, hmore, hbehind⟩ := hk.patches
  rw [hsize] at hbehind
  rw [hf.code (e.pos + k) fun x hx => ?_, hk.code (e.pos + k) (by omega) (by omega),
    Writer.code_append]
  · simp only [pos]
    rw [Array.getElem?_append_right (Nat.le_add_right _ _), Nat.add_sub_cancel_left,
      List.getElem?_toArray]
  · have happ : e.writer.append bytes = { e.writer with code := (e.writer.append bytes).code } := rfl
    rw [hmore, happ] at hx
    rcases List.mem_append.mp hx with h' | h'
    · have := hs.fits.within x h'
      omega
    · have := hbehind x h'
      omega

-- The same of an instruction whose operand waits for a label.
theorem holds_jump_of_kept (hf : Finished fin L) (hs : Sane e) (ha : a ≤ e.pos) {o : Opcode}
    {l : Nat} (hk : Kept a { e with writer := e.writer.emitJump o l } fin) :
    ∃ t, fin.writer.labels[l]? = some (some t) ∧ t < 2147483648 ∧
      L.script.code[e.pos]? = some o.byte ∧
      L.script.code.Holds (e.pos + 1) (bytesOfI32 (Int32.ofNat t)) := by
  obtain ⟨more, hmore, hbehind⟩ := hk.patches
  have hcode : (e.writer.emitJump o l).code = e.writer.code ++ (o.byte :: bytesOfI32 0).toArray :=
    Writer.code_append _ _
  have hsize : Emitter.pos { e with writer := e.writer.emitJump o l } = e.pos + 5 := by
    simp [pos, hcode, bytesOfI32, length_bytesOf]
  have hpatches : (e.writer.emitJump o l).patches.toList =
      e.writer.patches.toList ++ [(e.pos + 1, l)] := by
    simp [Writer.emitJump, Writer.emitI32_eq, Writer.append, Writer.operandPosition,
      Writer.position, pos]
  rw [hsize] at hbehind
  simp only [hpatches, List.append_assoc] at hmore
  obtain ⟨t, hlabel, hsmall, hbytes⟩ := hf.jumps (e.pos + 1, l) (by simp [hmore])
  refine ⟨t, hlabel, hsmall, ?_, hbytes⟩
  rw [hf.code e.pos fun x hx => ?_, hk.code e.pos ha (by omega)]
  · simp only [hcode, pos]
    simp
  · rw [hmore] at hx
    simp only [List.mem_append, List.mem_singleton] at hx
    rcases hx with h' | rfl | h'
    · have := hs.fits.within x h'
      omega
    · omega
    · have := hbehind x h'
      omega

theorem at_of_holds {o : Opcode} {operand : List UInt8} {i : Instr} {p : Nat}
    (h : L.script.code.Holds p (o.byte :: operand)) (hlen : operand.length = o.operandSize)
    (hread : Instr.read? L.script.code o (p + 1) = some i) :
    L.At p i (p + (o.byte :: operand).length) := by
  have hfetch := CompiledScript.fetch_of_read h.1 hread
  rw [Layout.At, hfetch, List.length_cons, hlen, Nat.add_assoc, Nat.add_comm 1]

end Instructions

theorem getElem?_of_prefix {γ : Type} {xs ys : List γ} {i : Nat} {x : γ} (h : xs <+: ys)
    (hx : xs[i]? = some x) : ys[i]? = some x := by
  obtain ⟨more, rfl⟩ := h
  obtain ⟨hlt, -⟩ := List.getElem?_eq_some_iff.mp hx
  rw [List.getElem?_append_left hlt, hx]

namespace Emit

-- Work that only adds code, and whose code is found in the finished script where `P` says.
structure Lays {α : Type} (fin : Emitter) (x : Emit α) (P : Emitter → α → Emitter → Prop) :
    Prop where
  grows : ∀ n, Grows n x
  lays : ∀ a e v e', Sane e → a ≤ e.pos → x e = .ok (v, e') → Kept a e' fin → P e v e'

-- The same for work that uses no hidden variables, by its start and its end.
def Coded {α : Type} (fin : Emitter) (x : Emit α) (R : Nat → Nat → Prop) : Prop :=
  Lays fin x fun e _ e' => R e.pos e'.pos ∧ e'.hidden = e.hidden

variable {fin : Emitter} {α β : Type} {x : Emit α} {f : α → Emit β}

theorem Grows.step (hg : ∀ n, Grows n x) {e e' : Emitter} {v : α} (h : x e = .ok (v, e')) :
    Step e e' :=
  hg _ e v e' (Nat.le_refl _) h

namespace Lays

variable {P : Emitter → α → Emitter → Prop} {Q : α → Emitter → β → Emitter → Prop}

theorem imp {P' : Emitter → α → Emitter → Prop} (hx : Lays fin x P)
    (h : ∀ e v e', Step e e' → P e v e' → P' e v e') : Lays fin x P' :=
  ⟨hx.grows, fun a e v e' hs ha hok hk =>
    h e v e' (Grows.step hx.grows hok) (hx.lays a e v e' hs ha hok hk)⟩

theorem bind (hx : Lays fin x P) (hf : ∀ v, Lays fin (f v) (Q v)) :
    Lays fin (x >>= f) fun e w e' => ∃ v e₁, P e v e₁ ∧ Q v e₁ w e' := by
  refine ⟨fun n => (hx.grows n).bind fun v => (hf v).grows n, fun a e w e' hs ha hok hk => ?_⟩
  obtain ⟨v, e₁, h₁, h₂⟩ := bind_ok.mp hok
  have hstep₁ := Grows.step hx.grows h₁
  have hstep₂ := Grows.step (hf v).grows h₂
  exact ⟨v, e₁, hx.lays a e v e₁ hs ha h₁ (hk.step hstep₂),
    (hf v).lays a e₁ w e' (hs.step hstep₁) (Nat.le_trans ha hstep₁.size) h₂ hk⟩

theorem fail (problem : Diagnostic.Problem) (offset : Nat) :
    Lays fin (Emit.fail problem offset : Emit α) P :=
  ⟨fun _ => Grows.fail problem offset, fun _ _ _ _ _ _ h _ => (throw_ok.mp h).elim⟩

end Lays

namespace Coded

variable {R S T : Nat → Nat → Prop} {y : Emit β}

theorem imp (hx : Coded fin x R) (h : ∀ p q, R p q → S p q) : Coded fin x S :=
  Lays.imp hx fun _ _ _ _ hr => ⟨h _ _ hr.1, hr.2⟩

theorem seq (hx : Coded fin x R) (hy : Coded fin y S) (h : ∀ p q r, R p q → S q r → T p r) :
    Coded fin (x >>= fun _ => y) T :=
  (Lays.bind hx fun _ => hy).imp fun _ _ _ _ ⟨_, _, hr, hs⟩ =>
    ⟨h _ _ _ hr.1 hs.1, hs.2.trans hr.2⟩

theorem andThen (hx : Coded fin x R) (hy : Coded fin y S) :
    Coded fin (x >>= fun _ => y) fun p r => ∃ q, R p q ∧ S q r :=
  seq hx hy fun _ q _ hr hs => ⟨q, hr, hs⟩

theorem fail (problem : Diagnostic.Problem) (offset : Nat) :
    Coded fin (Emit.fail problem offset : Emit α) R :=
  Lays.fail problem offset

theorem pure (v : α) : Coded fin (Pure.pure v : Emit α) Eq :=
  ⟨fun _ => Grows.pure v, fun _ _ _ _ _ _ h _ => by cases pure_ok.mp h; exact ⟨rfl, rfl⟩⟩

-- Work that writes no code.
theorem pushed (k : Nat) : Coded fin (Emit.pushed k) Eq :=
  ⟨fun _ => Grows.pushed k, fun _ _ _ _ _ _ h _ => by cases modify_ok.mp h; exact ⟨rfl, rfl⟩⟩

theorem popped (k : Nat) : Coded fin (Emit.popped k) Eq :=
  ⟨fun _ => Grows.popped k, fun _ _ _ _ _ _ h _ => by cases modify_ok.mp h; exact ⟨rfl, rfl⟩⟩

theorem quiet (hx : Coded fin x R) (hy : Coded fin y Eq) : Coded fin (x >>= fun _ => y) R :=
  seq hx hy fun _ _ _ hr h => h ▸ hr

end Coded

section

variable {L : Layout} (hf : Finished fin L)

include hf

-- Writing an instruction.
theorem Coded.append {g : Writer → Writer} {o : Opcode} {operand : List UInt8} {i : Instr}
    (hg : ∀ w, g w = w.append (o.byte :: operand)) (hlen : operand.length = o.operandSize)
    (hread : ∀ p, L.script.code.Holds p operand → Instr.read? L.script.code o p = some i) :
    Coded fin (write g) fun p q => L.At p i q := by
  refine ⟨fun _ => Grows.append hg, fun a e v e' hs ha h hk => ?_⟩
  cases modify_ok.mp h
  rw [hg] at hk ⊢
  have hbytes := holds_append_of_kept hf hs ha hk
  refine ⟨?_, rfl⟩
  have hat := at_of_holds hbytes hlen (hread _ hbytes.2)
  simpa [pos, Writer.code_append] using hat

theorem Coded.op {o : Opcode} {i : Instr} (hlen : o.operandSize = 0)
    (hread : ∀ p, Instr.read? L.script.code o p = some i) :
    Coded fin (Emit.op o) fun p q => L.At p i q :=
  .append hf (fun w => w.emit_eq o) hlen.symm fun p _ => hread p

theorem Coded.loadSlot (n : UInt8) (holdsRef : Bool) :
    Coded fin (Emit.loadSlot n holdsRef) fun p q => L.At p (Layout.loadInstr holdsRef n) q := by
  refine Coded.quiet ?_ (.pushed 1)
  cases holdsRef with
  | true =>
      exact .append hf (fun w => w.emitU8_eq _ n) rfl fun p h => by
        simp [Instr.read?, Bytes.u8?_of_holds h, Layout.loadInstr]
  | false =>
      exact .append hf (fun w => w.emitU8_eq _ n) rfl fun p h => by
        simp [Instr.read?, Bytes.u8?_of_holds h, Layout.loadInstr]

theorem Coded.storeSlot (n : UInt8) (holdsRef : Bool) :
    Coded fin (Emit.storeSlot n holdsRef) fun p q => L.At p (Layout.storeInstr holdsRef n) q := by
  refine Coded.quiet ?_ (.popped 1)
  cases holdsRef with
  | true =>
      exact .append hf (fun w => w.emitU8_eq _ n) rfl fun p h => by
        simp [Instr.read?, Bytes.u8?_of_holds h, Layout.storeInstr]
  | false =>
      exact .append hf (fun w => w.emitU8_eq _ n) rfl fun p h => by
        simp [Instr.read?, Bytes.u8?_of_holds h, Layout.storeInstr]

theorem Coded.long (k : Int64) : Coded fin (Emit.long k) fun p q => L.At p (.pushLong k) q :=
  Coded.quiet (.append hf (fun w => w.emitLong_eq k) (length_bytesOf 8 _) fun p h => by
    simp [Instr.read?, Bytes.i64?_of_holds h]) (.pushed 1)

-- Calls by name, with the number of arguments.
theorem Coded.callNamed (name argc : UInt16) :
    Coded fin (write (·.emitU16Pair .invokeDynamic name argc)) fun p q =>
      L.At p (.invokeDynamic name argc) q := by
  refine .append hf (fun w => w.emitU16Pair_eq _ name argc) (by simp [length_bytesOf]; rfl) ?_
  intro p h
  obtain ⟨hname, hargc⟩ := Bytes.holds_append.mp h
  rw [length_bytesOf] at hargc
  simp [Instr.read?, Bytes.u16?_of_holds hname, Bytes.u16?_of_holds hargc]

-- Instructions with a member's number.
theorem Coded.member {o : Opcode} {id : Nat} {i : Instr} (hsize : o.operandSize = 4)
    (hread : ∀ p, L.script.code.i32? p = some (Int32.ofNat id) →
      Instr.read? L.script.code o p = some i) :
    Coded fin (Emit.member o id) fun p q => L.At p i q :=
  .append hf (fun w => w.emitI32_eq o _) (by simp [bytesOfI32, length_bytesOf, hsize])
    fun p h => hread p (Bytes.i32?_of_holds h)

omit hf in
theorem slot_found {name : String} {offset : Nat} {e e' : Emitter} {n : UInt8} (ht : e.Tidy)
    (h : slot name offset e = .ok (n, e')) :
    e'.slots[n.toNat]? = some name ∧ e'.pos = e.pos ∧ e'.hidden = e.hidden := by
  rcases slot_ok h with ⟨i, hi, rfl, rfl⟩ | ⟨-, hroom, rfl, rfl⟩
  · obtain ⟨hlt, hname, -⟩ := List.idxOf?_eq_some_iff.mp hi
    have hsmall : i % 256 = i := Nat.mod_eq_of_lt (Nat.lt_of_lt_of_le hlt ht.room)
    refine ⟨?_, rfl, rfl⟩
    simp only [UInt8.toNat_ofNat', hsmall, List.getElem?_eq_getElem hlt, Option.some.injEq]
    exact hname
  · have hsmall : e.slots.length % 256 = e.slots.length := Nat.mod_eq_of_lt hroom
    refine ⟨?_, rfl, rfl⟩
    simp [hsmall]

theorem layout_slot {name : String} {n : UInt8} {e : Emitter} {a : Nat} (hk : Kept a e fin)
    (h : e.slots[n.toNat]? = some name) : L.Slot name n := by
  rw [Layout.Slot, hf.slots]
  exact getElem?_of_prefix hk.slots h

theorem slot_lays {name : String} (hname : PlainName name) (offset : Nat) :
    Lays fin (slot name offset) fun e n e' =>
      L.Slot name n ∧ e'.pos = e.pos ∧ e'.hidden = e.hidden := by
  refine ⟨fun _ => Grows.slot hname offset, fun a e n e' hs _ h hk => ?_⟩
  obtain ⟨hslot, hrest⟩ := slot_found hs.tidy h
  exact ⟨layout_slot hf hk hslot, hrest⟩

theorem intern_lays (s : String) :
    Lays fin (intern s) fun e n e' => L.Text n s ∧ e'.pos = e.pos ∧ e'.hidden = e.hidden := by
  refine ⟨fun _ => Grows.intern s, fun a e n e' hs _ h hk => ?_⟩
  have ht := (Grows.step (fun _ => Grows.intern s) h).tidy hs.tidy
  obtain ⟨i, p, hp, rfl, rfl⟩ := intern_ok h
  obtain ⟨-, -, -, hindex⟩ := StringPool.intern_spec hp
  have hfound := ht.pool s i hindex
  have hsmall : i % 65536 = i := by
    obtain ⟨hlt, -⟩ := Array.getElem?_eq_some_iff.mp hfound
    have := ht.texts
    exact Nat.mod_eq_of_lt (Nat.lt_of_lt_of_le hlt this)
  refine ⟨?_, rfl, rfl⟩
  rw [Layout.Text, hf.strings, UInt16.toNat_ofNat', hsmall, ← Array.getElem?_toList]
  exact getElem?_of_prefix hk.strings (by simpa using hfound)

theorem load_coded (env : EmitEnv) (henv : env.symbols = L.symbols) {name : String}
    (hname : PlainName name) (offset : Nat) :
    Coded fin (load env name offset) (L.Load name) := by
  refine ((slot_lays hf hname offset).bind fun n => Coded.loadSlot hf n _).imp ?_
  rintro e v e' - ⟨n, e₁, ⟨hslot, hpos, hhidden⟩, hat, hh⟩
  rw [hpos, henv] at hat
  exact ⟨⟨n, hslot, hat⟩, hh.trans hhidden⟩

theorem store_coded (env : EmitEnv) (henv : env.symbols = L.symbols) {name : String}
    (hname : PlainName name) (offset : Nat) :
    Coded fin (store env name offset) (L.Store name) := by
  refine ((slot_lays hf hname offset).bind fun n => Coded.storeSlot hf n _).imp ?_
  rintro e v e' - ⟨n, e₁, ⟨hslot, hpos, hhidden⟩, hat, hh⟩
  rw [hpos, henv] at hat
  exact ⟨⟨n, hslot, hat⟩, hh.trans hhidden⟩

-- Code with the number of a text.
theorem text_coded {s : String} {g : UInt16 → Emit Unit} {S : UInt16 → Nat → Nat → Prop}
    (hg : ∀ n, Coded fin (g n) (S n)) :
    Coded fin (intern s >>= g) fun p q => ∃ n, L.Text n s ∧ S n p q := by
  refine ((intern_lays hf s).bind hg).imp ?_
  rintro e v e' - ⟨n, e₁, ⟨htext, hpos, hhidden⟩, hat, hh⟩
  rw [hpos] at hat
  exact ⟨⟨n, htext, hat⟩, hh.trans hhidden⟩

theorem literal_coded (value : Literal) : Coded fin (literal value) (LiteralCode L value) := by
  cases value with
  | null => exact ((Coded.op hf rfl fun _ => rfl).quiet (.pushed 1)).imp fun _ _ => .null
  | bool b =>
      have hop : Coded fin (op (if b then .pushTrue else .pushFalse))
          fun p q => L.At p (.pushBool b) q := by
        cases b with
        | true => exact .op hf rfl fun _ => rfl
        | false => exact .op hf rfl fun _ => rfl
      exact (hop.quiet (.pushed 1)).imp fun _ _ => .bool
  | long k => exact (Coded.long hf k).imp fun _ _ => .long
  | double x =>
      have hwrite : Coded fin (write (·.emitDouble x)) fun p q => L.At p (.pushDouble x) q :=
        .append hf (fun w => w.emitDouble_eq x) (length_bytesOf 8 _) fun p h => by
          simp [Instr.read?, Bytes.f64?_of_holds h]
      exact (hwrite.quiet (.pushed 1)).imp fun _ _ => .double
  | string s =>
      have hwrite : ∀ n : UInt16, Coded fin (do
          write (·.emitU16 .pushString n)
          pushed 1) fun p q => L.At p (.pushString n) q := fun n =>
        Coded.quiet (.append hf (fun w => w.emitU16_eq _ n) (length_bytesOf 2 _) fun p h => by
          simp [Instr.read?, Bytes.u16?_of_holds h]) (.pushed 1)
      exact (text_coded hf hwrite).imp fun _ _ ⟨n, htext, hat⟩ => .string htext hat

theorem guardTop_coded (env : EmitEnv) (ty : Ty) (offset : Nat) :
    Coded fin (guardTop env ty offset) fun p q => L.At p (.checkType (TypeGuard.checked ty)) q := by
  unfold guardTop
  split
  · rename_i code hcode
    refine .append hf (fun w => w.emitI32_eq _ code) (by rfl) fun p h => ?_
    simp [Instr.read?, Bytes.i32?_of_holds h, TypeGuard.decode_encode hcode]
  · exact .fail _ _

theorem checkTop_coded (env : EmitEnv) (expected actual : Ty) (offset : Nat) :
    Coded fin (checkTop env expected actual offset) (CheckCode L expected actual) := by
  unfold checkTop
  split
  · rename_i hneed
    exact (guardTop_coded hf env expected offset).imp fun _ _ => .needed hneed
  · rename_i hskip
    exact (Coded.pure ()).imp fun p q h => h ▸ .skipped (by simpa using hskip)

theorem guardArgs_coded (env : EmitEnv) (params : List Ty) (args : List Expr) (above : Nat) :
    Coded fin (guardArgs env params args above) (GuardsCode L params args above) := by
  induction params generalizing args above with
  | nil => exact (Coded.pure ()).imp fun p q h => h ▸ .params
  | cons param params ih =>
      cases args with
      | nil => exact (Coded.pure ()).imp fun p q h => h ▸ .args
      | cons arg args =>
          unfold guardArgs
          simp only
          split
          · rename_i hneed
            split
            · rename_i code hcode
              have hwrite : Coded fin (write (·.emitI32 .peekCheckType code)) fun p q =>
                  L.At p (.peekCheckType (TypeGuard.checked param)
                    (UInt8.ofNat (min above 255))) q := by
                refine .append hf (fun w => w.emitI32_eq _ code) (by rfl) fun p h => ?_
                simp [Instr.read?, Bytes.i32?_of_holds h, TypeGuard.decodeAt_encodeAt hcode]
              exact hwrite.seq (ih args (above - 1)) fun _ _ _ => .needed hneed
            · exact (Coded.fail (R := fun _ _ => False) _ _).seq (ih args (above - 1))
                fun _ _ _ h => h.elim
          · rename_i hskip
            exact (ih args (above - 1)).imp fun _ _ => .skipped (by simpa using hskip)

end

section Labels

variable {e e' : Emitter} {a l k : Nat}

-- A label that was given out and is not bound yet.
def Fresh (l : Nat) (e : Emitter) : Prop :=
  e.writer.labels[l]? = some none

theorem Fresh.step (hl : Fresh l e) (h : Step e e') : Fresh l e' :=
  h.label hl

theorem newLabel_ok (h : newLabel e = .ok (l, e')) :
    Step e e' ∧ Fresh l e' ∧ (∀ k, Fresh k e → k ≠ l) ∧ e'.pos = e.pos ∧ e'.hidden = e.hidden := by
  have hstep : Step e e' := by
    have hg : ∀ n, Grows n (newLabel >>= fun l => (pure l : Emit Nat)) := fun n =>
      Grows.newLabel fun _ _ => Grows.pure _
    exact Grows.step hg (v := l) (by rw [bind_pure]; exact h)
  cases h
  refine ⟨hstep, ?_, fun k hk => ?_, rfl, rfl⟩
  · simp [Fresh]
  · obtain ⟨hlt, -⟩ := Array.getElem?_eq_some_iff.mp hk
    exact Nat.ne_of_lt hlt

theorem mark_ok (fin : Emitter) {u : Unit} (h : mark l e = .ok (u, e')) (hs : Sane e) :
    Sane e' ∧ (∀ k, Fresh k e → k ≠ l → Fresh k e') ∧ e'.pos = e.pos ∧ e'.hidden = e.hidden ∧
      e'.loops = e.loops ∧ (∀ a, Fresh l e → Kept a e' fin →
        Kept a e fin ∧ fin.writer.labels[l]? = some (some e.pos)) := by
  cases modify_ok.mp h
  refine ⟨⟨hs.fits, { hs.tidy with }⟩, fun k hk hne => ?_, rfl, rfl, rfl, fun a hfree hk =>
    hk.mark hfree⟩
  exact (Array.getElem?_setIfInBounds_ne hne.symm).trans hk

-- The finished jump names the place where its label was bound.
theorem jump_lays {L : Layout} (hf : Finished fin L) {o : Opcode} {i : Int32 → Instr} (l : Nat)
    (hsize : o.operandSize = 4) (hread : ∀ p n, L.script.code.i32? p = some n →
      Instr.read? L.script.code o p = some (i n)) :
    Lays fin (jump o l) fun e _ e' => e'.hidden = e.hidden ∧ ∃ n t, L.At e.pos (i n) e'.pos ∧
      n.toInt = (t : Nat) ∧ fin.writer.labels[l]? = some (some t) := by
  refine ⟨fun _ => Grows.jump o l, fun a e v e' hs ha h hk => ?_⟩
  obtain ⟨_, e₁, h₁, h₂⟩ := bind_ok.mp h
  have hstep := Grows.step (fun _ => Grows.emitJump o l) h₁
  cases modify_ok.mp h₁
  have hdepth : Coded fin (if o ≠ .jump then popped 1 else (pure () : Emit Unit)) Eq := by
    split
    · exact .popped 1
    · exact .pure ()
  have hk₁ := hk.step (Grows.step hdepth.grows h₂)
  obtain ⟨t, hlabel, hsmall, hop, hbytes⟩ := holds_jump_of_kept hf hs ha hk₁
  have hlen : (bytesOfI32 (Int32.ofNat t)).length = o.operandSize := by
    rw [bytesOfI32, length_bytesOf, hsize]
  have hat := at_of_holds (i := i (Int32.ofNat t)) ⟨hop, hbytes⟩ hlen
    (hread _ _ (Bytes.i32?_of_holds hbytes))
  obtain ⟨hpos, hhidden⟩ := hdepth.lays a _ _ e' (hs.step hstep) (Nat.le_trans ha hstep.size) h₂ hk
  refine ⟨hhidden, Int32.ofNat t, t, ?_, Int32.toInt_ofNat_of_lt hsmall, hlabel⟩
  rw [← hpos]
  simpa [pos, Writer.emitJump, Writer.emitI32_eq, Writer.code_append, bytesOfI32,
    length_bytesOf] using hat

-- The same for work that finds some labels still to be bound, and leaves some of them.
def Places {α : Type} (fin : Emitter) (own own' : List Nat) (x : Emit α)
    (P : Emitter → α → Emitter → Prop) : Prop :=
  ∀ a e v e', Sane e → own.Nodup → (∀ l ∈ own, Fresh l e) → a ≤ e.pos → x e = .ok (v, e') →
    (Sane e' ∧ own'.Nodup ∧ (∀ l ∈ own', Fresh l e') ∧ e.pos ≤ e'.pos) ∧
    (Kept a e' fin → Kept a e fin ∧ P e v e')

namespace Places

variable {own own₁ own₂ : List Nat} {P : Emitter → α → Emitter → Prop}
  {Q : α → Emitter → β → Emitter → Prop}

theorem lays (hx : Places fin [] [] x P) (hg : ∀ n, Grows n x) : Lays fin x P :=
  ⟨hg, fun a e v e' hs ha h hk => ((hx a e v e' hs .nil (by simp) ha h).2 hk).2⟩

theorem of_lays (hx : Lays fin x P) : Places fin own own x P := by
  intro a e v e' hs hnodup hfresh ha h
  have hstep := Grows.step hx.grows h
  exact ⟨⟨hs.step hstep, hnodup, fun l hl => (hfresh l hl).step hstep, hstep.size⟩,
    fun hk => ⟨hk.step hstep, hx.lays a e v e' hs ha h hk⟩⟩

theorem bind (hx : Places fin own own₁ x P) (hf : ∀ v, Places fin own₁ own₂ (f v) (Q v)) :
    Places fin own own₂ (x >>= f) fun e w e' => ∃ v e₁, P e v e₁ ∧ Q v e₁ w e' := by
  intro a e w e' hs hnodup hfresh ha h
  obtain ⟨v, e₁, h₁, h₂⟩ := bind_ok.mp h
  obtain ⟨⟨hs₁, hnodup₁, hfresh₁, hpos₁⟩, hback₁⟩ := hx a e v e₁ hs hnodup hfresh ha h₁
  obtain ⟨⟨hs₂, hnodup₂, hfresh₂, hpos₂⟩, hback₂⟩ :=
    hf v a e₁ w e' hs₁ hnodup₁ hfresh₁ (Nat.le_trans ha hpos₁) h₂
  refine ⟨⟨hs₂, hnodup₂, hfresh₂, Nat.le_trans hpos₁ hpos₂⟩, fun hk => ?_⟩
  obtain ⟨hk₁, hq⟩ := hback₂ hk
  obtain ⟨hk₀, hp⟩ := hback₁ hk₁
  exact ⟨hk₀, v, e₁, hp, hq⟩

theorem newLabel {g : Nat → Emit β} {Q : Nat → Emitter → β → Emitter → Prop}
    (hg : ∀ l, Places fin (l :: own) own₁ (g l) (Q l)) :
    Places fin own own₁ (Emit.newLabel >>= g) fun e w e' => ∃ l e₁,
      (e₁.pos = e.pos ∧ e₁.hidden = e.hidden ∧ e₁.loops = e.loops) ∧ Q l e₁ w e' := by
  intro a e w e' hs hnodup hfresh ha h
  obtain ⟨l, e₁, h₁, h₂⟩ := bind_ok.mp h
  obtain ⟨hstep, hfree, hne, hpos, hhidden⟩ := newLabel_ok h₁
  have hnew : (l :: own).Nodup :=
    List.nodup_cons.mpr ⟨fun hmem => hne l (hfresh l hmem) rfl, hnodup⟩
  have hall : ∀ k ∈ l :: own, Fresh k e₁ := by
    intro k hk
    rcases List.mem_cons.mp hk with rfl | hk
    · exact hfree
    · exact (hfresh k hk).step hstep
  obtain ⟨⟨hs₂, hnodup₂, hfresh₂, hpos₂⟩, hback⟩ :=
    hg l a e₁ w e' (hs.step hstep) hnew hall (by omega) h₂
  refine ⟨⟨hs₂, hnodup₂, hfresh₂, by omega⟩, fun hk => ?_⟩
  obtain ⟨hk₁, hq⟩ := hback hk
  exact ⟨hk₁.step hstep, l, e₁, ⟨hpos, hhidden, hstep.loops⟩, hq⟩

theorem mark {l : Nat} (xs : List Nat) {ys : List Nat} :
    Places fin (xs ++ l :: ys) (xs ++ ys) (Emit.mark l) fun e _ e' =>
      (e'.pos = e.pos ∧ e'.hidden = e.hidden ∧ e'.loops = e.loops) ∧
      fin.writer.labels[l]? = some (some e.pos) ∧ e.pos ≤ fin.pos := by
  intro a e v e' hs hnodup hfresh ha h
  obtain ⟨hs', hother, hpos, hhidden, hloops, hback⟩ := mark_ok fin h hs
  have hperm : (xs ++ l :: ys).Perm (l :: (xs ++ ys)) := List.perm_middle
  obtain ⟨hnot, hrest⟩ := List.nodup_cons.mp (hperm.nodup hnodup)
  refine ⟨⟨hs', hrest, fun k hk => ?_, by omega⟩, fun hk => ?_⟩
  · refine hother k (hfresh k (hperm.mem_iff.mpr (List.mem_cons_of_mem l hk))) ?_
    rintro rfl
    exact hnot hk
  · obtain ⟨hk₁, hl⟩ := hback a (hfresh l (by simp)) hk
    exact ⟨hk₁, ⟨hpos, hhidden, hloops⟩, hl, hk₁.size⟩

end Places

end Labels

section

variable {L : Layout} (hf : Finished fin L)

include hf

theorem jump_lands (l : Nat) :
    Lays fin (jump .jump l) fun e _ e' => e'.hidden = e.hidden ∧
      ∀ t, fin.writer.labels[l]? = some (some t) → t ≤ fin.pos → L.Jump e.pos e'.pos t := by
  refine (jump_lays hf (i := .jump) l rfl fun p n h => by simp [Instr.read?, h]).imp ?_
  rintro e v e' - ⟨hhidden, n, t', hat, hn, hl'⟩
  refine ⟨hhidden, fun t hl ht => ?_⟩
  rw [hl] at hl'
  cases hl'
  exact ⟨n, hat, hn, by rw [hf.size]; exact ht⟩

theorem jumpIf_lands (on : Bool) (l : Nat) :
    Lays fin (jump (if on then .jumpIfTrue else .jumpIfFalse) l) fun e _ e' =>
      e'.hidden = e.hidden ∧
      ∀ t, fin.writer.labels[l]? = some (some t) → t ≤ fin.pos → L.JumpIf on e.pos e'.pos t := by
  have hjump := jump_lays hf (o := if on then .jumpIfTrue else .jumpIfFalse) (i := .jumpIf on) l
    (by cases on <;> rfl) fun p n hp => by cases on <;> simp [Instr.read?, hp]
  refine hjump.imp ?_
  rintro e v e' - ⟨hhidden, n, t', hat, hn, hl'⟩
  refine ⟨hhidden, fun t hl ht => ?_⟩
  rw [hl] at hl'
  cases hl'
  exact ⟨n, hat, hn, by rw [hf.size]; exact ht⟩

-- The two ways to leave out the second operand of a logical operator.
theorem shortCircuit_coded {lhs rhs check : Emit Unit} {R S C : Nat → Nat → Prop} (on : Bool)
    (hl : Coded fin lhs R) (hr : Coded fin rhs S) (hc : Coded fin check C) :
    Coded fin (do
      let skip ← newLabel
      let done ← newLabel
      lhs
      jump (if on then .jumpIfTrue else .jumpIfFalse) skip
      rhs
      check
      jump .jump done
      mark skip
      op (if on then .pushTrue else .pushFalse)
      mark done) fun p q => ∃ q₁ q₂ q₃ q₄ q₅, R p q₁ ∧ L.JumpIf on q₁ q₂ q₅ ∧ S q₂ q₃ ∧ C q₃ q₄ ∧
        L.Jump q₄ q₅ q ∧ L.At q₅ (.pushBool on) q := by
  have hop : Coded fin (op (if on then .pushTrue else .pushFalse))
      fun p q => L.At p (.pushBool on) q := by
    cases on with
    | true => exact .op hf rfl fun _ => rfl
    | false => exact .op hf rfl fun _ => rfl
  have hplaces : Places fin [] [] _ _ := .newLabel fun skip => .newLabel fun done =>
    (Places.of_lays hl).bind fun _ => (Places.of_lays (jumpIf_lands hf on skip)).bind fun _ =>
    (Places.of_lays hr).bind fun _ => (Places.of_lays hc).bind fun _ =>
    (Places.of_lays (jump_lands hf done)).bind fun _ => (Places.mark [done]).bind fun _ =>
    (Places.of_lays hop).bind fun _ => Places.mark (l := done) []
  refine (hplaces.lays fun n => ?_).imp ?_
  · exact .newLabel fun skip hskip => .newLabel fun done hdone => (hl.grows n).bind fun _ =>
      (Grows.jump _ skip).bind fun _ => (hr.grows n).bind fun _ => (hc.grows n).bind fun _ =>
      (Grows.jump _ done).bind fun _ => (Grows.mark hskip).bind fun _ =>
      (hop.grows n).bind fun _ => Grows.mark hdone
  rintro e v e' - ⟨skip, e₁, ⟨p₁, k₁, -⟩, done, e₂, ⟨p₂, k₂, -⟩, _, e₃, ⟨hlhs, k₃⟩, _, e₄, ⟨k₄, hskip⟩,
    _, e₅, ⟨hrhs, k₅⟩, _, e₆, ⟨hcheck, k₆⟩, _, e₇, ⟨k₇, hdone⟩, _, e₈, ⟨⟨p₈, k₈, -⟩, l₈, b₈⟩,
    _, e₉, ⟨hpush, k₉⟩, ⟨p₁₀, k₁₀, -⟩, l₁₀, b₁₀⟩
  rw [p₂, p₁] at hlhs
  rw [p₈, ← p₁₀] at hpush
  rw [← p₁₀] at l₁₀ b₁₀
  refine ⟨⟨e₃.pos, e₄.pos, e₅.pos, e₆.pos, e₇.pos, hlhs, hskip _ l₈ b₈, hrhs, hcheck,
    hdone _ l₁₀ b₁₀, hpush⟩, ?_⟩
  rw [k₁₀, k₉, k₈, k₇, k₆, k₅, k₄, k₃, k₂, k₁]

theorem binary_coded (o : BinaryOp) (lhs rhs : Ty) :
    Coded fin (binary o lhs rhs) fun p q =>
      L.At p (Layout.binaryInstr o (lhs.isNumeric && rhs.isNumeric)) q := by
  refine Coded.quiet ?_ (.popped 1)
  generalize (lhs.isNumeric && rhs.isNumeric) = numeric
  cases o with
  | arith a => cases a <;> cases numeric <;> exact .op hf rfl fun _ => rfl
  | order a => cases a <;> cases numeric <;> exact .op hf rfl fun _ => rfl
  | _ => cases numeric <;> exact .op hf rfl fun _ => rfl

theorem unary_coded (o : UnaryOp) (ty : Ty) :
    Coded fin (match o with
      | .neg => op (if ty.isNumeric then .negNum else .neg)
      | .not => op .not : Emit Unit) fun p q => L.At p (Layout.unaryInstr o ty.isNumeric) q := by
  cases o with
  | neg => cases ty.isNumeric <;> exact .op hf rfl fun _ => rfl
  | not => exact .op hf rfl fun _ => rfl

end

mutual

theorem expr_coded {L : Layout} (hf : Finished fin L) (env : EmitEnv)
    (hr : env.registry = L.registry) (hs : env.symbols = L.symbols) (e : Expr) (he : e.Plain) :
    Coded fin (expr env e) (ExprCode L e) := by
  cases e with
  | literal m value => exact (literal_coded hf value).imp fun _ _ => .literal
  | name m x => exact (load_coded hf env hs he m.offset).imp fun _ _ => .name
  | static m name args binding =>
      cases binding with
      | const value => exact (literal_coded hf value).imp fun _ _ => .const
      | method id =>
          have hcall : Coded fin (member .invokeStatic id) fun p q =>
              L.At p (.invokeStatic (Int32.ofNat id)) q :=
            .member hf rfl fun p h => by simp [Instr.read?, h]
          refine ((exprs_coded hf env hr hs args he).andThen ((guardArgs_coded hf env _ args _).andThen
            (hcall.quiet ((Coded.popped _).quiet (.pushed 1))))).imp ?_
          rintro p q ⟨q₁, hargs, q₂, hguards, hat⟩
          exact .staticMethod hargs (hr ▸ hguards) hat
      | property id =>
          have hget : Coded fin (member .getStaticProperty id) fun p q =>
              L.At p (.getStaticProperty (Int32.ofNat id)) q :=
            .member hf rfl fun p h => by simp [Instr.read?, h]
          exact (hget.quiet (.pushed 1)).imp fun _ _ => .staticProperty
      | unresolved => exact .fail _ _
  | member m target name args binding =>
      have htarget := expr_coded hf env hr hs target he.1
      have hargs := exprs_coded hf env hr hs args he.2
      cases binding with
      | method id =>
          have hcall : Coded fin (member .invoke id) fun p q =>
              L.At p (.invoke (Int32.ofNat id)) q :=
            .member hf rfl fun p h => by simp [Instr.read?, h]
          refine (htarget.andThen (hargs.andThen ((guardArgs_coded hf env _ args _).andThen
            (hcall.quiet ((Coded.popped _).quiet (.pushed 1)))))).imp ?_
          rintro p q ⟨q₀, htarget, q₁, hargs, q₂, hguards, hat⟩
          exact .method htarget hargs (hr ▸ hguards) hat
      | property id =>
          have hget : Coded fin (member .getProperty id) fun p q =>
              L.At p (.getProperty (Int32.ofNat id)) q :=
            .member hf rfl fun p h => by simp [Instr.read?, h]
          refine (htarget.andThen (hget.quiet ((Coded.popped 1).quiet (.pushed 1)))).imp ?_
          rintro p q ⟨q₀, htarget, hat⟩
          exact .property htarget hat
      | dynamic =>
          cases args with
          | nil =>
              have hget : ∀ n, Coded fin (write (·.emitU16 .getDynamicProperty n)) fun p q =>
                  L.At p (.getDynamicProperty n) q := fun n =>
                .append hf (fun w => w.emitU16_eq _ n) (length_bytesOf 2 _) fun p h => by
                  simp [Instr.read?, Bytes.u16?_of_holds h]
              refine (htarget.andThen (text_coded hf fun n =>
                (hget n).quiet ((Coded.popped 1).quiet (.pushed 1)))).imp ?_
              rintro p q ⟨q₀, htarget, n, htext, hat⟩
              exact .read htarget htext hat
          | cons arg rest =>
              have hcall : ∀ n, Coded fin (do
                  exprs env (arg :: rest)
                  if (arg :: rest).length ≥ 65536 then fail .tooManyArguments m.offset
                  write (·.emitU16Pair .invokeDynamic n (UInt16.ofNat (arg :: rest).length))
                  popped ((arg :: rest).length + 1)
                  pushed 1) fun p q => (arg :: rest).length < 65536 ∧ ∃ q₁,
                    ExprsCode L (arg :: rest) p q₁ ∧
                    L.At q₁ (.invokeDynamic n (UInt16.ofNat (arg :: rest).length)) q := by
                intro n
                have hlast := (Coded.callNamed hf n (UInt16.ofNat (arg :: rest).length)).quiet
                  ((Coded.popped ((arg :: rest).length + 1)).quiet (.pushed 1))
                have hguarded : Coded fin (do
                    if (arg :: rest).length ≥ 65536 then fail .tooManyArguments m.offset
                    write (·.emitU16Pair .invokeDynamic n (UInt16.ofNat (arg :: rest).length))
                    popped ((arg :: rest).length + 1)
                    pushed 1) fun p q => (arg :: rest).length < 65536 ∧
                      L.At p (.invokeDynamic n (UInt16.ofNat (arg :: rest).length)) q := by
                  simp only
                  split
                  · exact (Coded.fail (R := fun _ _ => False) _ _).seq hlast fun _ _ _ h => h.elim
                  · exact hlast.imp fun _ _ hat => ⟨by omega, hat⟩
                refine (hargs.andThen hguarded).imp ?_
                rintro p q ⟨q₁, h₁, hlen, hat⟩
                exact ⟨hlen, q₁, h₁, hat⟩
              refine (htarget.andThen (text_coded hf hcall)).imp ?_
              rintro p q ⟨q₀, htarget, n, htext, hlen, q₁, hargs, hat⟩
              exact .call (by simp) hlen htarget hargs htext hat
      | unresolved => exact .fail _ _
  | new m typeName args binding =>
      cases binding with
      | some id =>
          have hcall : Coded fin (member .new id) fun p q => L.At p (.new (Int32.ofNat id)) q :=
            .member hf rfl fun p h => by simp [Instr.read?, h]
          refine ((exprs_coded hf env hr hs args he).andThen ((guardArgs_coded hf env _ args _).andThen
            (hcall.quiet ((Coded.popped _).quiet (.pushed 1))))).imp ?_
          rintro p q ⟨q₁, hargs, q₂, hguards, hat⟩
          exact .new hargs (hr ▸ hguards) hat
      | none => exact .fail _ _
  | binary m o lhs rhs =>
      have hl := expr_coded hf env hr hs lhs he.1
      have hright := expr_coded hf env hr hs rhs he.2
      cases o with
      | and =>
          refine (shortCircuit_coded hf false hl hright (checkTop_coded hf env _ _ _)).imp ?_
          rintro p q ⟨q₁, q₂, q₃, q₄, q₅, h₁, h₂, h₃, h₄, h₅, h₆⟩
          exact .and h₁ h₂ h₃ h₄ h₅ h₆
      | or =>
          refine (shortCircuit_coded hf true hl hright (checkTop_coded hf env _ _ _)).imp ?_
          rintro p q ⟨q₁, q₂, q₃, q₄, q₅, h₁, h₂, h₃, h₄, h₅, h₆⟩
          exact .or h₁ h₂ h₃ h₄ h₅ h₆
      | _ =>
          refine (hl.andThen (hright.andThen (binary_coded hf _ lhs.ty rhs.ty))).imp ?_
          rintro p q ⟨q₁, h₁, q₂, h₂, hat⟩
          exact .binary (by simp) (by simp) h₁ h₂ hat
  | unary m o operand =>
      unfold expr
      split
      · rename_i value hfold
        exact (literal_coded hf value).imp fun _ _ => .folded hfold
      · rename_i hfold
        refine ((expr_coded hf env hr hs operand he).andThen (unary_coded hf o operand.ty)).imp ?_
        rintro p q ⟨q₁, h₁, hat⟩
        exact .unary hfold h₁ hat
  | cast m typeName operand => exact .fail _ _

theorem exprs_coded {L : Layout} (hf : Finished fin L) (env : EmitEnv)
    (hr : env.registry = L.registry) (hs : env.symbols = L.symbols) (es : List Expr)
    (hes : Expr.AllPlain es) : Coded fin (exprs env es) (ExprsCode L es) := by
  cases es with
  | nil => exact (Coded.pure ()).imp fun p q h => h ▸ .nil
  | cons e rest =>
      exact (expr_coded hf env hr hs e hes.1).seq (exprs_coded hf env hr hs rest hes.2)
        fun _ _ _ => .cons

end

end Emit

end HostScript
