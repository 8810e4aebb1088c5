import HostScript.Compile.Emit
import HostScript.Proofs.Code.Codec
import HostScript.Proofs.Script.Names
import HostScript.Proofs.Stateful
import Std.Data.String.ToNat

namespace HostScript

-- The names of the compiler's own variables: what one is for, and a number of its own.
def hiddenName (what : String) (k : Nat) : String :=
  s!"${what}{k}"

def hiddenWords : List String :=
  ["limit", "index", "iter", "count"]

theorem toList_hiddenName (what : String) (k : Nat) :
    (hiddenName what k).toList = '$' :: (what.toList ++ k.repr.toList) := by
  simp [hiddenName, ToString.toString]

theorem not_plainName_hiddenName (what : String) (k : Nat) : ¬PlainName (hiddenName what k) := by
  simp [PlainName, toList_hiddenName]

theorem hiddenName_inj {what what' : String} {k k' : Nat} (hw : what ∈ hiddenWords)
    (hw' : what' ∈ hiddenWords) (h : hiddenName what k = hiddenName what' k') :
    what = what' ∧ k = k' := by
  have hlist := congrArg String.toList h
  simp only [toList_hiddenName, List.cons.injEq, true_and] at hlist
  have hsame : what = what' := by
    simp only [hiddenWords, List.mem_cons, List.not_mem_nil, or_false] at hw hw'
    rcases hw with rfl | rfl | rfl | rfl <;> rcases hw' with rfl | rfl | rfl | rfl <;>
      first | rfl | simp at hlist
  subst hsame
  exact ⟨rfl, Nat.repr_injective (String.toList_injective (List.append_cancel_left hlist))⟩

namespace Writer

variable (w : Writer)

-- Every instruction is written by appending its bytes.
theorem code_append (bytes : List UInt8) : (w.append bytes).code = w.code ++ bytes.toArray := by
  simp [append]

theorem emit_eq (op : Opcode) : w.emit op = w.append [op.byte] := rfl

theorem emitU8_eq (op : Opcode) (n : UInt8) : w.emitU8 op n = w.append [op.byte, n] := rfl

theorem emitU16_eq (op : Opcode) (n : UInt16) :
    w.emitU16 op n = w.append (op.byte :: bytesOf 2 n.toNat) := rfl

theorem emitU16Pair_eq (op : Opcode) (m n : UInt16) :
    w.emitU16Pair op m n = w.append (op.byte :: (bytesOf 2 m.toNat ++ bytesOf 2 n.toNat)) := rfl

theorem emitI32_eq (op : Opcode) (n : Int32) :
    w.emitI32 op n = w.append (op.byte :: bytesOfI32 n) := rfl

theorem emitI32Pair_eq (op : Opcode) (m n : Int32) :
    w.emitI32Pair op m n = w.append (op.byte :: (bytesOfI32 m ++ bytesOfI32 n)) := rfl

theorem emitLong_eq (n : Int64) :
    w.emitLong n = w.append (Opcode.pushLong.byte :: bytesOfI64 n) := rfl

theorem emitDouble_eq (x : Float) :
    w.emitDouble x = w.append (Opcode.pushDouble.byte :: bytesOfFloat x) := rfl

theorem size_overwrite (code : Bytes) (pos : Nat) (bytes : List UInt8) :
    (overwrite code pos bytes).size = code.size := by
  induction bytes generalizing code pos with
  | nil => rfl
  | cons b rest ih => simp [overwrite, ih]

theorem getElem?_overwrite_of_lt {code : Bytes} {pos i : Nat} {bytes : List UInt8} (hi : i < pos) :
    (overwrite code pos bytes)[i]? = code[i]? := by
  induction bytes generalizing code pos with
  | nil => rfl
  | cons b rest ih =>
      rw [overwrite, ih (by omega), Array.getElem?_setIfInBounds_ne (by omega)]

theorem getElem?_overwrite_of_ge {code : Bytes} {pos i : Nat} {bytes : List UInt8}
    (hi : pos + bytes.length ≤ i) : (overwrite code pos bytes)[i]? = code[i]? := by
  induction bytes generalizing code pos with
  | nil => rfl
  | cons b rest ih =>
      simp only [List.length_cons] at hi
      rw [overwrite, ih (by omega), Array.getElem?_setIfInBounds_ne (by omega)]

theorem holds_overwrite {code : Bytes} {pos : Nat} {bytes : List UInt8}
    (hroom : pos + bytes.length ≤ code.size) : (overwrite code pos bytes).Holds pos bytes := by
  induction bytes generalizing code pos with
  | nil => trivial
  | cons b rest ih =>
      simp only [List.length_cons] at hroom
      refine ⟨?_, ih (by simp; omega)⟩
      rw [overwrite, getElem?_overwrite_of_lt (by omega)]
      exact Array.getElem?_setIfInBounds_self_of_lt (by omega)

end Writer

-- Operands that wait for a label lie between two positions, one behind the other.
structure Fits (lo hi : Nat) (patches : List (Nat × Nat)) : Prop where
  within : ∀ x ∈ patches, lo ≤ x.1 ∧ x.1 + 4 ≤ hi
  apart : patches.Pairwise fun x y => x.1 + 4 ≤ y.1

namespace Fits

theorem nil (lo hi : Nat) : Fits lo hi [] :=
  ⟨by simp, .nil⟩

theorem append {lo mid hi : Nat} {xs ys : List (Nat × Nat)} (hx : Fits lo mid xs)
    (hy : Fits mid hi ys) (hlo : lo ≤ mid) (hhi : mid ≤ hi) : Fits lo hi (xs ++ ys) := by
  refine ⟨fun x hmem => ?_, List.pairwise_append.mpr ⟨hx.apart, hy.apart, fun x hxm y hym => ?_⟩⟩
  · rcases List.mem_append.mp hmem with h | h
    · have := hx.within x h
      omega
    · have := hy.within x h
      omega
  · have h₁ := hx.within x hxm
    have h₂ := hy.within y hym
    omega

end Fits

namespace Emitter

-- Where the next instruction will stand.
def pos (e : Emitter) : Nat :=
  e.writer.code.size

-- What holds of texts and variables at any point: the index finds the texts, nothing is entered
-- twice or beyond the last place, and all names are plain ones or hidden ones given out before.
structure Tidy (e : Emitter) : Prop where
  pool : ∀ (s : String) (i : Nat), e.strings.index[s]? = some i → e.strings.strings[i]? = some s
  texts : e.strings.strings.size ≤ 65536
  room : e.slots.length ≤ 256
  nodup : e.slots.Nodup
  named : ∀ name ∈ e.slots, PlainName name ∨
    ∃ what k, what ∈ hiddenWords ∧ k ≤ e.hidden ∧ name = hiddenName what k

-- What a part of the work may change. Code that was written stays, and so do the first `n` labels.
structure Ext (n : Nat) (e e' : Emitter) : Prop where
  size : e.pos ≤ e'.pos
  code : ∀ i, i < e.pos → e'.writer.code[i]? = e.writer.code[i]?
  labelCount : e.writer.labels.size ≤ e'.writer.labels.size
  labels : ∀ l, l < n → e'.writer.labels[l]? = e.writer.labels[l]?
  patches : ∃ new, e'.writer.patches.toList = e.writer.patches.toList ++ new ∧ Fits e.pos e'.pos new
  strings : e.strings.strings.toList <+: e'.strings.strings.toList
  slots : e.slots <+: e'.slots
  loops : e'.loops = e.loops
  hidden : e.hidden ≤ e'.hidden
  tidy : e.Tidy → e'.Tidy

namespace Ext

variable {n : Nat} {e e₁ e₂ : Emitter}

theorem refl (n : Nat) (e : Emitter) : Ext n e e :=
  { size := Nat.le_refl _
    code := fun _ _ => rfl
    labelCount := Nat.le_refl _
    labels := fun _ _ => rfl
    patches := ⟨[], by simp, .nil _ _⟩
    strings := List.prefix_rfl
    slots := List.prefix_rfl
    loops := rfl
    hidden := Nat.le_refl _
    tidy := id }

theorem trans (h₁ : Ext n e e₁) (h₂ : Ext n e₁ e₂) : Ext n e e₂ := by
  obtain ⟨new₁, hp₁, hf₁⟩ := h₁.patches
  obtain ⟨new₂, hp₂, hf₂⟩ := h₂.patches
  exact
    { size := Nat.le_trans h₁.size h₂.size
      code := fun i hi => (h₂.code i (Nat.lt_of_lt_of_le hi h₁.size)).trans (h₁.code i hi)
      labelCount := Nat.le_trans h₁.labelCount h₂.labelCount
      labels := fun l hl => (h₂.labels l hl).trans (h₁.labels l hl)
      patches := ⟨new₁ ++ new₂, by simp [hp₂, hp₁], hf₁.append hf₂ h₁.size h₂.size⟩
      strings := h₁.strings.trans h₂.strings
      slots := h₁.slots.trans h₂.slots
      loops := h₂.loops.trans h₁.loops
      hidden := Nat.le_trans h₁.hidden h₂.hidden
      tidy := h₂.tidy ∘ h₁.tidy }

theorem weaken {k : Nat} (h : Ext n e e₁) (hk : k ≤ n) : Ext k e e₁ :=
  { h with labels := fun l hl => h.labels l (Nat.lt_of_lt_of_le hl hk) }

-- Changes to the height of the stack are not part of the code.
theorem of_same (hw : e₁.writer = e.writer) (hs : e₁.strings = e.strings)
    (hn : e₁.slots = e.slots) (hl : e₁.loops = e.loops) (hh : e₁.hidden = e.hidden) :
    Ext n e e₁ := by
  cases e
  cases e₁
  simp only at hw hs hn hl hh
  subst hw hs hn hl hh
  exact { refl n _ with tidy := fun h => { h with } }

theorem append (n : Nat) (e : Emitter) (bytes : List UInt8) :
    Ext n e { e with writer := e.writer.append bytes } := by
  refine
    { refl n e with
      size := by simp [pos, Writer.code_append]
      code := fun i hi => ?_
      patches := ⟨[], by simp [Writer.append], .nil _ _⟩
      tidy := fun h => { h with } }
  rw [Writer.code_append]
  exact Array.getElem?_append_left hi

-- An operand may be filled in where the code was written since.
theorem patchI32 (h : Ext n e e₁) {at_ : Nat} (hpos : e.pos ≤ at_) (k : Int32) :
    Ext n e { e₁ with writer := e₁.writer.patchI32 at_ k } := by
  have hsize : (e₁.writer.patchI32 at_ k).code.size = e₁.writer.code.size :=
    Writer.size_overwrite _ _ _
  obtain ⟨new, hnew, hfits⟩ := h.patches
  refine
    { h with
      size := by simpa only [pos, hsize] using h.size
      code := fun i hi => ?_
      patches := ⟨new, hnew, by simpa only [pos, hsize] using hfits⟩
      tidy := fun ht => { h.tidy ht with } }
  exact (Writer.getElem?_overwrite_of_lt (by omega)).trans (h.code i hi)

end Ext

end Emitter

-- A new name behind the others.
theorem Emitter.Tidy.enter {e : Emitter} {name : String} (h : e.Tidy)
    (hnone : e.slots.idxOf? name = none) (hroom : e.slots.length < 256)
    (hname : PlainName name ∨
      ∃ what k, what ∈ hiddenWords ∧ k ≤ e.hidden ∧ name = hiddenName what k) :
    Tidy { e with slots := e.slots ++ [name] } := by
  refine { h with
    room := by simp; omega
    nodup := ?_
    named := fun other hmem => ?_ }
  · rw [List.nodup_append]
    have hmem : name ∉ e.slots := by simpa [List.idxOf?_eq_none_iff] using hnone
    refine ⟨h.nodup, by simp, fun a ha b hb => ?_⟩
    cases List.mem_singleton.mp hb
    exact fun heq => hmem (heq ▸ ha)
  · rcases List.mem_append.mp hmem with hold | hnew
    · exact h.named other hold
    · cases List.mem_singleton.mp hnew
      exact hname

theorem StringPool.intern_spec {p p' : StringPool} {s : String} {i : Nat}
    (h : p.intern s = (.ok i, p')) :
    p.strings.toList <+: p'.strings.toList ∧
    ((∀ (t : String) (k : Nat), p.index[t]? = some k → p.strings[k]? = some t) →
      ∀ (t : String) (k : Nat), p'.index[t]? = some k → p'.strings[k]? = some t) ∧
    (p.strings.size ≤ 65536 → p'.strings.size ≤ 65536) ∧
    p'.index[s]? = some i := by
  unfold intern at h
  split at h
  · rename_i hfound
    cases h
    exact ⟨List.prefix_rfl, id, id, hfound⟩
  · simp only at h
    split at h
    · rename_i hroom
      cases h
      refine ⟨by simp, fun hpool t k hk => ?_, fun _ => by simp; omega, by simp⟩
      simp only [Std.TreeMap.getElem?_insert] at hk
      split at hk
      · rename_i heq
        cases hk
        simpa using heq
      · have hold := hpool t k hk
        have hlt : k < p.strings.size := by
          obtain ⟨hlt, -⟩ := Array.getElem?_eq_some_iff.mp hold
          exact hlt
        rw [Array.getElem?_push_lt hlt]
        rw [Array.getElem?_eq_getElem hlt] at hold
        exact hold
    · cases h

namespace Emit

open Emitter

theorem intern_ok {s : String} {e e' : Emitter} {n : UInt16} (h : intern s e = .ok (n, e')) :
    ∃ i p, e.strings.intern s = (.ok i, p) ∧ n = UInt16.ofNat i ∧ e' = { e with strings := p } := by
  obtain ⟨_, _, h₁, h₂⟩ := bind_ok.mp h
  cases get_ok.mp h₁
  cases hp : e.strings.intern s with
  | mk outcome p =>
      rw [hp] at h₂
      cases outcome with
      | error d => exact (throw_ok.mp h₂).elim
      | ok i =>
          obtain ⟨_, _, h₃, h₄⟩ := bind_ok.mp h₂
          cases set_ok.mp h₃
          cases pure_ok.mp h₄
          exact ⟨i, p, rfl, rfl, rfl⟩

theorem slot_ok {name : String} {offset : Nat} {e e' : Emitter} {n : UInt8}
    (h : slot name offset e = .ok (n, e')) :
    (∃ i, e.slots.idxOf? name = some i ∧ n = UInt8.ofNat i ∧ e' = e) ∨
    (e.slots.idxOf? name = none ∧ e.slots.length < 256 ∧ n = UInt8.ofNat e.slots.length ∧
      e' = { e with slots := e.slots ++ [name] }) := by
  obtain ⟨_, _, h₁, h₂⟩ := bind_ok.mp h
  cases get_ok.mp h₁
  cases hi : e.slots.idxOf? name with
  | some i =>
      rw [hi] at h₂
      cases pure_ok.mp h₂
      exact .inl ⟨i, rfl, rfl, rfl⟩
  | none =>
      rw [hi] at h₂
      simp only at h₂
      split at h₂
      · rename_i hroom
        obtain ⟨_, _, h₃, h₄⟩ := bind_ok.mp h₂
        cases set_ok.mp h₃
        cases pure_ok.mp h₄
        exact .inr ⟨rfl, hroom, rfl, rfl⟩
      · exact (throw_ok.mp h₂).elim

-- How the code in front of the body of a machine's loop is written, and where the length of the
-- body has to be filled in.
inductive LoopHead (env : EmitEnv) (count : Expr) (e : Emitter) : Nat → Emitter → Prop
  | literal {n : Int32} : literalCount? count = some n →
      LoopHead env count e (e.pos + 1 + 4) { e with writer := e.writer.emitI32Pair .loop n 0 }
  | computed {e₁ e₂ : Emitter} : literalCount? count = none → expr env count e = .ok ((), e₁) →
      checkTop env .double count.ty count.offset e₁ = .ok ((), e₂) →
      LoopHead env count e (e₂.pos + 1)
        { e₂ with depth := e₂.depth - 1, writer := e₂.writer.emitI32 .loopNum 0 }

theorem position_ok {e : Emitter} {r : Nat × Emitter} (h : position e = .ok r) :
    r = (e.pos, e) := by
  obtain ⟨_, _, h₁, h₂⟩ := bind_ok.mp h
  cases get_ok.mp h₁
  exact pure_ok.mp h₂

theorem loopBody_ok {body : Emit Unit} {lengthAt offset : Nat} {e e' : Emitter}
    (h : (do
      let start ← position
      body
      let length := (← position) - start
      if length ≥ 2147483648 then fail .largeLoop offset
      write (·.patchI32 lengthAt (Int32.ofNat length)) : Emit Unit) e = .ok ((), e')) :
    ∃ e₁, body e = .ok ((), e₁) ∧ e₁.pos - e.pos < 2147483648 ∧
      e' = { e₁ with writer := e₁.writer.patchI32 lengthAt (Int32.ofNat (e₁.pos - e.pos)) } := by
  obtain ⟨_, _, h₁, h₂⟩ := bind_ok.mp h
  cases position_ok h₁
  obtain ⟨_, e₁, h₃, h₄⟩ := bind_ok.mp h₂
  obtain ⟨_, _, h₅, h₆⟩ := bind_ok.mp h₄
  cases position_ok h₅
  simp only at h₆
  split at h₆
  · obtain ⟨_, _, h₇, -⟩ := bind_ok.mp h₆
    exact (throw_ok.mp h₇).elim
  · rename_i hlength
    cases modify_ok.mp h₆
    exact ⟨e₁, h₃, by omega, rfl⟩

theorem machineLoop_ok {env : EmitEnv} {count : Expr} {body : Emit Unit} {offset : Nat}
    {e e' : Emitter} (h : machineLoop env count body offset e = .ok ((), e')) :
    ∃ lengthAt e₁ e₂, LoopHead env count e lengthAt e₁ ∧ body e₁ = .ok ((), e₂) ∧
      e₂.pos - e₁.pos < 2147483648 ∧
      e' = { e₂ with writer := e₂.writer.patchI32 lengthAt (Int32.ofNat (e₂.pos - e₁.pos)) } := by
  unfold machineLoop at h
  cases hcount : literalCount? count with
  | some n =>
      rw [hcount] at h
      obtain ⟨_, _, h₁, h₂⟩ := bind_ok.mp h
      cases position_ok h₁
      obtain ⟨_, _, h₃, h₄⟩ := bind_ok.mp h₂
      cases modify_ok.mp h₃
      rw [pure_bind] at h₄
      obtain ⟨e₂, hbody⟩ := loopBody_ok h₄
      exact ⟨_, _, e₂, .literal hcount, hbody⟩
  | none =>
      rw [hcount] at h
      obtain ⟨_, e₁, h₁, h₂⟩ := bind_ok.mp h
      obtain ⟨_, e₂, h₃, h₄⟩ := bind_ok.mp h₂
      obtain ⟨_, _, h₅, h₆⟩ := bind_ok.mp h₄
      cases modify_ok.mp h₅
      obtain ⟨_, _, h₇, h₈⟩ := bind_ok.mp h₆
      cases position_ok h₇
      obtain ⟨_, _, h₉, h₁₀⟩ := bind_ok.mp h₈
      cases modify_ok.mp h₉
      rw [pure_bind] at h₁₀
      obtain ⟨e₃, hbody⟩ := loopBody_ok h₁₀
      exact ⟨_, _, e₃, .computed hcount h₁ h₃, hbody⟩

-- Work that only adds to what is there, and binds no label below `n`.
def Grows {α : Type} (n : Nat) (x : Emit α) : Prop :=
  ∀ e a e', n ≤ e.writer.labels.size → x e = .ok (a, e') → Ext n e e'

namespace Grows

variable {n : Nat} {α β : Type}

theorem pure (a : α) : Grows n (Pure.pure a : Emit α) := by
  intro e b e' _ h
  cases pure_ok.mp h
  exact .refl n e

theorem fail (problem : Diagnostic.Problem) (offset : Nat) :
    Grows n (Emit.fail problem offset : Emit α) := by
  intro e a e' _ h
  exact (throw_ok.mp h).elim

theorem bind {x : Emit α} {f : α → Emit β} (hx : Grows n x) (hf : ∀ a, Grows n (f a)) :
    Grows n (x >>= f) := by
  intro e b e' hn h
  obtain ⟨a, e₁, h₁, h₂⟩ := bind_ok.mp h
  have hext := hx e a e₁ hn h₁
  exact hext.trans (hf a e₁ b e' (Nat.le_trans hn hext.labelCount) h₂)

theorem get : Grows n (MonadState.get : Emit Emitter) := by
  intro e a e' _ h
  cases get_ok.mp h
  exact .refl n e

theorem append {f : Writer → Writer} {bytes : Writer → List UInt8}
    (hf : ∀ w, f w = w.append (bytes w)) : Grows n (write f) := by
  intro e a e' _ h
  cases modify_ok.mp h
  rw [hf]
  exact .append n e _

theorem pushed (k : Nat) : Grows n (Emit.pushed k) := by
  intro e a e' _ h
  cases modify_ok.mp h
  exact .of_same rfl rfl rfl rfl rfl

theorem popped (k : Nat) : Grows n (Emit.popped k) := by
  intro e a e' _ h
  cases modify_ok.mp h
  exact .of_same rfl rfl rfl rfl rfl

theorem op (o : Opcode) : Grows n (Emit.op o) :=
  append fun w => w.emit_eq o

-- A new label lies above all labels known before.
theorem newLabel {f : Nat → Emit β} (hf : ∀ l, n ≤ l → Grows n (f l)) :
    Grows n (Emit.newLabel >>= f) := by
  intro e b e' hn h
  obtain ⟨l, e₁, h₁, h₂⟩ := bind_ok.mp h
  cases h₁
  have hext : Ext n e { e with writer := e.writer.newLabel.2 } :=
    { Ext.refl n e with
      labelCount := by simp [Writer.newLabel]
      labels := fun l hl => by
        simp only [Writer.newLabel]
        rw [Array.getElem?_push_lt (by omega)]
        exact (Array.getElem?_eq_getElem _).symm
      tidy := fun h => { h with } }
  exact hext.trans (hf _ hn _ b e' (Nat.le_trans hn hext.labelCount) h₂)

theorem mark {l : Nat} (hl : n ≤ l) : Grows n (Emit.mark l) := by
  intro e a e' _ h
  cases modify_ok.mp h
  exact
    { Ext.refl n e with
      labelCount := by simp [Writer.mark]
      labels := fun k hk => by
        simp only [Writer.mark]
        exact Array.getElem?_setIfInBounds_ne (by omega)
      tidy := fun h => { h with } }

theorem emitJump (o : Opcode) (l : Nat) : Grows n (Emit.write (·.emitJump o l)) := by
  intro e a e' _ h
  cases modify_ok.mp h
  have hcode : (e.writer.emitJump o l).code =
      e.writer.code ++ (o.byte :: bytesOfI32 0).toArray := Writer.code_append _ _
  refine
    { Ext.refl n e with
      size := by simp [pos, hcode]
      code := fun i hi => by rw [hcode]; exact Array.getElem?_append_left hi
      patches := ⟨[(e.writer.operandPosition, l)],
        by simp [Writer.emitJump, Writer.emitI32_eq, Writer.append], ?_⟩
      tidy := fun h => { h with } }
  refine ⟨fun x hx => ?_, List.pairwise_singleton _ _⟩
  cases List.mem_singleton.mp hx
  simp [pos, hcode, Writer.operandPosition, Writer.position, bytesOfI32, length_bytesOf]

theorem jump (o : Opcode) (l : Nat) : Grows n (Emit.jump o l) := by
  refine (emitJump o l).bind fun _ => ?_
  split
  · exact popped 1
  · exact pure _

theorem intern (s : String) : Grows n (Emit.intern s) := by
  intro e a e' _ h
  obtain ⟨i, p, hp, -, rfl⟩ := intern_ok h
  obtain ⟨hstrings, hpool, htexts, -⟩ := StringPool.intern_spec hp
  exact
    { Ext.refl n e with
      strings := hstrings
      tidy := fun h => { h with pool := hpool h.pool, texts := htexts h.texts } }

theorem slot {name : String} (hname : PlainName name) (offset : Nat) :
    Grows n (Emit.slot name offset) := by
  intro e a e' _ h
  rcases slot_ok h with ⟨i, -, -, rfl⟩ | ⟨hnone, hroom, -, rfl⟩
  · exact .refl n _
  · exact
      { Ext.refl n e with
        slots := List.prefix_append _ _
        tidy := fun h => h.enter hnone hroom (.inl hname) }

theorem hiddenSlot {what : String} (hw : what ∈ hiddenWords) (offset : Nat) :
    Grows n (Emit.hiddenSlot what offset) := by
  intro e a e' _ h
  obtain ⟨_, _, h₁, h₂⟩ := bind_ok.mp h
  cases modify_ok.mp h₁
  obtain ⟨_, _, h₃, h₄⟩ := bind_ok.mp h₂
  cases get_ok.mp h₃
  have hcount : e.Tidy → Tidy { e with hidden := e.hidden + 1 } := fun h =>
    { h with
      named := fun name hmem => (h.named name hmem).imp_right fun ⟨what, k, hw, hk, heq⟩ =>
        ⟨what, k, hw, Nat.le_succ_of_le hk, heq⟩ }
  rcases slot_ok h₄ with ⟨i, -, -, rfl⟩ | ⟨hnone, hroom, -, rfl⟩
  · exact { Ext.refl n e with hidden := Nat.le_succ _, tidy := hcount }
  · exact
      { Ext.refl n e with
        slots := List.prefix_append _ _
        hidden := Nat.le_succ _
        tidy := fun h => (hcount h).enter hnone hroom
          (.inr ⟨what, e.hidden + 1, hw, Nat.le_refl _, rfl⟩) }

theorem loadSlot (s : UInt8) (holdsRef : Bool) : Grows n (Emit.loadSlot s holdsRef) :=
  (append fun w => w.emitU8_eq _ s).bind fun _ => pushed 1

theorem storeSlot (s : UInt8) (holdsRef : Bool) : Grows n (Emit.storeSlot s holdsRef) :=
  (append fun w => w.emitU8_eq _ s).bind fun _ => popped 1

theorem load (env : EmitEnv) {name : String} (hname : PlainName name) (offset : Nat) :
    Grows n (Emit.load env name offset) :=
  (slot hname offset).bind fun s => loadSlot s _

theorem store (env : EmitEnv) {name : String} (hname : PlainName name) (offset : Nat) :
    Grows n (Emit.store env name offset) :=
  (slot hname offset).bind fun s => storeSlot s _

theorem long (k : Int64) : Grows n (Emit.long k) :=
  (append fun w => w.emitLong_eq k).bind fun _ => pushed 1

theorem member (o : Opcode) (id : Nat) : Grows n (Emit.member o id) :=
  append fun w => w.emitI32_eq o _

theorem guardTop (env : EmitEnv) (ty : Ty) (offset : Nat) : Grows n (Emit.guardTop env ty offset) := by
  unfold Emit.guardTop
  split
  · exact append fun w => w.emitI32_eq _ _
  · exact fail _ _

theorem checkTop (env : EmitEnv) (expected actual : Ty) (offset : Nat) :
    Grows n (Emit.checkTop env expected actual offset) := by
  unfold Emit.checkTop
  split
  · exact guardTop env expected offset
  · exact pure _

theorem literal (value : Literal) : Grows n (Emit.literal value) := by
  cases value with
  | null => exact (op _).bind fun _ => pushed 1
  | bool b => exact (op _).bind fun _ => pushed 1
  | long k => exact long k
  | double x => exact (append fun w => w.emitDouble_eq x).bind fun _ => pushed 1
  | string s =>
      exact (intern s).bind fun i => (append fun w => w.emitU16_eq _ i).bind fun _ => pushed 1

theorem binary (o : BinaryOp) (lhs rhs : Ty) : Grows n (Emit.binary o lhs rhs) :=
  (op _).bind fun _ => popped 1

theorem guardArgs (env : EmitEnv) (params : List Ty) (args : List Expr) (above : Nat) :
    Grows n (Emit.guardArgs env params args above) := by
  induction params generalizing args above with
  | nil => exact pure _
  | cons param params ih =>
      cases args with
      | nil => exact pure _
      | cons arg args =>
          unfold Emit.guardArgs
          simp only
          split
          · split
            · exact (append fun w => w.emitI32_eq _ _).bind fun _ => ih args (above - 1)
            · exact (fail _ _).bind fun _ => ih args (above - 1)
          · exact ih args (above - 1)

mutual

theorem expr (env : EmitEnv) (e : Expr) (he : e.Plain) : Grows n (Emit.expr env e) := by
  cases e with
  | literal m value => exact literal value
  | name m x => exact load env he m.offset
  | static m name args binding =>
      cases binding with
      | const value => exact literal value
      | method id =>
          exact (exprs env args he).bind fun _ => (guardArgs env _ args _).bind fun _ =>
            (member _ id).bind fun _ => (popped _).bind fun _ => pushed 1
      | property id => exact (member _ id).bind fun _ => pushed 1
      | unresolved => exact fail _ _
  | member m target name args binding =>
      cases binding with
      | method id =>
          exact (expr env target he.1).bind fun _ => (exprs env args he.2).bind fun _ =>
            (guardArgs env _ args _).bind fun _ => (member _ id).bind fun _ =>
            (popped _).bind fun _ => pushed 1
      | property id =>
          exact (expr env target he.1).bind fun _ => (member _ id).bind fun _ =>
            (popped _).bind fun _ => pushed 1
      | dynamic =>
          refine (expr env target he.1).bind fun _ => (intern name).bind fun i => ?_
          simp only
          split
          · exact (append fun w => w.emitU16_eq _ i).bind fun _ => (popped 1).bind fun _ => pushed 1
          · refine (exprs env args he.2).bind fun _ => ?_
            have hrest : Grows n (do
                write (·.emitU16Pair .invokeDynamic i (UInt16.ofNat args.length))
                Emit.popped (args.length + 1)
                Emit.pushed 1) :=
              (append fun w => w.emitU16Pair_eq _ i _).bind fun _ => (popped _).bind fun _ => pushed 1
            split
            · exact (fail _ _).bind fun _ => hrest
            · exact hrest
      | unresolved => exact fail _ _
  | new m typeName args binding =>
      cases binding with
      | some id =>
          exact (exprs env args he).bind fun _ => (guardArgs env _ args _).bind fun _ =>
            (member _ id).bind fun _ => (popped _).bind fun _ => pushed 1
      | none => exact fail _ _
  | binary m o lhs rhs =>
      have hl := expr env lhs he.1
      have hr := expr env rhs he.2
      cases o with
      | and =>
          exact newLabel fun skip hskip => newLabel fun done hdone => hl.bind fun _ =>
            (jump _ skip).bind fun _ => hr.bind fun _ => (checkTop env _ _ _).bind fun _ =>
            (jump _ done).bind fun _ => (mark hskip).bind fun _ => (op _).bind fun _ => mark hdone
      | or =>
          exact newLabel fun skip hskip => newLabel fun done hdone => hl.bind fun _ =>
            (jump _ skip).bind fun _ => hr.bind fun _ => (checkTop env _ _ _).bind fun _ =>
            (jump _ done).bind fun _ => (mark hskip).bind fun _ => (op _).bind fun _ => mark hdone
      | arith a => exact hl.bind fun _ => hr.bind fun _ => binary _ _ _
      | order a => exact hl.bind fun _ => hr.bind fun _ => binary _ _ _
      | eq => exact hl.bind fun _ => hr.bind fun _ => binary _ _ _
      | ne => exact hl.bind fun _ => hr.bind fun _ => binary _ _ _
  | unary m o operand =>
      unfold Emit.expr
      split
      · exact literal _
      · refine (expr env operand he).bind fun _ => ?_
        cases o with
        | neg => exact op _
        | not => exact op _
  | cast m typeName operand => exact fail _ _

theorem exprs (env : EmitEnv) (es : List Expr) (hes : Expr.AllPlain es) :
    Grows n (Emit.exprs env es) := by
  cases es with
  | nil => exact pure _
  | cons e rest => exact (expr env e hes.1).bind fun _ => exprs env rest hes.2

end

theorem changeValue (env : EmitEnv) (how : Change) (hhow : how.Plain) :
    Grows n (Emit.changeValue env how) := by
  cases how with
  | compound o value => exact (expr env value hhow).bind fun _ => pure _
  | increment => exact (long 1).bind fun _ => pure _
  | decrement => exact (long 1).bind fun _ => pure _

theorem varStmt (env : EmitEnv) (v : VarStmt) (hv : v.Plain) : Grows n (Emit.varStmt env v) := by
  cases v with
  | declare offset name value =>
      exact (expr env value hv.2).bind fun _ => store env hv.1 offset
  | update offset name how current result =>
      exact (load env hv.1 offset).bind fun _ => (changeValue env how hv.2).bind fun _ =>
        (binary _ _ _).bind fun _ => store env hv.1 offset

theorem setProperty (env : EmitEnv) (o : Opcode) (id : Nat) (value : Expr) :
    Grows n (Emit.setProperty env o id value) :=
  (checkTop env _ _ _).bind fun _ => member o id

theorem assignStmt (env : EmitEnv) (target value : Expr) (ht : target.Plain) (hv : value.Plain) :
    Grows n (Emit.assignStmt env target value) := by
  cases target with
  | static m name args binding =>
      refine (expr env value hv).bind fun _ => ?_
      cases binding with
      | property id => exact (setProperty env _ id value).bind fun _ => popped 1
      | _ => exact (fail _ _).bind fun _ => popped 1
  | member m owner name args binding =>
      refine (expr env owner ht.1).bind fun _ => (expr env value hv).bind fun _ => ?_
      cases binding with
      | property id => exact (setProperty env _ id value).bind fun _ => popped 2
      | dynamic =>
          exact (intern name).bind fun i =>
            (append fun w => w.emitU16_eq _ i).bind fun _ => popped 2
      | _ => exact (fail _ _).bind fun _ => popped 2
  | _ => exact fail _ _

theorem inLoop (labels : LoopLabels) {body : Emit Unit} (hbody : Grows n body) :
    Grows n (Emit.inLoop labels body) := by
  intro e a e' hn h
  obtain ⟨_, _, h₁, h₂⟩ := bind_ok.mp h
  cases modify_ok.mp h₁
  obtain ⟨_, e₂, h₃, h₄⟩ := bind_ok.mp h₂
  cases modify_ok.mp h₄
  have hext := hbody { e with loops := labels :: e.loops } _ e₂ hn h₃
  exact
    { hext with
      loops := by simp [hext.loops]
      tidy := fun h => { hext.tidy { h with } with } }

theorem countedLoop (index limit : UInt8) {item body : Emit Unit} (hitem : Grows n item)
    (hbody : Grows n body) : Grows n (Emit.countedLoop index limit item body) :=
  (long 0).bind fun _ => (storeSlot index false).bind fun _ => newLabel fun top htop =>
    newLabel fun next hnext => newLabel fun done hdone => (mark htop).bind fun _ =>
    (loadSlot index false).bind fun _ => (loadSlot limit false).bind fun _ => (op _).bind fun _ =>
    (popped 1).bind fun _ => (jump _ done).bind fun _ => hitem.bind fun _ =>
    (inLoop ⟨done, next⟩ hbody).bind fun _ => (mark hnext).bind fun _ =>
    (loadSlot index false).bind fun _ => (long 1).bind fun _ => (op _).bind fun _ =>
    (popped 1).bind fun _ => (storeSlot index false).bind fun _ => (jump _ top).bind fun _ =>
    mark hdone

theorem countLoop (env : EmitEnv) (count : Expr) (hcount : count.Plain) {body : Emit Unit}
    (hbody : Grows n body) (offset : Nat) : Grows n (Emit.countLoop env count body offset) :=
  (hiddenSlot (by simp [hiddenWords]) offset).bind fun limit =>
    (hiddenSlot (by simp [hiddenWords]) offset).bind fun index =>
    (expr env count hcount).bind fun _ => (checkTop env _ _ _).bind fun _ =>
    (storeSlot limit false).bind fun _ => countedLoop index limit (pure _) hbody

theorem itemCount (env : EmitEnv) (how : Iteration) (offset : Nat) :
    Grows n (Emit.itemCount env how offset) := by
  cases how with
  | members count getItem => exact member _ count
  | dynamic =>
      exact (intern _).bind fun i => (append fun w => w.emitU16_eq _ i).bind fun _ =>
        guardTop env _ offset
  | unresolved => exact fail _ _

theorem bindItem (env : EmitEnv) {item : String} (hitem : PlainName item) (source index : UInt8)
    (how : Iteration) (offset : Nat) : Grows n (Emit.bindItem env item source index how offset) := by
  refine (loadSlot source true).bind fun _ => (loadSlot index false).bind fun _ => ?_
  have hrest : Grows n (do Emit.popped 1; Emit.store env item offset) :=
    (popped 1).bind fun _ => store env hitem offset
  cases how with
  | members count getItem => exact (member _ getItem).bind fun _ => hrest
  | _ =>
      exact (intern _).bind fun i => (append fun w => w.emitU16Pair_eq _ i 1).bind fun _ => hrest

theorem eachLoop (env : EmitEnv) {item : String} (hitem : PlainName item) (source : Expr)
    (hsource : source.Plain) {body : Emit Unit} (hbody : Grows n body) (how : Iteration)
    (offset : Nat) : Grows n (Emit.eachLoop env item source body how offset) :=
  (hiddenSlot (by simp [hiddenWords]) offset).bind fun iter =>
    (hiddenSlot (by simp [hiddenWords]) offset).bind fun count =>
    (hiddenSlot (by simp [hiddenWords]) offset).bind fun index =>
    (expr env source hsource).bind fun _ => (storeSlot iter true).bind fun _ =>
    (loadSlot iter true).bind fun _ => (itemCount env how offset).bind fun _ =>
    (storeSlot count false).bind fun _ =>
    (countedLoop index count (bindItem env hitem iter index how offset) hbody).bind fun _ =>
    (op _).bind fun _ => (pushed 1).bind fun _ => storeSlot iter true

theorem testedLoop (env : EmitEnv) (test : Expr) (htest : test.Plain)
    {body : LoopLabels → Emit Unit} (hbody : ∀ labels, Grows n (body labels)) {top : Nat}
    (htop : n ≤ top) (next : Nat) : Grows n (Emit.testedLoop env test body top next) :=
  newLabel fun done hdone => (mark htop).bind fun _ => (expr env test htest).bind fun _ =>
    (jump _ done).bind fun _ => (hbody ⟨done, next⟩).bind fun _ => (jump _ top).bind fun _ =>
    mark hdone

-- The head of a machine's loop only adds code, and the length of the body belongs into it.
theorem loopHead {env : EmitEnv} {count : Expr} (hcount : count.Plain) {e e₁ : Emitter}
    {lengthAt : Nat} (hn : n ≤ e.writer.labels.size) (h : LoopHead env count e lengthAt e₁) :
    Ext n e e₁ ∧ e.pos ≤ lengthAt ∧ lengthAt + 4 = e₁.pos := by
  cases h with
  | literal hlit =>
      rw [Writer.emitI32Pair_eq]
      refine ⟨.append n e _, by omega, ?_⟩
      simp [pos, Writer.code_append, bytesOfI32, length_bytesOf]
  | @computed e₂ e₃ hlit hexpr hcheck =>
      have h₁ := expr env count hcount e () e₂ hn hexpr
      have hn₂ := Nat.le_trans hn h₁.labelCount
      have h₂ := checkTop env _ _ _ e₂ () e₃ hn₂ hcheck
      have h₃ : Ext n e₃ { e₃ with depth := e₃.depth - 1 } := .of_same rfl rfl rfl rfl rfl
      have h₁₂ := h₁.trans h₂
      rw [Writer.emitI32_eq]
      refine ⟨(h₁₂.trans h₃).trans (.append n { e₃ with depth := e₃.depth - 1 } _), ?_, ?_⟩
      · have := h₁₂.size
        omega
      · simp [pos, Writer.code_append, bytesOfI32, length_bytesOf]

theorem machineLoop (env : EmitEnv) (count : Expr) (hcount : count.Plain) {body : Emit Unit}
    (hbody : Grows n body) (offset : Nat) : Grows n (Emit.machineLoop env count body offset) := by
  intro e a e' hn h
  obtain ⟨lengthAt, e₁, e₂, hhead, hrun, -, rfl⟩ := machineLoop_ok h
  obtain ⟨h₁, hpos, -⟩ := loopHead hcount hn hhead
  exact (h₁.trans (hbody e₁ () e₂ (Nat.le_trans hn h₁.labelCount) hrun)).patchI32 hpos _

mutual

theorem stmt (env : EmitEnv) (s : Stmt) (hs : s.Plain) : Grows n (Emit.stmt env s) := by
  cases s with
  | «using» offset ns => exact pure _
  | input offset name typeName declared => exact pure _
  | var v => exact varStmt env v hs
  | cond offset test body rest =>
      exact newLabel fun done hdone => newLabel fun next hnext =>
        (expr env test hs.1).bind fun _ => (jump _ next).bind fun _ =>
        (stmts env body hs.2.1).bind fun _ => (jump _ done).bind fun _ =>
        (mark hnext).bind fun _ => (branches env done rest hs.2.2).bind fun _ => mark hdone
  | whileLoop offset test body =>
      exact newLabel fun top htop => testedLoop env test hs.1
        (fun labels => inLoop labels (stmts env body hs.2)) htop top
  | forLoop offset init test step body =>
      exact (varStmt env init hs.1).bind fun _ => newLabel fun top htop => newLabel fun next hnext =>
        testedLoop env test hs.2.1
          (fun labels => (inLoop labels (stmts env body hs.2.2.2)).bind fun _ =>
            (mark hnext).bind fun _ => varStmt env step hs.2.2.1) htop next
  | eachLoop offset item source body how =>
      exact eachLoop env hs.1 source hs.2.1 (stmts env body hs.2.2) how offset
  | countLoop offset count body =>
      have hbody := stmts env body hs.2
      unfold Emit.stmt
      split
      · exact machineLoop env count hs.1 hbody offset
      · exact countLoop env count hs.1 hbody offset
  | leave offset =>
      refine get.bind fun e => ?_
      split
      · exact jump _ _
      · exact fail _ _
  | again offset =>
      refine get.bind fun e => ?_
      split
      · exact jump _ _
      · exact fail _ _
  | ret offset value =>
      have hrest : Grows n (do Emit.op .ret; Emit.popped 1) := (op _).bind fun _ => popped 1
      cases value with
      | some v => exact (expr env v (hs v rfl)).bind fun _ => hrest
      | none => exact (op _).bind fun _ => (pushed 1).bind fun _ => hrest
  | exit offset => exact op _
  | func offset name params body => exact fail _ _
  | call offset target =>
      exact (expr env target hs).bind fun _ => (op _).bind fun _ => popped 1
  | assign offset target value => exact assignStmt env target value hs.1 hs.2

theorem stmts (env : EmitEnv) (ss : List Stmt) (hss : Stmt.AllPlain ss) :
    Grows n (Emit.stmts env ss) := by
  cases ss with
  | nil => exact pure _
  | cons s rest => exact (stmt env s hss.1).bind fun _ => stmts env rest hss.2

theorem branches (env : EmitEnv) (done : Nat) (b : Branches) (hb : Stmt.BranchesPlain b) :
    Grows n (Emit.branches env done b) := by
  cases b with
  | done => exact pure _
  | otherwise body => exact stmts env body hb
  | elseIf test body rest =>
      exact newLabel fun next hnext => (expr env test hb.1).bind fun _ =>
        (jump _ next).bind fun _ => (stmts env body hb.2.1).bind fun _ =>
        (jump _ done).bind fun _ => (mark hnext).bind fun _ => branches env done rest hb.2.2

end

theorem inputSlots (inputs : List InputVar) (hnames : ∀ v ∈ inputs, PlainName v.name) :
    Grows n (Emit.inputSlots inputs) := by
  induction inputs with
  | nil => exact pure _
  | cons v rest ih =>
      exact (slot (hnames v (by simp)) 0).bind fun _ => ih fun v hv => hnames v (by simp [hv])

theorem script (env : EmitEnv) (inputs : List InputVar) (hnames : ∀ v ∈ inputs, PlainName v.name)
    (s : Script) (hs : Stmt.AllPlain s) : Grows n (Emit.script env inputs s) :=
  (inputSlots inputs hnames).bind fun _ => (stmts env s hs).bind fun _ => op _

end Grows

end Emit

end HostScript
