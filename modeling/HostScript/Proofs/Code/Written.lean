import HostScript.Proofs.Code.Operands
import HostScript.Proofs.Compile.Growth

namespace HostScript.Writer

-- A request to the writer.
inductive Call where
  | emit (op : Opcode)
  | emitU8 (op : Opcode) (n : UInt8)
  | emitU16 (op : Opcode) (n : UInt16)
  | emitU16Pair (op : Opcode) (m n : UInt16)
  | emitI32 (op : Opcode) (n : Int32)
  | emitI32Pair (op : Opcode) (m n : Int32)
  | emitLong (n : Int64)
  | emitDouble (x : Float)
  | newLabel
  | mark (label : Nat)
  | emitJump (op : Opcode) (label : Nat)
  | patchI32 (pos : Nat) (n : Int32)

def perform (w : Writer) : Call → Writer
  | .emit op => w.emit op
  | .emitU8 op n => w.emitU8 op n
  | .emitU16 op n => w.emitU16 op n
  | .emitU16Pair op m n => w.emitU16Pair op m n
  | .emitI32 op n => w.emitI32 op n
  | .emitI32Pair op m n => w.emitI32Pair op m n
  | .emitLong n => w.emitLong n
  | .emitDouble x => w.emitDouble x
  | .newLabel => w.newLabel.2
  | .mark label => w.mark label
  | .emitJump op label => w.emitJump op label
  | .patchI32 pos n => w.patchI32 pos n

def performAll (calls : List Call) : Writer :=
  calls.foldl perform empty

-- What stands at the place of an operand instead of what was written there first, for a jump by the
-- label that it waits for.
abbrev Filling := Nat → Option Nat → Option Int32

namespace Call

-- Number of bytes written.
def width : Call → Nat
  | .emit _ => 1
  | .emitU8 _ _ => 2
  | .emitU16 _ _ => 3
  | .emitU16Pair _ _ _ | .emitI32 _ _ | .emitJump _ _ => 5
  | .emitI32Pair _ _ _ | .emitLong _ | .emitDouble _ => 9
  | .newLabel | .mark _ | .patchI32 _ _ => 0

-- The instruction that is written at `pos`.
def written (fill : Filling) (pos : Nat) : Call → Option Written
  | .emit op => some ⟨op, .none⟩
  | .emitU8 op n => some ⟨op, .u8 n⟩
  | .emitU16 op n => some ⟨op, .u16 n⟩
  | .emitU16Pair op m n => some ⟨op, .u16Pair m n⟩
  | .emitI32 op n => some ⟨op, .i32 ((fill (pos + 1) none).getD n)⟩
  | .emitI32Pair op m n =>
    some ⟨op, .i32Pair ((fill (pos + 1) none).getD m) ((fill (pos + 5) none).getD n)⟩
  | .emitLong n => some ⟨.pushLong, .i64 n⟩
  | .emitDouble x => some ⟨.pushDouble, .f64 x⟩
  | .emitJump op label => some ⟨op, .i32 ((fill (pos + 1) (some label)).getD 0)⟩
  | .newLabel | .mark _ | .patchI32 _ _ => none

-- Where operands stand that can be filled in, with the label that a jump waits for.
def places (pos : Nat) : Call → List (Nat × Option Nat)
  | .emitI32 _ _ => [(pos + 1, none)]
  | .emitI32Pair _ _ _ => [(pos + 1, none), (pos + 5, none)]
  | .emitJump _ label => [(pos + 1, some label)]
  | _ => []

def marked? : Call → Option Nat
  | .mark label => some label
  | _ => none

def patched? (pos : Nat) : Call → Option Int32
  | .patchI32 at_ n => if at_ = pos then some n else none
  | _ => none

end Call

-- Number of bytes written by all calls, which is where the next instruction will stand.
def offset (calls : List Call) : Nat :=
  (calls.map Call.width).sum

def instructions (fill : Filling) : (pos : Nat) → List Call → List Written
  | _, [] => []
  | pos, c :: rest => (c.written fill pos).toList ++ instructions fill (pos + c.width) rest

def places : (pos : Nat) → List Call → List (Nat × Option Nat)
  | _, [] => []
  | pos, c :: rest => c.places pos ++ places (pos + c.width) rest

-- Where a label was bound last.
def lastMark (label : Nat) : (pos : Nat) → List Call → Option Nat
  | _, [] => none
  | pos, c :: rest =>
    (lastMark label (pos + c.width) rest).or (if c.marked? = some label then some pos else none)

-- What was filled in last at a position.
def lastPatch (pos : Nat) : List Call → Option Int32
  | [] => none
  | c :: rest => (lastPatch pos rest).or (c.patched? pos)

-- What operands are in the end: jumps lead to where their labels were bound last, and the others
-- are what was filled in last.
def settled (calls : List Call) : Filling
  | _, some label => (lastMark label 0 calls).map Int32.ofNat
  | pos, none => lastPatch pos calls

-- The labels that jumps wait for, in the order of the jumps.
def used (calls : List Call) : List Nat :=
  (places 0 calls).filterMap (·.2)

-- A call that goes with the ones before it: an instruction is written with its own operands, a
-- label was given out by the writer, and an operand is filled in whose position the writer told.
def Call.Fits (before : List Call) : Call → Prop
  | .emit op => op.layout = .none
  | .emitU8 op _ => op.layout = .u8
  | .emitU16 op _ => op.layout = .u16
  | .emitU16Pair op _ _ => op.layout = .u16Pair
  | .emitI32 op _ => op.layout = .i32
  | .emitI32Pair op _ _ => op.layout = .i32Pair
  | .emitLong _ | .emitDouble _ | .newLabel => True
  | .mark label => label < (performAll before).labels.size
  | .emitJump op label => op.layout = .i32 ∧ label < (performAll before).labels.size
  | .patchI32 pos _ => (pos, none) ∈ Writer.places 0 before

instance (before : List Call) : (c : Call) → Decidable (c.Fits before)
  | .emit op => inferInstanceAs (Decidable (op.layout = .none))
  | .emitU8 op _ => inferInstanceAs (Decidable (op.layout = .u8))
  | .emitU16 op _ => inferInstanceAs (Decidable (op.layout = .u16))
  | .emitU16Pair op _ _ => inferInstanceAs (Decidable (op.layout = .u16Pair))
  | .emitI32 op _ => inferInstanceAs (Decidable (op.layout = .i32))
  | .emitI32Pair op _ _ => inferInstanceAs (Decidable (op.layout = .i32Pair))
  | .emitLong _ | .emitDouble _ | .newLabel => .isTrue trivial
  | .mark label => inferInstanceAs (Decidable (label < (performAll before).labels.size))
  | .emitJump op label =>
    inferInstanceAs (Decidable (op.layout = .i32 ∧ label < (performAll before).labels.size))
  | .patchI32 pos _ => inferInstanceAs (Decidable ((pos, none) ∈ Writer.places 0 before))

def Proper (calls : List Call) : Prop :=
  ∀ k (h : k < calls.length), calls[k].Fits (calls.take k)

instance (calls : List Call) : Decidable (Proper calls) :=
  inferInstanceAs (Decidable (∀ k (h : k < calls.length), calls[k].Fits (calls.take k)))

-- No jump leads further than its operand can tell.
def Near (calls : List Call) : Prop :=
  ∀ label ∈ used calls, ∀ pos ∈ lastMark label 0 calls, pos < 2147483648

instance (calls : List Call) : Decidable (Near calls) :=
  inferInstanceAs (Decidable
    (∀ label ∈ used calls, ∀ pos ∈ lastMark label 0 calls, pos < 2147483648))

variable {calls : List Call} {c : Call} {fill fill' : Filling} {pos s label : Nat}
  {key : Option Nat} {w : Writer}

def Call.bytes (fill : Filling) (pos : Nat) (c : Call) : List UInt8 :=
  (c.written fill pos).toList.flatMap Written.bytes

-- The bytes of all that is written.
def image (fill : Filling) (pos : Nat) (calls : List Call) : List UInt8 :=
  (instructions fill pos calls).flatMap Written.bytes

theorem Call.length_bytes (c : Call) (fill : Filling) (pos : Nat) :
    (c.bytes fill pos).length = c.width := by
  cases c <;> simp [bytes, written, width, Written.bytes, Operands.bytes, length_bytesOf,
    bytesOfI32, bytesOfI64, bytesOfFloat]

theorem image_cons (fill : Filling) (pos : Nat) (c : Call) (calls : List Call) :
    image fill pos (c :: calls) = c.bytes fill pos ++ image fill (pos + c.width) calls := by
  simp [image, Call.bytes, instructions, List.flatMap_append]

theorem offset_cons (c : Call) (calls : List Call) :
    offset (c :: calls) = c.width + offset calls := by
  simp [offset]

theorem offset_append (calls rest : List Call) :
    offset (calls ++ rest) = offset calls + offset rest := by
  simp [offset]

theorem length_image (fill : Filling) (pos : Nat) (calls : List Call) :
    (image fill pos calls).length = offset calls := by
  induction calls generalizing pos with
  | nil => rfl
  | cons c calls ih => rw [image_cons, List.length_append, c.length_bytes, ih, offset_cons]

theorem instructions_append (fill : Filling) (pos : Nat) (calls rest : List Call) :
    instructions fill pos (calls ++ rest) =
      instructions fill pos calls ++ instructions fill (pos + offset calls) rest := by
  induction calls generalizing pos with
  | nil => simp [instructions, offset]
  | cons c calls ih =>
      rw [List.cons_append, instructions, ih, instructions, offset_cons, List.append_assoc,
        Nat.add_assoc]

theorem image_append (fill : Filling) (pos : Nat) (calls rest : List Call) :
    image fill pos (calls ++ rest) =
      image fill pos calls ++ image fill (pos + offset calls) rest := by
  simp [image, instructions_append, List.flatMap_append]

theorem places_append (pos : Nat) (calls rest : List Call) :
    places pos (calls ++ rest) = places pos calls ++ places (pos + offset calls) rest := by
  induction calls generalizing pos with
  | nil => simp [places, offset]
  | cons c calls ih =>
      rw [List.cons_append, places, ih, places, offset_cons, List.append_assoc, Nat.add_assoc]

theorem Call.places_within (h : (s, key) ∈ c.places pos) : pos < s ∧ s + 4 ≤ pos + c.width := by
  cases c <;> simp [places, width] at h ⊢ <;> omega

theorem places_within (h : (s, key) ∈ places pos calls) : pos < s ∧ s + 4 ≤ pos + offset calls := by
  induction calls generalizing pos with
  | nil => cases h
  | cons c calls ih =>
      rw [offset_cons]
      rcases List.mem_append.mp h with h | h
      · have := Call.places_within h
        omega
      · have := ih h
        omega

-- An operand waits for one label at most.
theorem places_unique {key' : Option Nat} (h : (s, key) ∈ places pos calls)
    (h' : (s, key') ∈ places pos calls) : key = key' := by
  induction calls generalizing pos with
  | nil => cases h
  | cons c calls ih =>
      rcases List.mem_append.mp h with h | h <;> rcases List.mem_append.mp h' with h' | h'
      · cases c <;> simp_all [Call.places]
        rcases h with h | h <;> rcases h' with h' | h' <;> exact h.2.trans h'.2.symm
      · have := Call.places_within h
        have := places_within h'
        omega
      · have := places_within h
        have := Call.places_within h'
        omega
      · exact ih h h'

theorem Call.written_congr (h : ∀ x ∈ c.places pos, fill x.1 x.2 = fill' x.1 x.2) :
    c.written fill pos = c.written fill' pos := by
  cases c <;> simp_all [written, places]

theorem instructions_congr (h : ∀ x ∈ places pos calls, fill x.1 x.2 = fill' x.1 x.2) :
    instructions fill pos calls = instructions fill' pos calls := by
  induction calls generalizing pos with
  | nil => rfl
  | cons c calls ih =>
      obtain ⟨hfirst, hrest⟩ := List.forall_mem_append.mp h
      rw [instructions, instructions, Call.written_congr hfirst, ih hrest]

-- Bytes in which the ones of one operand can be replaced, and the others stay.
def Splits (fill : Filling) (pos s : Nat) (key : Option Nat)
    (bytes : Filling → List UInt8) : Prop :=
  ∃ before n after, pos + before.length = s ∧ bytes fill = before ++ (bytesOfI32 n ++ after) ∧
    ∀ m fill', fill' s key = some m → (∀ s' key', s' ≠ s → fill' s' key' = fill s' key') →
      bytes fill' = before ++ (bytesOfI32 m ++ after)

theorem Call.splits (fill : Filling) (h : (s, key) ∈ c.places pos) :
    Splits fill pos s key fun fill => c.bytes fill pos := by
  cases c with
  | emitI32 op n | emitJump op label =>
      obtain ⟨rfl, rfl⟩ := Prod.mk.inj (List.mem_singleton.mp h)
      refine ⟨[op.byte], _, [], rfl,
        by simp [bytes, written, Written.bytes, Operands.bytes]; rfl, ?_⟩
      intro m fill' hm _
      simp [bytes, written, Written.bytes, Operands.bytes, hm]
  | emitI32Pair op n n' =>
      simp only [places, List.mem_cons, List.not_mem_nil, or_false, Prod.mk.injEq] at h
      rcases h with ⟨rfl, rfl⟩ | ⟨rfl, rfl⟩
      · refine ⟨[op.byte], _, bytesOfI32 ((fill (pos + 5) none).getD n'), rfl,
          by simp [bytes, written, Written.bytes, Operands.bytes]; rfl, ?_⟩
        intro m fill' hm hrest
        simp [bytes, written, Written.bytes, Operands.bytes, hm, hrest]
      · refine ⟨op.byte :: bytesOfI32 ((fill (pos + 1) none).getD n), _, [], ?_,
          by simp [bytes, written, Written.bytes, Operands.bytes]; rfl, ?_⟩
        · simp [length_bytesOfI32]
        · intro m fill' hm hrest
          simp [bytes, written, Written.bytes, Operands.bytes, hm, hrest]
  | _ => simp [places] at h

theorem splits_image (fill : Filling) (h : (s, key) ∈ places pos calls) :
    Splits fill pos s key fun fill => image fill pos calls := by
  induction calls generalizing pos with
  | nil => cases h
  | cons c calls ih =>
      rcases List.mem_append.mp h with h | h
      · have hin := Call.places_within h
        obtain ⟨before, n, after, hs, hbytes, hfill⟩ := Call.splits fill h
        refine ⟨before, n, after ++ image fill (pos + c.width) calls, hs, ?_, ?_⟩
        · simp [image_cons, hbytes]
        · intro m fill' hm hother
          have hrest : image fill' (pos + c.width) calls = image fill (pos + c.width) calls := by
            refine congrArg (List.flatMap Written.bytes) (instructions_congr fun x hx => ?_)
            have hlater := places_within hx
            exact hother _ _ (by omega)
          simp [image_cons, hfill m fill' hm hother, hrest]
      · have hin := places_within h
        obtain ⟨before, n, after, hs, hbytes, hfill⟩ := ih h
        refine ⟨c.bytes fill pos ++ before, n, after, ?_, by simp [image_cons, hbytes], ?_⟩
        · rw [List.length_append, c.length_bytes]
          omega
        · intro m fill' hm hother
          have hfirst : c.bytes fill' pos = c.bytes fill pos := by
            rw [Call.bytes, Call.bytes, Call.written_congr fun x hx => ?_]
            have hearlier := Call.places_within hx
            exact hother _ _ (by omega)
          simp [image_cons, hfirst, hfill m fill' hm hother]

theorem toList_overwrite {code : Bytes} {before old after new : List UInt8}
    (h : code.toList = before ++ (old ++ after)) (hlen : old.length = new.length) :
    (overwrite code before.length new).toList = before ++ (new ++ after) := by
  induction new generalizing code before old with
  | nil =>
      obtain rfl := List.length_eq_zero_iff.mp hlen
      exact h
  | cons b new ih =>
      obtain ⟨o, old, rfl⟩ := List.exists_cons_of_length_eq_add_one hlen
      have hset : (code.setIfInBounds before.length b).toList =
          (before ++ [b]) ++ (old ++ after) := by
        simp [h]
      have hnext := ih hset (by simpa using hlen)
      rw [List.length_append, List.length_singleton] at hnext
      rw [overwrite, hnext]
      simp

-- Filling in an operand changes that operand in what is written, and nothing else.
theorem overwrite_image {code : Bytes} (hcode : code.toList = image fill 0 calls)
    (hs : (s, key) ∈ places 0 calls) {m : Int32} (hm : fill' s key = some m)
    (hother : ∀ s' key', s' ≠ s → fill' s' key' = fill s' key') :
    (overwrite code s (bytesOfI32 m)).toList = image fill' 0 calls := by
  obtain ⟨before, n, after, hpos, hbytes, hfill⟩ := splits_image fill hs
  have hnew : image fill' 0 calls = before ++ (bytesOfI32 m ++ after) := hfill m fill' hm hother
  rw [hnew, ← hpos, Nat.zero_add]
  exact toList_overwrite (hcode.trans hbytes) (by simp [length_bytesOfI32])

-- What operands are before the labels are settled.
def drafted (calls : List Call) : Filling
  | _, some _ => none
  | pos, none => lastPatch pos calls

-- The jumps that wait for labels, as the writer keeps them.
def waiting (pos : Nat) (calls : List Call) : List (Nat × Nat) :=
  (places pos calls).filterMap fun (s, key) => key.map (s, ·)

theorem mem_waiting : (s, label) ∈ waiting pos calls ↔ (s, some label) ∈ places pos calls := by
  simp [waiting]

theorem used_eq (calls : List Call) : used calls = (waiting 0 calls).map (·.2) := by
  rw [used, waiting, List.map_filterMap]
  refine List.filterMap_congr fun x _ => ?_
  cases hkey : x.2 <;> simp [hkey]

theorem waiting_append (pos : Nat) (calls rest : List Call) :
    waiting pos (calls ++ rest) = waiting pos calls ++ waiting (pos + offset calls) rest := by
  rw [waiting, places_append, List.filterMap_append]
  rfl

theorem lastMark_concat (label pos : Nat) (calls : List Call) (c : Call) :
    lastMark label pos (calls ++ [c]) =
      if c.marked? = some label then some (pos + offset calls) else lastMark label pos calls := by
  induction calls generalizing pos with
  | nil => simp [lastMark, offset]
  | cons first calls ih =>
      rw [List.cons_append, lastMark, ih, lastMark, offset_cons, Nat.add_assoc]
      split <;> rfl

theorem lastPatch_concat (pos : Nat) (calls : List Call) (c : Call) :
    lastPatch pos (calls ++ [c]) = (c.patched? pos).or (lastPatch pos calls) := by
  induction calls with
  | nil => simp [lastPatch]
  | cons first calls ih => rw [List.cons_append, lastPatch, ih, lastPatch, Option.or_assoc]

-- What the writer holds after some calls.
structure Holding (calls : List Call) (w : Writer) : Prop where
  code : w.code.toList = image (drafted calls) 0 calls
  labels : ∀ label, w.labels[label]?.join = lastMark label 0 calls
  patches : w.patches.toList = waiting 0 calls
  unwritten : ∀ pos, offset calls ≤ pos → lastPatch pos calls = none

theorem Holding.position (h : Holding calls w) : w.position = offset calls := by
  rw [← length_image (drafted calls) 0 calls, ← h.code]
  rfl

-- What a call writes comes behind the rest, and nothing before it changes.
theorem Holding.step {w' : Writer} (h : Holding calls w) (hp : ∀ pos, c.patched? pos = none)
    (hcode : w'.code.toList = w.code.toList ++ c.bytes (fun _ _ => none) (offset calls))
    (hlabels : ∀ label, w'.labels[label]?.join =
      if c.marked? = some label then some (offset calls) else w.labels[label]?.join)
    (hpatches : w'.patches.toList = w.patches.toList ++ waiting (offset calls) [c]) :
    Holding (calls ++ [c]) w' where
  code := by
    have hdraft : drafted (calls ++ [c]) = drafted calls := by
      funext pos key
      cases key with
      | none => simp [drafted, lastPatch_concat, hp]
      | some label => rfl
    have hlast : c.bytes (drafted calls) (offset calls) =
        c.bytes (fun _ _ => none) (offset calls) := by
      rw [Call.bytes, Call.bytes, Call.written_congr fun x hx => ?_]
      have hin := Call.places_within hx
      obtain ⟨s, key⟩ := x
      cases key with
      | none => exact h.unwritten s (by simp only at hin; omega)
      | some label => rfl
    rw [hdraft, image_append, Nat.zero_add, image_cons, hlast, ← h.code, hcode]
    simp [image, instructions]
  labels label := by rw [hlabels, lastMark_concat, h.labels, Nat.zero_add]
  patches := by rw [hpatches, h.patches, waiting_append, Nat.zero_add]
  unwritten pos hpos := by
    rw [offset_append] at hpos
    rw [lastPatch_concat, hp]
    exact h.unwritten pos (by omega)

@[simp] theorem patchI32_labels (w : Writer) (pos : Nat) (n : Int32) :
    (w.patchI32 pos n).labels = w.labels := rfl

theorem Holding.patchI32 (h : Holding calls w) (hs : (s, none) ∈ places 0 calls) (n : Int32) :
    Holding (calls ++ [.patchI32 s n]) (w.patchI32 s n) where
  code := by
    have hnow : drafted (calls ++ [.patchI32 s n]) s none = some n := by
      simp [drafted, lastPatch_concat, Call.patched?]
    rw [Writer.patchI32, overwrite_image h.code hs hnow, image_append, Nat.zero_add]
    · simp [image, instructions, Call.written]
    · intro s' key' hne
      cases key' with
      | none => simp [drafted, lastPatch_concat, Call.patched?, Ne.symm hne]
      | some label => rfl
  labels label := by
    rw [lastMark_concat, patchI32_labels]
    exact h.labels label
  patches := by
    rw [waiting_append, ← h.patches]
    simp [Writer.patchI32, waiting, places, Call.places]
  unwritten pos hpos := by
    have hin := places_within hs
    rw [offset_append] at hpos
    have hne : s ≠ pos := by omega
    rw [lastPatch_concat, h.unwritten pos (by omega)]
    simp [Call.patched?, hne]

theorem holding_perform (h : Holding calls w) (hw : w = performAll calls) (hc : c.Fits calls) :
    Holding (calls ++ [c]) (w.perform c) := by
  have hpos : w.code.size = offset calls := h.position
  cases c with
  | patchI32 pos n => exact h.patchI32 hc n
  | newLabel =>
      refine h.step (fun _ => rfl) ?_ (fun label => ?_) ?_
      · simp [perform, Writer.newLabel, Call.bytes, Call.written]
      · simp only [perform, Writer.newLabel, Array.getElem?_push, Call.marked?]
        split
        · rename_i heq
          simp [heq]
        · rfl
      · simp [perform, Writer.newLabel, waiting, places, Call.places]
  | mark label =>
      have hlt : label < w.labels.size := hw ▸ hc
      refine h.step (fun _ => rfl) ?_ (fun label' => ?_) ?_
      · simp [perform, Writer.mark, Call.bytes, Call.written]
      · simp only [perform, Writer.mark, Call.marked?, Option.some.injEq]
        by_cases hl : label = label'
        · subst hl
          simp [hlt, Writer.position, hpos]
        · simp [Array.getElem?_setIfInBounds_ne hl, hl]
      · simp [perform, Writer.mark, waiting, places, Call.places]
  | emitJump op label =>
      refine h.step (fun _ => rfl) ?_ (fun _ => rfl) ?_
      · simp [perform, Writer.emitJump, emitI32_eq, code_append, Call.bytes, Call.written,
          Written.bytes, Operands.bytes]
      · simp [perform, Writer.emitJump, Writer.operandPosition, Writer.position, hpos, waiting,
          places, Call.places]
        rfl
  | _ =>
      refine h.step (fun _ => rfl) ?_ (fun _ => rfl) ?_
      · simp [perform, emit_eq, emitU8_eq, emitU16_eq, emitU16Pair_eq, emitI32_eq, emitI32Pair_eq,
          emitLong_eq, emitDouble_eq, code_append, Call.bytes, Call.written, Written.bytes,
          Operands.bytes]
      · simp [waiting, places, Call.places]
        rfl

theorem Proper.of_concat (h : Proper (calls ++ [c])) : Proper calls ∧ c.Fits calls := by
  constructor
  · intro k hk
    have hfits := h k (by simp; omega)
    rwa [List.getElem_append_left hk, List.take_append_of_le_length hk.le] at hfits
  · simpa using h calls.length (by simp)

theorem holding_performAll (h : Proper calls) : Holding calls (performAll calls) := by
  induction calls using List.reverseRecOn with
  | nil => exact ⟨rfl, fun _ => rfl, rfl, fun _ _ => rfl⟩
  | append_singleton calls c ih =>
      obtain ⟨hproper, hfits⟩ := h.of_concat
      rw [performAll, List.foldl_append]
      exact holding_perform (ih hproper) rfl hfits

theorem Call.Fits.fitting {before : List Call} (h : c.Fits before) :
    ∀ i ∈ (c.written fill pos).toList, i.Fitting := by
  cases c <;> simp_all [Call.Fits, Call.written, Written.Fitting, Operands.layout, Opcode.layout]

theorem Proper.fitting (h : Proper calls) : ∀ i ∈ instructions fill 0 calls, i.Fitting := by
  induction calls using List.reverseRecOn with
  | nil => simp [instructions]
  | append_singleton calls c ih =>
      obtain ⟨hproper, hfits⟩ := h.of_concat
      rw [instructions_append]
      refine List.forall_mem_append.mpr ⟨ih hproper, ?_⟩
      simpa [instructions] using hfits.fitting

-- Jumps are filled in one after the other. One that was filled in stays as it is, since no other
-- one has its place.
theorem resolve_of_bound {patches : List (Nat × Nat)} (hcode : w.code.toList = image fill 0 calls)
    (hin : ∀ x ∈ patches, (x.1, some x.2) ∈ places 0 calls)
    (hbound : ∀ x ∈ patches, ∃ target, w.labels[x.2]?.join = some target ∧ target < 2147483648) :
    ∃ code fill', w.resolve patches = .ok code ∧ code.toList = image fill' 0 calls ∧
      (∀ s, (∀ x ∈ patches, x.1 ≠ s) → fill' s = fill s) ∧
      ∀ x ∈ patches, fill' x.1 (some x.2) = (w.labels[x.2]?.join).map Int32.ofNat := by
  induction patches generalizing w fill with
  | nil => exact ⟨w.code, fill, rfl, hcode, fun _ _ => rfl, by simp⟩
  | cons x rest ih =>
      obtain ⟨s, label⟩ := x
      obtain ⟨⟨target, htarget, hnear⟩, hboundRest⟩ := List.forall_mem_cons.mp hbound
      obtain ⟨hplace, hinRest⟩ := List.forall_mem_cons.mp hin
      have hfilled : (w.patchI32 s (Int32.ofNat target)).code.toList =
          image (Function.update fill s fun _ => some (Int32.ofNat target)) 0 calls :=
        overwrite_image hcode hplace (by simp) fun s' key' hne => by simp [hne]
      obtain ⟨code, fill', hresolve, himage, hkept, hset⟩ := ih hfilled hinRest hboundRest
      refine ⟨code, fill', ?_, himage, fun s' hs' => ?_, List.forall_mem_cons.mpr ⟨?_, hset⟩⟩
      · simpa only [resolve, htarget, if_pos hnear] using hresolve
      · obtain ⟨hne, hrest⟩ := List.forall_mem_cons.mp hs'
        rw [hkept s' hrest, Function.update_of_ne (Ne.symm hne)]
      · by_cases hagain : ∃ y ∈ rest, y.1 = s
        · obtain ⟨y, hy, rfl⟩ := hagain
          obtain ⟨hlabel⟩ := Option.some.inj (places_unique (hinRest y hy) hplace)
          exact hset y hy
        · have hkeep : fill' s = Function.update fill s (fun _ => some (Int32.ofNat target)) s :=
            hkept s fun y hy heq => hagain ⟨y, hy, heq⟩
          simp [hkeep, htarget]

theorem resolve_of_unbound {patches : List (Nat × Nat)} {x : Nat × Nat}
    (hx : patches.find? (fun x => (w.labels[x.2]?.join).isNone) = some x)
    (hnear : ∀ y ∈ patches, ∀ target ∈ w.labels[y.2]?.join, target < 2147483648) :
    w.resolve patches = .error ⟨.unboundLabel x.2, 0⟩ := by
  induction patches generalizing w with
  | nil => cases hx
  | cons y rest ih =>
      obtain ⟨hfirst, hrest⟩ := List.forall_mem_cons.mp hnear
      cases hlabel : w.labels[y.2]?.join with
      | none =>
          rw [List.find?_cons_of_pos (by simp [hlabel])] at hx
          obtain rfl := Option.some.inj hx
          simp [resolve, hlabel, fail]
      | some target =>
          rw [List.find?_cons_of_neg (by simp [hlabel])] at hx
          have hlater := @ih (w.patchI32 y.1 (Int32.ofNat target)) hx hrest
          simpa only [resolve, hlabel, if_pos (hfirst target hlabel)] using hlater

-- The writer's calls are read back from the finished code as instructions, in their order and with
-- the operands they have in the end. Only a jump to a label that was never bound is in the way of
-- that.
theorem finish_performAll (hp : Proper calls) (hn : Near calls) :
    (performAll calls).position = offset calls ∧
    ((∀ label ∈ used calls, (lastMark label 0 calls).isSome) →
      ∃ code, (performAll calls).finish = .ok code ∧
        code.instructions? 0 = some (instructions (settled calls) 0 calls)) ∧
    ∀ label ∈ used calls, lastMark label 0 calls = none →
      ∃ first, (used calls).find? (fun label => (lastMark label 0 calls).isNone) = some first ∧
        (performAll calls).finish = .error ⟨.unboundLabel first, 0⟩ := by
  have hw := holding_performAll hp
  have hwaiting : ∀ x ∈ waiting 0 calls, x.2 ∈ used calls := by
    intro x hx
    rw [used_eq]
    exact List.mem_map_of_mem hx
  refine ⟨hw.position, fun hmarked => ?_, fun label hlabel hnone => ?_⟩
  · have hbound : ∀ x ∈ waiting 0 calls, ∃ target,
        (performAll calls).labels[x.2]?.join = some target ∧ target < 2147483648 := by
      intro x hx
      obtain ⟨target, htarget⟩ := Option.isSome_iff_exists.mp (hmarked x.2 (hwaiting x hx))
      exact ⟨target, (hw.labels x.2).trans htarget, hn x.2 (hwaiting x hx) target htarget⟩
    obtain ⟨code, fill, hresolve, himage, hkept, hset⟩ :=
      resolve_of_bound hw.code (fun x hx => mem_waiting.mp hx) hbound
    have hfill : instructions fill 0 calls = instructions (settled calls) 0 calls := by
      refine instructions_congr fun x hx => ?_
      obtain ⟨s, key⟩ := x
      cases key with
      | some label => rw [hset (s, label) (mem_waiting.mpr hx), hw.labels, settled]
      | none =>
          have hno : ∀ y ∈ waiting 0 calls, y.1 ≠ s := by
            rintro y hy rfl
            cases places_unique hx (mem_waiting.mp hy)
          rw [hkept s hno]
          rfl
    have hread : code.toList = [] ++ (instructions fill 0 calls).flatMap Written.bytes := himage
    refine ⟨code, by rw [finish, hw.patches, hresolve], ?_⟩
    rw [← hfill]
    exact Bytes.instructions?_eq hread hp.fitting
  · have hfound : ((used calls).find? fun label => (lastMark label 0 calls).isNone).isSome :=
      List.find?_isSome.mpr ⟨label, hlabel, by simp [hnone]⟩
    obtain ⟨first, hfirst⟩ := Option.isSome_iff_exists.mp hfound
    refine ⟨first, hfirst, ?_⟩
    rw [used_eq, List.find?_map, Option.map_eq_some_iff] at hfirst
    obtain ⟨x, hx, rfl⟩ := hfirst
    rw [finish, hw.patches]
    refine resolve_of_unbound ?_ fun y hy target htarget => ?_
    · simp only [hw.labels]
      exact hx
    · rw [hw.labels] at htarget
      exact hn y.2 (hwaiting y hy) target htarget

-- A loop that is left by a jump forward and repeated by a jump back. The length of its counted part
-- is filled in twice.
def countdown : List Call :=
  [.newLabel, .newLabel, .mark 0, .emit .pushTrue, .emitJump .jumpIfFalse 1, .emitI32Pair .loop 3 0,
   .emitU8 .loadLoc 2, .patchI32 11 6, .emitJump .jump 0, .patchI32 11 2, .mark 1, .emit .exit]

theorem finish_countdown : Proper countdown ∧ Near countdown ∧
    ∃ code, (performAll countdown).finish = .ok code ∧ code.instructions? 0 =
      some [⟨.pushTrue, .none⟩, ⟨.jumpIfFalse, .i32 22⟩, ⟨.loop, .i32Pair 3 2⟩, ⟨.loadLoc, .u8 2⟩,
        ⟨.jump, .i32 0⟩, ⟨.exit, .none⟩] := by
  have hp : Proper countdown := by decide
  have hn : Near countdown := by decide
  exact ⟨hp, hn, (finish_performAll hp hn).2.1 (by decide)⟩

end HostScript.Writer
