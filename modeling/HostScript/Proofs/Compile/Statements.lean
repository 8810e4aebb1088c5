import HostScript.Proofs.Compile.Placement

namespace HostScript

open Emitter

-- Overwriting the end of what was appended, whatever follows it now.
theorem Writer.code_patchI32 (w : Writer) (p : Nat) (n : Int32) :
    (w.patchI32 p n).code = overwrite w.code p (bytesOfI32 n) := by
  simp only [patchI32]

theorem Writer.getElem?_overwrite_append {code more : Bytes} {bytes new : List UInt8}
    (old : List UInt8) (hsize : code.size + bytes.length + new.length ≤ more.size)
    (hmore : ∀ i, i < code.size + bytes.length + new.length →
      more[i]? = (code ++ (bytes ++ old).toArray)[i]?) {i : Nat}
    (hi : i < code.size + bytes.length + new.length) :
    (overwrite more (code.size + bytes.length) new)[i]? =
      (code ++ (bytes ++ new).toArray)[i]? := by
  have hsplit : ∀ xs : List UInt8, code ++ (bytes ++ xs).toArray =
      (code ++ bytes.toArray) ++ xs.toArray := fun xs => by simp
  have hfront : (code ++ bytes.toArray).size = code.size + bytes.length := by simp
  by_cases hlow : i < code.size + bytes.length
  · rw [← hfront] at hlow
    rw [getElem?_overwrite_of_lt (hfront ▸ hlow), hmore i hi, hsplit, hsplit,
      Array.getElem?_append_left hlow, Array.getElem?_append_left hlow]
  · obtain ⟨k, rfl⟩ : ∃ k, i = code.size + bytes.length + k :=
      ⟨i - (code.size + bytes.length), by omega⟩
    rw [Bytes.holds_iff.mp (holds_overwrite hsize) k (by omega), hsplit,
      Array.getElem?_append_right (by omega), hfront, Nat.add_sub_cancel_left,
      List.getElem?_toArray]

-- An operand that was written as zero is filled in behind the body of a loop. The code in front of
-- the body looks as if the operand had been known at once, and the body is not touched.
theorem Kept.patched {a : Nat} {e e₁ e₂ fin : Emitter} {bytes zero : List UInt8} {n : Int32}
    (hzero : zero.length = 4) (ha : a ≤ e.pos)
    (he : e₁ = { e with writer := e.writer.append (bytes ++ zero) }) (hstep : Step e₁ e₂)
    (hk : Kept a { e₂ with writer := e₂.writer.patchI32 (e.pos + bytes.length) n } fin) :
    Kept a { e with writer := e.writer.append (bytes ++ bytesOfI32 n) } fin ∧
      Kept e₁.pos e₂ fin := by
  have hlen : (bytesOfI32 n).length = 4 := length_bytesOf 4 _
  have hcode₁ : e₁.writer.code = e.writer.code ++ (bytes ++ zero).toArray := by
    rw [he, Writer.code_append]
  have hpos₁ : e₁.pos = e.pos + bytes.length + 4 := by
    simp [pos, hcode₁, hzero, Nat.add_assoc]
  have hpos₂ : pos { e₂ with writer := e₂.writer.patchI32 (e.pos + bytes.length) n } = e₂.pos := by
    simp only [pos, Writer.code_patchI32, Writer.size_overwrite]
  have hsize := hstep.size
  have hcode : ∀ i, a ≤ i → i < e₂.pos → fin.writer.code[i]? =
      (Writer.overwrite e₂.writer.code (e.pos + bytes.length) (bytesOfI32 n))[i]? :=
    fun i hi hlt => by
      rw [← Writer.code_patchI32]
      exact hk.code i hi (by rw [hpos₂]; exact hlt)
  have hbody : Kept e₁.pos e₂ fin :=
    { size := by
        have hfin := hk.size
        rwa [hpos₂] at hfin
      code := fun i hi hlt => by
        rw [hcode i (by omega) hlt, Writer.getElem?_overwrite_of_ge (by rw [hlen]; omega)]
      labels := hk.labels
      patches := by
        have hpatches := hk.patches
        rw [hpos₂] at hpatches
        exact hpatches
      strings := hk.strings
      slots := hk.slots }
  have hhead := hbody.step hstep
  have hpos : pos { e with writer := e.writer.append (bytes ++ bytesOfI32 n) } = e₁.pos := by
    rw [hpos₁]
    simp [pos, Writer.code_append, hlen, Nat.add_assoc]
  refine ⟨?_, hbody⟩
  refine
    { size := by rw [hpos]; exact hhead.size
      code := fun i hi hlt => ?_
      labels := fun l t hl => hhead.labels l t (by rw [he]; exact hl)
      patches := by
        have hpatches := hhead.patches
        rw [he] at hpatches
        rw [hpos, he]
        exact hpatches
      strings := by
        have hstrings := hhead.strings
        rwa [he] at hstrings
      slots := by
        have hslots := hhead.slots
        rwa [he] at hslots }
  rw [hpos] at hlt
  rw [hcode i hi (by omega), Writer.code_append]
  have hroom : e.writer.code.size + bytes.length + (bytesOfI32 n).length ≤ e₂.writer.code.size := by
    rw [hlen]
    exact hpos₁ ▸ hsize
  refine Writer.getElem?_overwrite_append zero hroom (fun j hj => ?_) ?_
  · rw [hlen] at hj
    rw [hstep.code j (hpos₁ ▸ hj), hcode₁]
  · rw [hlen]
    exact hpos₁ ▸ hlt

namespace Emit

variable {fin : Emitter}

-- A label that is bound to a place in the end.
def Bound (fin : Emitter) (l p : Nat) : Prop :=
  fin.writer.labels[l]? = some (some p) ∧ p ≤ fin.pos

-- Where `break` and `continue` lead in the innermost of some loops.
def Leads (fin : Emitter) : List LoopLabels → Option (Nat × Nat) → Prop
  | [], exits => exits = none
  | labels :: _, exits => ∃ p q, exits = some (p, q) ∧ Bound fin labels.leave p ∧
      Bound fin labels.again q

-- What the code of statements may depend on: the exits of the loop around it, the numbers of the
-- hidden variables given out before and after it, and its place.
abbrev Span := Option (Nat × Nat) → Nat → Nat → Nat → Nat → Prop

def Span.then (C D : Span) : Span := fun exits k p q k' =>
  ∃ r k₁, C exits k p r k₁ ∧ D exits k₁ r q k'

def Span.ofCode (R : Nat → Nat → Prop) : Span := fun _ k p q k' =>
  R p q ∧ k' = k

-- Work whose code is that of statements, which finds some labels still to be bound and leaves some
-- of them.
def Spans (fin : Emitter) (own own' : List Nat) (x : Emit Unit) (C : Span) : Prop :=
  Places fin own own' x fun e _ e' => e'.loops = e.loops ∧
    ∀ exits, Leads fin e.loops exits → C exits e.hidden e.pos e'.pos e'.hidden

def Runs (fin : Emitter) (x : Emit Unit) (C : Span) : Prop :=
  Lays fin x fun e _ e' => ∀ exits, Leads fin e.loops exits →
    C exits e.hidden e.pos e'.pos e'.hidden

namespace Runs

variable {x y : Emit Unit} {C D : Span}

theorem imp (hx : Runs fin x C) (h : ∀ exits k p q k', C exits k p q k' → D exits k p q k') :
    Runs fin x D :=
  Lays.imp hx fun _ _ _ _ hc exits hl => h _ _ _ _ _ (hc exits hl)

theorem of_coded {R : Nat → Nat → Prop} (hx : Coded fin x R) : Runs fin x (.ofCode R) :=
  Lays.imp hx fun _ _ _ _ hr _ _ => hr

theorem seq (hx : Runs fin x C) (hy : Runs fin y D) :
    Runs fin (x >>= fun _ => y) (C.then D) := by
  have hx' : Lays fin x fun e _ e' => e'.loops = e.loops ∧ ∀ exits, Leads fin e.loops exits →
      C exits e.hidden e.pos e'.pos e'.hidden :=
    Lays.imp hx fun _ _ _ hstep hc => ⟨hstep.loops, hc⟩
  refine (hx'.bind fun _ => hy).imp ?_
  rintro e _ e' - ⟨_, e₁, ⟨hloops, hc⟩, hd⟩ exits hl
  exact ⟨e₁.pos, e₁.hidden, hc exits hl, hd exits (hloops ▸ hl)⟩

end Runs

namespace Spans

variable {own own₁ own₂ : List Nat} {x y : Emit Unit} {C D : Span}

theorem of_runs (hx : Runs fin x C) : Spans fin own own x C :=
  Places.of_lays (Lays.imp hx fun _ _ _ hstep hc => ⟨hstep.loops, hc⟩)

theorem of_coded {R : Nat → Nat → Prop} (hx : Coded fin x R) : Spans fin own own x (.ofCode R) :=
  of_runs (.of_coded hx)

theorem runs (hx : Spans fin [] [] x C) (hg : ∀ n, Grows n x) : Runs fin x C :=
  (Places.lays hx hg).imp fun _ _ _ _ h => h.2

theorem imp (hx : Spans fin own own₁ x C)
    (h : ∀ exits k p q k', C exits k p q k' → D exits k p q k') : Spans fin own own₁ x D := by
  intro a e v e' hs hnodup hfresh ha hok
  obtain ⟨hafter, hback⟩ := hx a e v e' hs hnodup hfresh ha hok
  refine ⟨hafter, fun hk => ?_⟩
  obtain ⟨hk₁, hloops, hc⟩ := hback hk
  exact ⟨hk₁, hloops, fun exits hl => h _ _ _ _ _ (hc exits hl)⟩

theorem seq (hx : Spans fin own own₁ x C) (hy : Spans fin own₁ own₂ y D) :
    Spans fin own own₂ (x >>= fun _ => y) (C.then D) := by
  intro a e v e' hs hnodup hfresh ha hok
  obtain ⟨hafter, hback⟩ := Places.bind hx (fun _ => hy) a e v e' hs hnodup hfresh ha hok
  refine ⟨hafter, fun hk => ?_⟩
  obtain ⟨hk₁, _, e₁, ⟨hloops, hc⟩, hloops', hd⟩ := hback hk
  exact ⟨hk₁, hloops'.trans hloops, fun exits hl =>
    ⟨e₁.pos, e₁.hidden, hc exits hl, hd exits (hloops ▸ hl)⟩⟩

theorem newLabel {g : Nat → Emit Unit} {E : Nat → Span}
    (hg : ∀ l, Spans fin (l :: own) own₁ (g l) (E l)) :
    Spans fin own own₁ (Emit.newLabel >>= g) fun exits k p q k' => ∃ l, E l exits k p q k' := by
  intro a e v e' hs hnodup hfresh ha hok
  obtain ⟨hafter, hback⟩ := Places.newLabel hg a e v e' hs hnodup hfresh ha hok
  refine ⟨hafter, fun hk => ?_⟩
  obtain ⟨hk₁, l, e₁, ⟨hpos, hhidden, hloops⟩, hloops', hc⟩ := hback hk
  refine ⟨hk₁, hloops'.trans hloops, fun exits hl => ⟨l, ?_⟩⟩
  rw [← hpos, ← hhidden]
  exact hc exits (hloops ▸ hl)

theorem mark {l : Nat} (xs : List Nat) {ys : List Nat} :
    Spans fin (xs ++ l :: ys) (xs ++ ys) (Emit.mark l)
      (.ofCode fun p q => p = q ∧ Bound fin l p) := by
  intro a e v e' hs hnodup hfresh ha hok
  obtain ⟨hafter, hback⟩ := Places.mark xs a e v e' hs hnodup hfresh ha hok
  refine ⟨hafter, fun hk => ?_⟩
  obtain ⟨hk₁, ⟨hpos, hhidden, hloops⟩, hbound⟩ := hback hk
  exact ⟨hk₁, hloops, fun _ _ => ⟨⟨hpos.symm, hbound⟩, hhidden⟩⟩

end Spans

-- The body of a loop sees the exits of that loop.
theorem inLoop_runs (labels : LoopLabels) {body : Emit Unit} {C : Span} (hbody : Runs fin body C) :
    Runs fin (inLoop labels body) fun _ k p q k' => ∀ leave again,
      Bound fin labels.leave leave → Bound fin labels.again again →
      C (some (leave, again)) k p q k' := by
  refine ⟨fun n => .inLoop labels (hbody.grows n), fun a e v e' hs ha h hk exits _ => ?_⟩
  obtain ⟨_, _, h₁, h₂⟩ := bind_ok.mp h
  cases modify_ok.mp h₁
  obtain ⟨_, e₂, h₃, h₄⟩ := bind_ok.mp h₂
  cases modify_ok.mp h₄
  have hs₁ : Sane { e with loops := labels :: e.loops } := ⟨hs.fits, { hs.tidy with }⟩
  intro leave again hleave hagain
  exact hbody.lays a _ _ e₂ hs₁ ha h₃ { hk with } _ ⟨leave, again, rfl, hleave, hagain⟩

section

variable {L : Layout} (hf : Finished fin L)

include hf

theorem jump_spans {own : List Nat} (l : Nat) :
    Spans fin own own (jump .jump l)
      (.ofCode fun p q => ∀ t, Bound fin l t → L.Jump p q t) :=
  Spans.of_coded ((jump_lands hf l).imp fun _ _ _ _ ⟨hhidden, hland⟩ =>
    ⟨fun t hb => hland t hb.1 hb.2, hhidden⟩)

theorem jumpIf_spans {own : List Nat} (l : Nat) :
    Spans fin own own (jump .jumpIfFalse l)
      (.ofCode fun p q => ∀ t, Bound fin l t → L.JumpIf false p q t) :=
  Spans.of_coded ((jumpIf_lands hf false l).imp fun _ _ _ _ ⟨hhidden, hland⟩ =>
    ⟨fun t hb => hland t hb.1 hb.2, hhidden⟩)

-- Hidden variables are numbered in the order in which they are given out.
theorem hiddenSlot_lays {what : String} (hw : what ∈ hiddenWords) (offset : Nat) :
    Lays fin (hiddenSlot what offset) fun e n e' =>
      L.Slot (hiddenName what (e.hidden + 1)) n ∧ e'.pos = e.pos ∧ e'.hidden = e.hidden + 1 := by
  refine ⟨fun _ => Grows.hiddenSlot hw offset, fun a e n e' hs _ h hk => ?_⟩
  obtain ⟨_, _, h₁, h₂⟩ := bind_ok.mp h
  cases modify_ok.mp h₁
  obtain ⟨_, _, h₃, h₄⟩ := bind_ok.mp h₂
  cases get_ok.mp h₃
  have ht : Tidy { e with hidden := e.hidden + 1 } :=
    { hs.tidy with
      named := fun name hmem => (hs.tidy.named name hmem).imp_right fun ⟨what, k, hw, hk, heq⟩ =>
        ⟨what, k, hw, Nat.le_succ_of_le hk, heq⟩ }
  obtain ⟨hslot, hrest⟩ := slot_found ht h₄
  exact ⟨layout_slot hf hk hslot, hrest⟩

theorem hiddenSlot_runs {what : String} (hw : what ∈ hiddenWords) (offset : Nat)
    {g : UInt8 → Emit Unit} {D : UInt8 → Span} (hg : ∀ n, Runs fin (g n) (D n)) :
    Runs fin (hiddenSlot what offset >>= g) fun exits k p q k' => ∃ n,
      L.Slot (hiddenName what (k + 1)) n ∧ D n exits (k + 1) p q k' := by
  have hslot : Lays fin (hiddenSlot what offset) fun e n e' => e'.loops = e.loops ∧
      L.Slot (hiddenName what (e.hidden + 1)) n ∧ e'.pos = e.pos ∧ e'.hidden = e.hidden + 1 :=
    (hiddenSlot_lays hf hw offset).imp fun _ _ _ hstep h => ⟨hstep.loops, h⟩
  refine (hslot.bind hg).imp ?_
  rintro e _ e' - ⟨n, e₁, ⟨hloops, hname, hpos, hhidden⟩, hd⟩ exits hl
  rw [← hpos, ← hhidden]
  exact ⟨n, hhidden ▸ hname, hd exits (hloops ▸ hl)⟩

-- A counter that runs up to a limit. The body starts with what `item` does.
theorem countedLoop_runs (index limit : UInt8) {item : Emit Unit} {I : Nat → Nat → Prop}
    {body : Emit Unit} {ss : List Stmt} (hitem : Coded fin item I)
    (hbody : Runs fin body fun exits k p q k' => StmtsCode L exits k ss p q k') :
    Runs fin (countedLoop index limit item body) fun _ k p q k' =>
      CountedCode L index limit I k ss p q k' := by
  have hlt : Coded fin (op .lessNum) fun p q => L.At p (.orderNum .lt) q :=
    .op hf rfl fun _ => rfl
  have hadd : Coded fin (op .addNum) fun p q => L.At p (.arithNum .add) q :=
    .op hf rfl fun _ => rfl
  have hall : Spans fin [] [] (countedLoop index limit item body) _ :=
    .seq (.of_coded (.long hf 0)) <| .seq (.of_coded (.storeSlot hf index false)) <|
    .newLabel fun top => .newLabel fun next => .newLabel fun done =>
    .seq (.mark (l := top) [done, next]) <| .seq (.of_coded (.loadSlot hf index false)) <|
    .seq (.of_coded (.loadSlot hf limit false)) <| .seq (.of_coded hlt) <|
    .seq (.of_coded (.popped 1)) <| .seq (jumpIf_spans hf done) <| .seq (.of_coded hitem) <|
    .seq (.of_runs (inLoop_runs ⟨done, next⟩ hbody)) <| .seq (.mark (l := next) [done]) <|
    .seq (.of_coded (.loadSlot hf index false)) <| .seq (.of_coded (.long hf 1)) <|
    .seq (.of_coded hadd) <| .seq (.of_coded (.popped 1)) <|
    .seq (.of_coded (.storeSlot hf index false)) <| .seq (jump_spans hf top) <|
    .mark (l := done) []
  refine (hall.runs fun n => .countedLoop index limit (hitem.grows n) (hbody.grows n)).imp ?_
  rintro exits k p q k' ⟨_, _, ⟨h₁, rfl⟩, _, _, ⟨h₂, rfl⟩, top, next, done,
    _, _, ⟨⟨rfl, htop⟩, rfl⟩, _, _, ⟨h₃, rfl⟩, _, _, ⟨h₄, rfl⟩, _, _, ⟨h₅, rfl⟩, _, _, ⟨rfl, rfl⟩,
    _, _, ⟨h₆, rfl⟩, _, _, ⟨h₇, rfl⟩, _, _, h₈, _, _, ⟨⟨rfl, hnext⟩, rfl⟩, _, _, ⟨h₉, rfl⟩,
    _, _, ⟨h₁₀, rfl⟩, _, _, ⟨h₁₁, rfl⟩, _, _, ⟨rfl, rfl⟩, _, _, ⟨h₁₂, rfl⟩, _, _, ⟨h₁₃, rfl⟩,
    ⟨⟨rfl, hdone⟩, rfl⟩⟩
  exact .mk h₁ h₂ h₃ h₄ h₅ (h₆ _ hdone) h₇ (h₈ _ _ hdone hnext) h₉ h₁₀ h₁₁ h₁₂ (h₁₃ _ htop)

end

section

variable {L : Layout} (hf : Finished fin L) (env : EmitEnv) (hr : env.registry = L.registry)
  (hs : env.symbols = L.symbols)

include hf hs

-- Reading the number of items of what lies on top.
omit hs in
theorem itemCount_coded (how : Iteration) (offset : Nat) :
    Coded fin (itemCount env how offset) (CountCode L how) := by
  cases how with
  | members count getItem =>
      have hget : Coded fin (member .getProperty count) fun p q =>
          L.At p (.getProperty (Int32.ofNat count)) q :=
        .member hf rfl fun p h => by simp [Instr.read?, h]
      exact hget.imp fun _ _ => .members
  | dynamic =>
      have hget : ∀ n, Coded fin (write (·.emitU16 .getDynamicProperty n)) fun p q =>
          L.At p (.getDynamicProperty n) q := fun n =>
        .append hf (fun w => w.emitU16_eq _ n) (length_bytesOf 2 _) fun p h => by
          simp [Instr.read?, Bytes.u16?_of_holds h]
      refine (text_coded hf fun n => (hget n).andThen (guardTop_coded hf env .double offset)).imp ?_
      rintro p q ⟨n, htext, q₁, hat, hcheck⟩
      exact .dynamic htext hat hcheck
  | unresolved => exact .fail _ _

theorem bindItem_coded {item : String} (hitem : PlainName item) (iter index : UInt8)
    (how : Iteration) (hhow : how ≠ .unresolved) (offset : Nat) :
    Coded fin (bindItem env item iter index how offset) (ItemCode L item iter index how) := by
  have hsource := Coded.loadSlot hf iter true
  have hindex := Coded.loadSlot hf index false
  have hstore := store_coded hf env hs hitem offset
  cases how with
  | members count getItem =>
      have hcall : Coded fin (member .invoke getItem) fun p q =>
          L.At p (.invoke (Int32.ofNat getItem)) q :=
        .member hf rfl fun p h => by simp [Instr.read?, h]
      refine (hsource.andThen (hindex.andThen (hcall.andThen
        ((Coded.popped 1).andThen hstore)))).imp ?_
      rintro p q ⟨q₁, h₁, q₂, h₂, q₃, h₃, _, rfl, h₄⟩
      exact .members h₁ h₂ h₃ h₄
  | dynamic =>
      refine (hsource.andThen (hindex.andThen (text_coded hf fun n =>
        (Coded.callNamed hf n 1).andThen ((Coded.popped 1).andThen hstore)))).imp ?_
      rintro p q ⟨q₁, h₁, q₂, h₂, n, htext, q₃, h₃, _, rfl, h₄⟩
      exact .dynamic h₁ h₂ htext h₃ h₄
  | unresolved => exact (hhow rfl).elim

include hr

theorem changeValue_lays (how : Change) (hhow : how.Plain) :
    Lays fin (changeValue env how) fun e ty e' =>
      ty = how.ty ∧ ChangeCode L how e.pos e'.pos ∧ e'.hidden = e.hidden := by
  have hone : ∀ {C : Nat → Nat → Prop}, (∀ p q, L.At p (.pushLong 1) q → C p q) →
      Lays fin (do long 1; return Ty.long) fun e ty e' =>
        ty = .long ∧ C e.pos e'.pos ∧ e'.hidden = e.hidden := by
    intro C hc
    refine ⟨fun _ => (Grows.long 1).bind fun _ => Grows.pure _, fun a e ty e' hsane ha h hk => ?_⟩
    obtain ⟨_, e₁, h₁, h₂⟩ := bind_ok.mp h
    cases pure_ok.mp h₂
    obtain ⟨hat, hhidden⟩ := (Coded.long hf 1).lays a e _ _ hsane ha h₁ hk
    exact ⟨rfl, hc _ _ hat, hhidden⟩
  cases how with
  | compound o value =>
      have hvalue := expr_coded hf env hr hs value hhow
      refine ⟨fun n => (hvalue.grows n).bind fun _ => Grows.pure _, fun a e ty e' hsane ha h hk => ?_⟩
      obtain ⟨_, e₁, h₁, h₂⟩ := bind_ok.mp h
      cases pure_ok.mp h₂
      obtain ⟨hcode, hhidden⟩ := hvalue.lays a e _ _ hsane ha h₁ hk
      exact ⟨rfl, .compound hcode, hhidden⟩
  | increment => exact hone fun _ _ => .increment
  | decrement => exact hone fun _ _ => .decrement

theorem varStmt_coded (v : VarStmt) (hv : v.Plain) :
    Coded fin (varStmt env v) (VarCode L v) := by
  cases v with
  | declare offset name value =>
      exact (expr_coded hf env hr hs value hv.2).seq (store_coded hf env hs hv.1 offset)
        fun _ _ _ => .declare
  | update offset name how current result =>
      have hchange : Coded fin (do
          let rhs ← changeValue env how
          binary (.arith how.op) current rhs
          store env name offset) fun p q => ∃ q₂ q₃, ChangeCode L how p q₂ ∧
            L.At q₂ (Layout.binaryInstr (.arith how.op) (current.isNumeric && how.ty.isNumeric)) q₃ ∧
            L.Store name q₃ q := by
        refine ((changeValue_lays hf env hr hs how hv.2).bind fun ty =>
          (binary_coded hf (.arith how.op) current ty).andThen
            (store_coded hf env hs hv.1 offset)).imp ?_
        rintro e _ e' - ⟨_, e₁, ⟨rfl, hcode, hhidden⟩, ⟨q, hat, hstore⟩, hhidden'⟩
        exact ⟨⟨e₁.pos, q, hcode, hat, hstore⟩, hhidden'.trans hhidden⟩
      refine (load_coded hf env hs hv.1 offset).seq hchange ?_
      rintro p q₁ q hload ⟨q₂, q₃, hcode, hat, hstore⟩
      exact .update hload hcode hat hstore

omit hs in
-- The value of a property is checked before it is written.
theorem setProperty_coded {o : Opcode} {i : Int32 → Instr} (id : Nat) (value : Expr)
    (hsize : o.operandSize = 4) (hread : ∀ p, L.script.code.i32? p = some (Int32.ofNat id) →
      Instr.read? L.script.code o p = some (i (Int32.ofNat id))) :
    Coded fin (setProperty env o id value) fun p q => ∃ q₁,
      CheckCode L ((L.registry.properties[id]?.map (·.ty)).getD .dynamic) value.ty p q₁ ∧
      L.At q₁ (i (Int32.ofNat id)) q :=
  (checkTop_coded hf env _ value.ty value.offset).seq (Coded.member hf hsize hread)
    fun _ q₁ _ hcheck hat => ⟨q₁, hr ▸ hcheck, hat⟩

theorem assignStmt_coded (offset : Nat) (target value : Expr) (ht : target.Plain)
    (hv : value.Plain) : Runs fin (assignStmt env target value) fun exits k p q k' =>
      StmtCode L exits k (.assign offset target value) p q k' := by
  have hvalue := expr_coded hf env hr hs value hv
  cases target with
  | static m name args binding =>
      cases binding with
      | property id =>
          have hset := setProperty_coded hf env hr (o := .setStaticProperty)
            (i := .setStaticProperty) id value rfl fun p h => by simp [Instr.read?, h]
          refine (Runs.of_coded (hvalue.andThen (hset.quiet (.popped 1)))).imp ?_
          rintro exits k p q _ ⟨⟨q₁, h₁, q₂, h₂, h₃⟩, rfl⟩
          exact .assignStatic h₁ h₂ h₃
      | _ =>
          refine (Runs.of_coded (hvalue.andThen
            ((Coded.fail (R := fun _ _ => False) _ _).andThen (.popped 1)))).imp ?_
          rintro exits k p q _ ⟨⟨_, _, _, h, _⟩, _⟩
          exact h.elim
  | member m owner name args binding =>
      have howner := expr_coded hf env hr hs owner ht.1
      cases binding with
      | property id =>
          have hset := setProperty_coded hf env hr (o := .setProperty) (i := .setProperty) id value
            rfl fun p h => by simp [Instr.read?, h]
          refine (Runs.of_coded (howner.andThen (hvalue.andThen (hset.quiet (.popped 2))))).imp ?_
          rintro exits k p q _ ⟨⟨q₀, h₀, q₁, h₁, q₂, h₂, h₃⟩, rfl⟩
          exact .assignProperty h₀ h₁ h₂ h₃
      | dynamic =>
          have hset : ∀ n, Coded fin (write (·.emitU16 .setDynamicProperty n)) fun p q =>
              L.At p (.setDynamicProperty n) q := fun n =>
            .append hf (fun w => w.emitU16_eq _ n) (length_bytesOf 2 _) fun p h => by
              simp [Instr.read?, Bytes.u16?_of_holds h]
          have hnamed : Coded fin (do
              let index ← intern name
              write (·.emitU16 .setDynamicProperty index)
              popped 2) fun p q => ∃ n, L.Text n name ∧ L.At p (.setDynamicProperty n) q :=
            text_coded hf fun n => (hset n).quiet (.popped 2)
          refine (Runs.of_coded (howner.andThen (hvalue.andThen hnamed))).imp ?_
          rintro exits k p q _ ⟨⟨q₀, h₀, q₁, h₁, n, htext, h₂⟩, rfl⟩
          exact .assignDynamic h₀ h₁ htext h₂
      | _ =>
          refine (Runs.of_coded (howner.andThen (hvalue.andThen
            ((Coded.fail (R := fun _ _ => False) _ _).andThen (.popped 2))))).imp ?_
          rintro exits k p q _ ⟨⟨_, _, _, _, _, h, _⟩, _⟩
          exact h.elim
  | _ => exact Lays.fail _ _

theorem countLoop_runs (count : Expr) (hcount : count.Plain) {body : Emit Unit} {ss : List Stmt}
    (hbody : Runs fin body fun exits k p q k' => StmtsCode L exits k ss p q k') (offset : Nat) :
    Runs fin (countLoop env count body offset) fun exits k p q k' => L.counts ss = false →
      StmtCode L exits k (.countLoop offset count ss) p q k' := by
  have hall := hiddenSlot_runs hf (by simp [hiddenWords] : "limit" ∈ hiddenWords) offset fun limit =>
    hiddenSlot_runs hf (by simp [hiddenWords] : "index" ∈ hiddenWords) offset fun index =>
    Runs.seq (.of_coded (expr_coded hf env hr hs count hcount)) <|
    .seq (.of_coded (checkTop_coded hf env .double count.ty count.offset)) <|
    .seq (.of_coded (.storeSlot hf limit false)) <|
    countedLoop_runs hf index limit (Coded.pure ()) hbody
  refine hall.imp ?_
  rintro exits k p q k' ⟨limit, hlimit, index, hindex, _, _, ⟨h₁, rfl⟩, _, _, ⟨h₂, rfl⟩, _, _,
    ⟨h₃, rfl⟩, h₄⟩ hcounts
  exact .countLoop hcounts hlimit hindex h₁ h₂ h₃ h₄

theorem eachLoop_runs {item : String} (hitem : PlainName item) (source : Expr)
    (hsource : source.Plain) {body : Emit Unit} {ss : List Stmt}
    (hbody : Runs fin body fun exits k p q k' => StmtsCode L exits k ss p q k') (how : Iteration)
    (offset : Nat) :
    Runs fin (eachLoop env item source body how offset) fun exits k p q k' =>
      StmtCode L exits k (.eachLoop offset item source ss how) p q k' := by
  have hnull : Coded fin (op .pushNull) fun p q => L.At p .pushNull q := .op hf rfl fun _ => rfl
  -- A source that cannot be walked is noticed before the loop is written.
  have hloop : ∀ index count iter, Runs fin (do
      itemCount env how offset
      storeSlot count false
      countedLoop index count (bindItem env item iter index how offset) body
      op .pushNull
      pushed 1
      storeSlot iter true) fun _ k p q k' => ∃ q₄ q₅ q₆ q₇, CountCode L how p q₄ ∧
        L.At q₄ (.setLocNoRef count) q₅ ∧
        CountedCode L index count (ItemCode L item iter index how) k ss q₅ q₆ k' ∧
        L.At q₆ .pushNull q₇ ∧ L.At q₇ (.setLoc iter) q := by
    intro index count iter
    by_cases hhow : how = .unresolved
    · subst hhow
      refine ⟨fun n => ?_, fun a e v e' _ _ h => ?_⟩
      · exact (Grows.fail _ _).bind fun _ => (Grows.storeSlot count false).bind fun _ =>
          (Grows.countedLoop index count (Grows.bindItem env hitem iter index _ offset)
            (hbody.grows n)).bind fun _ => (Grows.op _).bind fun _ => (Grows.pushed 1).bind fun _ =>
          Grows.storeSlot iter true
      · obtain ⟨_, _, h₁, -⟩ := bind_ok.mp h
        exact (throw_ok.mp h₁).elim
    · have hall := Runs.seq (.of_coded (itemCount_coded hf env how offset)) <|
        .seq (.of_coded (.storeSlot hf count false)) <|
        .seq (countedLoop_runs hf index count
          (bindItem_coded hf env hs hitem iter index how hhow offset) hbody) <|
        .seq (.of_coded hnull) <| .seq (.of_coded (.pushed 1)) <|
        .of_coded (.storeSlot hf iter true)
      refine hall.imp ?_
      rintro exits k p q k' ⟨_, _, ⟨h₁, rfl⟩, _, _, ⟨h₂, rfl⟩, _, _, h₃, _, _, ⟨h₄, rfl⟩,
        _, _, ⟨rfl, rfl⟩, h₅, rfl⟩
      exact ⟨_, _, _, _, h₁, h₂, h₃, h₄, h₅⟩
  have hall := hiddenSlot_runs hf (by simp [hiddenWords] : "iter" ∈ hiddenWords) offset fun iter =>
    hiddenSlot_runs hf (by simp [hiddenWords] : "count" ∈ hiddenWords) offset fun count =>
    hiddenSlot_runs hf (by simp [hiddenWords] : "index" ∈ hiddenWords) offset fun index =>
    Runs.seq (.of_coded (expr_coded hf env hr hs source hsource)) <|
    .seq (.of_coded (.storeSlot hf iter true)) <| .seq (.of_coded (.loadSlot hf iter true)) <|
    hloop index count iter
  refine hall.imp ?_
  rintro exits k p q k' ⟨iter, hiter, count, hcount, index, hindex, _, _, ⟨h₁, rfl⟩,
    _, _, ⟨h₂, rfl⟩, _, _, ⟨h₃, rfl⟩, q₄, q₅, q₆, q₇, h₄, h₅, h₆, h₇, h₈⟩
  exact .eachLoop hiter hcount hindex h₁ h₂ h₃ h₄ h₅ h₆ h₇ h₈

-- A loop that tests first. The body binds the labels `xs` of its caller.
theorem testedLoop_spans (test : Expr) (htest : test.Plain) {body : LoopLabels → Emit Unit}
    {top next : Nat} (xs : List Nat) {C : Nat → Span}
    (hbody : ∀ done, Spans fin (done :: xs) [done] (body ⟨done, next⟩) (C done)) :
    Spans fin (xs ++ [top]) [] (testedLoop env test body top next) fun exits k p q k' =>
      Bound fin top p ∧ ∃ done q₁ q₂ q₃, Bound fin done q ∧ ExprCode L test p q₁ ∧
        L.JumpIf false q₁ q₂ q ∧ C done exits k q₂ q₃ k' ∧ L.Jump q₃ q p := by
  have hall : Spans fin (xs ++ [top]) [] (testedLoop env test body top next) _ :=
    .newLabel fun done => .seq (.mark (l := top) (done :: xs)) <|
    .seq (.of_coded (expr_coded hf env hr hs test htest)) <| .seq (jumpIf_spans hf done) <|
    .seq (by simpa using hbody done) <| .seq (jump_spans hf top) <| .mark (l := done) []
  refine hall.imp ?_
  rintro exits k p q k' ⟨done, _, _, ⟨⟨rfl, htop⟩, rfl⟩, _, _, ⟨h₁, rfl⟩, _, _, ⟨h₂, rfl⟩, _, _, h₃,
    _, _, ⟨h₄, rfl⟩, ⟨⟨rfl, hdone⟩, rfl⟩⟩
  exact ⟨htop, done, _, _, _, hdone, h₁, h₂ _ hdone, h₃, h₄ _ htop⟩

omit hr hs in
-- The instruction in front of such a body, once the length of the body is known.
omit env in
theorem head_of_kept {a : Nat} {e e₁ e₂ : Emitter} {o : Opcode} {operand : List UInt8}
    {i : Int32 → Instr} {n : Int32} (hsane : Sane e) (ha : a ≤ e.pos)
    (he : e₁ = { e with writer := e.writer.append (o.byte :: operand ++ bytesOfI32 0) })
    (hlen : operand.length + 4 = o.operandSize)
    (hread : ∀ p, L.script.code.Holds p (operand ++ bytesOfI32 n) →
      Instr.read? L.script.code o p = some (i n)) (hstep : Step e₁ e₂)
    (hk : Kept a { e₂ with writer := e₂.writer.patchI32 (e.pos + 1 + operand.length) n } fin) :
    L.At e.pos (i n) e₁.pos ∧ Kept e₁.pos e₂ fin := by
  have hfour : ∀ k : Int32, (bytesOfI32 k).length = 4 := fun _ => length_bytesOf 4 _
  have hwhere : e.pos + 1 + operand.length = e.pos + (o.byte :: operand).length := by
    simp; omega
  rw [hwhere] at hk
  obtain ⟨hhead, hbody⟩ := Kept.patched (hfour 0) ha he hstep hk
  have hbytes := holds_append_of_kept hf hsane ha hhead
  refine ⟨?_, hbody⟩
  have hat : L.At e.pos (i n) (e.pos + (o.byte :: (operand ++ bytesOfI32 n)).length) :=
    at_of_holds hbytes (by simp [hfour, hlen]) (hread _ hbytes.2)
  have hpos : e₁.pos = e.pos + (o.byte :: (operand ++ bytesOfI32 n)).length := by
    simp [he, pos, Writer.code_append, hfour]
  rw [hpos]
  exact hat

-- The machine counts the rounds itself and only needs to know how long the body is.
theorem machineLoop_runs (count : Expr) (hcount : count.Plain) {body : Emit Unit} {C : Span}
    (hbody : Runs fin body C) (offset : Nat) :
    Runs fin (machineLoop env count body offset) fun exits k p q k' => ∃ length start,
      HeadCode L count length p start ∧ 0 ≤ length.toInt ∧ start + length.toInt.toNat = q ∧
      q ≤ L.script.code.size ∧ C exits k start q k' := by
  refine ⟨fun n => .machineLoop env count hcount (hbody.grows n) offset,
    fun a e _ e' hsane ha h hk exits hl => ?_⟩
  obtain ⟨lengthAt, e₁, e₂, hhead, hrun, hlength, rfl⟩ := machineLoop_ok h
  obtain ⟨hext, -, -⟩ := Grows.loopHead hcount (Nat.le_refl _) hhead
  have hstep₁ : Step e e₁ := hext
  have hstep₂ : Step e₁ e₂ := Grows.step hbody.grows hrun
  have hsize := hstep₂.size
  have htoInt := Int32.toInt_ofNat_of_lt hlength
  generalize Int32.ofNat (e₂.pos - e₁.pos) = length at htoInt hk
  have hpos : pos { e₂ with writer := e₂.writer.patchI32 lengthAt length } = e₂.pos := by
    simp only [pos, Writer.code_patchI32, Writer.size_overwrite]
  have hfin := hk.size
  suffices hfound : HeadCode L count length e.pos e₁.pos ∧ e₁.hidden = e.hidden ∧
      Kept e₁.pos e₂ fin by
    obtain ⟨hcode, hhidden, hkept⟩ := hfound
    have hrest := hbody.lays e₁.pos e₁ _ e₂ (hsane.step hstep₁) (Nat.le_refl _) hrun hkept exits
      (hstep₁.loops ▸ hl)
    rw [hhidden] at hrest
    rw [hpos] at hfin ⊢
    exact ⟨length, e₁.pos, hcode, by omega, by omega, hf.size ▸ hfin, hrest⟩
  clear hpos hfin hlength
  cases hhead with
  | @literal n hlit =>
      have hread : ∀ p, L.script.code.Holds p (bytesOfI32 n ++ bytesOfI32 length) →
          Instr.read? L.script.code .loop p = some (.loop n length) := by
        intro p hp
        obtain ⟨hcount, hlen⟩ := Bytes.holds_append.mp hp
        rw [bytesOfI32, length_bytesOf] at hlen
        simp [Instr.read?, Bytes.i32?_of_holds hcount, Bytes.i32?_of_holds hlen]
      have hlen : (bytesOfI32 n).length = 4 := length_bytesOf 4 _
      rw [← hlen] at hk
      obtain ⟨hat, hkept⟩ := head_of_kept hf (i := .loop n) hsane ha (by rw [Writer.emitI32Pair_eq]; rfl)
        (by rw [hlen]; rfl) hread hstep₂ hk
      exact ⟨.literal hlit hat, rfl, hkept⟩
  | @computed e₃ e₄ hlit hexpr hcheck =>
      have hcode := expr_coded hf env hr hs count hcount
      have hguard := checkTop_coded hf env .double count.ty count.offset
      have hstep₃ := Grows.step hcode.grows hexpr
      have hstep₄ := Grows.step hguard.grows hcheck
      have hstep₅ : Step e₄ { e₄ with depth := e₄.depth - 1 } := .of_same rfl rfl rfl rfl rfl
      have hread : ∀ p, L.script.code.Holds p ([] ++ bytesOfI32 length) →
          Instr.read? L.script.code .loopNum p = some (.loopNum length) := by
        intro p hp
        simp [Instr.read?, Bytes.i32?_of_holds hp]
      have hsane₄ := (hsane.step hstep₃).step hstep₄
      have ha₄ : a ≤ e₄.pos := Nat.le_trans ha (Nat.le_trans hstep₃.size hstep₄.size)
      obtain ⟨hat, hkept⟩ := head_of_kept hf (e := { e₄ with depth := e₄.depth - 1 }) (i := .loopNum)
        (hsane₄.step hstep₅) ha₄ rfl rfl hread hstep₂ hk
      have hstep₆ : Step { e₄ with depth := e₄.depth - 1 }
          { e₄ with depth := e₄.depth - 1, writer := e₄.writer.emitI32 .loopNum 0 } := by
        rw [Writer.emitI32_eq]
        exact Ext.append _ { e₄ with depth := e₄.depth - 1 } _
      have hbefore : Step e₄ e₂ := hstep₅.trans (hstep₆.trans hstep₂)
      have hk₄ : Kept a e₄ fin := hk.step (Ext.patchI32 hbefore (Nat.le_add_right _ _) length)
      obtain ⟨hexprCode, hhidden₃⟩ := hcode.lays a e _ e₃ hsane ha hexpr (hk₄.step hstep₄)
      obtain ⟨hguardCode, hhidden₄⟩ := hguard.lays a e₃ _ e₄ (hsane.step hstep₃)
        (Nat.le_trans ha hstep₃.size) hcheck hk₄
      exact ⟨.computed hlit hexprCode hguardCode hat, hhidden₄.trans hhidden₃, hkept⟩

end

-- A jump out of the loop around a statement, or to its next round.
theorem exit_runs {L : Layout} (hf : Finished fin L) (label : LoopLabels → Nat)
    (problem : Diagnostic.Problem) (offset : Nat) :
    Runs fin (do
      match (← get).loops with
      | labels :: _ => jump .jump (label labels)
      | [] => fail problem offset) fun exits k p q k' => k' = k ∧ ∃ labels leave again,
        exits = some (leave, again) ∧ Bound fin labels.leave leave ∧
        Bound fin labels.again again ∧ ∀ t, Bound fin (label labels) t → L.Jump p q t := by
  refine ⟨fun n => ?_, fun a e v e' hsane ha h hk exits hl => ?_⟩
  · refine Grows.get.bind fun e => ?_
    split
    · exact .jump _ _
    · exact .fail _ _
  · obtain ⟨_, _, h₁, h₂⟩ := bind_ok.mp h
    cases get_ok.mp h₁
    cases hloops : e.loops with
    | nil =>
        rw [hloops] at h₂
        exact (throw_ok.mp h₂).elim
    | cons labels outer =>
        rw [hloops] at h₂ hl
        obtain ⟨leave, again, rfl, hleave, hagain⟩ := hl
        obtain ⟨hhidden, hland⟩ := (jump_lands hf (label labels)).lays a e v e' hsane ha h₂ hk
        exact ⟨hhidden, labels, leave, again, rfl, hleave, hagain, fun t ht => hland t ht.1 ht.2⟩

mutual

theorem stmt_runs {L : Layout} (hf : Finished fin L) (env : EmitEnv)
    (hr : env.registry = L.registry) (hs : env.symbols = L.symbols)
    (hl : env.level = L.level) (s : Stmt) (hplain : s.Plain) :
    Runs fin (stmt env s) fun exits k p q k' => StmtCode L exits k s p q k' := by
  cases s with
  | «using» offset ns =>
      refine (Runs.of_coded (Coded.pure ())).imp ?_
      rintro exits k p q _ ⟨rfl, rfl⟩
      exact .using
  | input offset name typeName declared =>
      refine (Runs.of_coded (Coded.pure ())).imp ?_
      rintro exits k p q _ ⟨rfl, rfl⟩
      exact .input
  | var v =>
      refine (Runs.of_coded (varStmt_coded hf env hr hs v hplain)).imp ?_
      rintro exits k p q _ ⟨hcode, rfl⟩
      exact .var hcode
  | cond offset test body rest =>
      have hall : Spans fin [] [] (stmt env (.cond offset test body rest)) _ :=
        .newLabel fun done => .newLabel fun next =>
        .seq (.of_coded (expr_coded hf env hr hs test hplain.1)) <| .seq (jumpIf_spans hf next) <|
        .seq (.of_runs (stmts_runs hf env hr hs hl body hplain.2.1)) <| .seq (jump_spans hf done) <|
        .seq (.mark (l := next) []) <|
        .seq (.of_runs (branches_runs hf env hr hs hl done rest hplain.2.2)) <| .mark (l := done) []
      refine (hall.runs fun n => .stmt env _ hplain).imp ?_
      rintro exits k p q k' ⟨done, next, _, _, ⟨h₁, rfl⟩, _, _, ⟨h₂, rfl⟩, _, _, h₃, _, _,
        ⟨h₄, rfl⟩, _, _, ⟨⟨rfl, hnext⟩, rfl⟩, _, _, h₅, ⟨rfl, hdone⟩, rfl⟩
      exact .cond h₁ (h₂ _ hnext) h₃ (h₄ _ hdone) (h₅ _ hdone)
  | whileLoop offset test body =>
      have hbody := stmts_runs hf env hr hs hl body hplain.2
      have hall : Spans fin [] [] (stmt env (.whileLoop offset test body)) _ :=
        .newLabel fun top => testedLoop_spans hf env hr hs test hplain.1 []
          fun done => .of_runs (inLoop_runs ⟨done, top⟩ hbody)
      refine (hall.runs fun n => .stmt env _ hplain).imp ?_
      rintro exits k p q k' ⟨top, htop, done, q₁, q₂, q₃, hdone, h₁, h₂, h₃, h₄⟩
      exact .whileLoop h₁ h₂ (h₃ _ _ hdone htop) h₄
  | forLoop offset init test step body =>
      have hbody := stmts_runs hf env hr hs hl body hplain.2.2.2
      have hstep := varStmt_coded hf env hr hs step hplain.2.2.1
      have hall : Spans fin [] [] (stmt env (.forLoop offset init test step body)) _ :=
        .seq (.of_coded (varStmt_coded hf env hr hs init hplain.1)) <|
        .newLabel fun top => .newLabel fun next =>
        testedLoop_spans hf env hr hs test hplain.2.1 [next] fun done =>
          .seq (.of_runs (inLoop_runs ⟨done, next⟩ hbody)) <|
          .seq (.mark (l := next) [done]) (.of_coded hstep)
      refine (hall.runs fun n => .stmt env _ hplain).imp ?_
      rintro exits k p q k' ⟨_, _, ⟨h₀, rfl⟩, top, next, htop, done, q₁, q₂, q₃, hdone, h₁, h₂,
        ⟨_, _, h₃, _, _, ⟨⟨rfl, hnext⟩, rfl⟩, h₄, rfl⟩, h₅⟩
      exact .forLoop h₀ h₁ h₂ (h₃ _ _ hdone hnext) h₄ h₅
  | eachLoop offset item source body how =>
      exact eachLoop_runs hf env hr hs hplain.1 source hplain.2.1
        (stmts_runs hf env hr hs hl body hplain.2.2) how offset
  | countLoop offset count body =>
      have hbody := stmts_runs hf env hr hs hl body hplain.2
      unfold stmt
      split
      · rename_i hlevel
        refine (machineLoop_runs hf env hr hs count hplain.1 hbody offset).imp ?_
        rintro exits k p q k' ⟨length, start, h₁, h₂, h₃, h₄, h₅⟩
        exact .machineLoop (by rw [Layout.counts, ← hl]; exact hlevel) h₁ h₂ h₃ h₄ h₅
      · rename_i hlevel
        refine (countLoop_runs hf env hr hs count hplain.1 hbody offset).imp ?_
        intro exits k p q k' h
        exact h (by rw [Layout.counts, ← hl]; exact Bool.eq_false_iff.mpr hlevel)
  | leave offset =>
      refine (exit_runs hf LoopLabels.leave .breakWithoutLoop offset).imp ?_
      rintro _ k p q _ ⟨rfl, labels, leave, again, rfl, hleave, -, hjump⟩
      exact .leave (hjump _ hleave)
  | again offset =>
      refine (exit_runs hf LoopLabels.again .continueWithoutLoop offset).imp ?_
      rintro _ k p q _ ⟨rfl, labels, leave, again, rfl, -, hagain, hjump⟩
      exact .again (hjump _ hagain)
  | ret offset value =>
      have hret : Coded fin (op .ret) fun p q => L.At p .ret q := .op hf rfl fun _ => rfl
      cases value with
      | some v =>
          refine (Runs.of_coded ((expr_coded hf env hr hs v (hplain v rfl)).andThen
            (hret.quiet (.popped 1)))).imp ?_
          rintro exits k p q _ ⟨⟨q₁, h₁, h₂⟩, rfl⟩
          exact .ret h₁ h₂
      | none =>
          have hnull : Coded fin (op .pushNull) fun p q => L.At p .pushNull q :=
            .op hf rfl fun _ => rfl
          refine (Runs.of_coded (hnull.andThen ((Coded.pushed 1).andThen
            (hret.quiet (.popped 1))))).imp ?_
          rintro exits k p q _ ⟨⟨q₁, h₁, _, rfl, h₂⟩, rfl⟩
          exact .retNull h₁ h₂
  | exit offset =>
      have hexit : Coded fin (op .exit) fun p q => L.At p .exit q := .op hf rfl fun _ => rfl
      refine (Runs.of_coded hexit).imp ?_
      rintro exits k p q _ ⟨h, rfl⟩
      exact .exit h
  | func offset name params body => exact Lays.fail _ _
  | call offset target =>
      have hpop : Coded fin (op .pop) fun p q => L.At p .pop q := .op hf rfl fun _ => rfl
      refine (Runs.of_coded ((expr_coded hf env hr hs target hplain).andThen
        (hpop.quiet (.popped 1)))).imp ?_
      rintro exits k p q _ ⟨⟨q₁, h₁, h₂⟩, rfl⟩
      exact .call h₁ h₂
  | assign offset target value =>
      exact assignStmt_coded hf env hr hs offset target value hplain.1 hplain.2

theorem stmts_runs {L : Layout} (hf : Finished fin L) (env : EmitEnv)
    (hr : env.registry = L.registry) (hs : env.symbols = L.symbols)
    (hl : env.level = L.level) (ss : List Stmt)
    (hplain : Stmt.AllPlain ss) :
    Runs fin (stmts env ss) fun exits k p q k' => StmtsCode L exits k ss p q k' := by
  cases ss with
  | nil =>
      refine (Runs.of_coded (Coded.pure ())).imp ?_
      rintro exits k p q _ ⟨rfl, rfl⟩
      exact .nil
  | cons s rest =>
      refine ((stmt_runs hf env hr hs hl s hplain.1).seq
        (stmts_runs hf env hr hs hl rest hplain.2)).imp ?_
      rintro exits k p q k' ⟨r, k₁, h₁, h₂⟩
      exact .cons h₁ h₂

theorem branches_runs {L : Layout} (hf : Finished fin L) (env : EmitEnv)
    (hr : env.registry = L.registry) (hs : env.symbols = L.symbols)
    (hl : env.level = L.level) (done : Nat) (b : Branches)
    (hplain : Stmt.BranchesPlain b) :
    Runs fin (branches env done b) fun exits k p q k' =>
      ∀ t, Bound fin done t → BranchesCode L exits k t b p q k' := by
  cases b with
  | done =>
      refine (Runs.of_coded (Coded.pure ())).imp ?_
      rintro exits k p q _ ⟨rfl, rfl⟩ t -
      exact .done
  | otherwise body =>
      refine (stmts_runs hf env hr hs hl body hplain).imp ?_
      intro exits k p q k' h t _
      exact .otherwise h
  | elseIf test body rest =>
      have hall : Spans fin [] [] (branches env done (.elseIf test body rest)) _ :=
        .newLabel fun next => .seq (.of_coded (expr_coded hf env hr hs test hplain.1)) <|
        .seq (jumpIf_spans hf next) <| .seq (.of_runs (stmts_runs hf env hr hs hl body hplain.2.1)) <|
        .seq (jump_spans hf done) <| .seq (.mark (l := next) []) <|
        .of_runs (branches_runs hf env hr hs hl done rest hplain.2.2)
      refine (hall.runs fun n => .branches env done _ hplain).imp ?_
      rintro exits k p q k' ⟨next, _, _, ⟨h₁, rfl⟩, _, _, ⟨h₂, rfl⟩, _, _, h₃, _, _, ⟨h₄, rfl⟩,
        _, _, ⟨⟨rfl, hnext⟩, rfl⟩, h₅⟩ t ht
      exact .elseIf h₁ (h₂ _ hnext) h₃ (h₄ _ ht) (h₅ _ ht)

end

end Emit

end HostScript
