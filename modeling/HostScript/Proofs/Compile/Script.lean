import HostScript.Compile.Basic
import HostScript.Proofs.Compile.Statements

namespace HostScript

open Emitter

namespace Writer

-- Filling in the operands that wait for a label changes nothing else.
theorem resolve_ok {w : Writer} {patches : List (Nat × Nat)} {code : Bytes}
    (hfits : Fits 0 w.code.size patches) (h : w.resolve patches = .ok code) :
    code.size = w.code.size ∧
    (∀ i, (∀ x ∈ patches, i < x.1 ∨ x.1 + 4 ≤ i) → code[i]? = w.code[i]?) ∧
    ∀ x ∈ patches, ∃ t, w.labels[x.2]? = some (some t) ∧ t < 2147483648 ∧
      code.Holds x.1 (bytesOfI32 (Int32.ofNat t)) := by
  induction patches generalizing w with
  | nil =>
      cases h
      exact ⟨rfl, fun _ _ => rfl, by simp⟩
  | cons patch rest ih =>
      obtain ⟨p, l⟩ := patch
      simp only [resolve] at h
      split at h
      · cases h
      · rename_i t hlabel
        split at h
        · rename_i hsmall
          obtain ⟨hfirst, hrest⟩ := List.pairwise_cons.mp hfits.apart
          have hwithin := hfits.within (p, l) (by simp)
          have hlen : (bytesOfI32 (Int32.ofNat t)).length = 4 := length_bytesOf 4 _
          have hsize : (w.patchI32 p (Int32.ofNat t)).code.size = w.code.size := by
            rw [code_patchI32, size_overwrite]
          obtain ⟨hsame, hother, hjumps⟩ := ih (w := w.patchI32 p (Int32.ofNat t))
            ⟨fun x hx => hsize ▸ hfits.within x (by simp [hx]), hrest⟩ h
          refine ⟨hsame.trans hsize, fun i hi => ?_, fun x hx => ?_⟩
          · have hout := hi (p, l) (by simp)
            rw [hother i fun x hx => hi x (by simp [hx]), code_patchI32]
            rcases hout with hlt | hge
            · exact getElem?_overwrite_of_lt hlt
            · exact getElem?_overwrite_of_ge (by rw [hlen]; exact hge)
          · rcases List.mem_cons.mp hx with rfl | hx
            · refine ⟨t, by simpa [Option.join_eq_some_iff] using hlabel, hsmall, ?_⟩
              have hwritten : (w.patchI32 p (Int32.ofNat t)).code.Holds p
                  (bytesOfI32 (Int32.ofNat t)) := by
                rw [code_patchI32]
                exact holds_overwrite (by rw [hlen]; exact hwithin.2)
              rw [Bytes.holds_iff] at hwritten ⊢
              intro k hk
              rw [← hwritten k hk]
              refine hother (p + k) fun y hy => ?_
              have := hfirst y hy
              rw [hlen] at hk
              simp only at this
              omega
            · exact hjumps x hx
        · cases h

end Writer

-- A script's code as its parts were laid out: the statements, the instruction that ends the script,
-- and the places of the variables.
structure Layout.Carries (L : Layout) (inputs : List InputVar) (script : Script) : Prop where
  code : ∃ q k, StmtsCode L none 0 script 0 q k ∧ L.At q .exit L.script.code.size
  size : L.script.localsCount = L.slots.length
  room : L.slots.length ≤ 256
  nodup : L.slots.Nodup
  named : ∀ name ∈ L.slots, PlainName name ∨
    ∃ what k, what ∈ hiddenWords ∧ name = hiddenName what k
  inputs : CompiledScript.inputTable L.slots inputs = .ok L.script.inputs

namespace Emit

theorem inputSlots_coded {fin : Emitter} {L : Layout} (hf : Finished fin L)
    (inputs : List InputVar) (hnames : ∀ v ∈ inputs, PlainName v.name) :
    Coded fin (inputSlots inputs) Eq := by
  induction inputs with
  | nil => exact .pure ()
  | cons v rest ih =>
      refine ((slot_lays hf (hnames v (by simp)) 0).bind fun _ =>
        ih fun v hv => hnames v (by simp [hv])).imp ?_
      rintro e _ e' - ⟨n, e₁, ⟨-, hpos, hhidden⟩, hpos', hhidden'⟩
      exact ⟨hpos.symm.trans hpos', hhidden'.trans hhidden⟩

end Emit

-- The names of a script's variables, in the order of their places.
def CompiledScript.slotNames (r : Registry) (options : CompileOptions) (script : Script)
    (analysis : Analysis) : List String :=
  match (Emit.script ⟨r, analysis.symbols, options.level⟩ analysis.inputs script).run {} with
  | .ok (_, e) => e.slots
  | .error _ => []

open Emit in
-- The code of a checked script is laid out as its statements say.
theorem CompiledScript.generate_lays {r : Registry} {options : CompileOptions} {script : Script}
    {analysis : Analysis} {s : CompiledScript} (hplain : Stmt.AllPlain script)
    (hnames : ∀ v ∈ analysis.inputs, PlainName v.name)
    (h : generate r options script analysis = .ok s) :
    (Layout.mk s r analysis.symbols options.level (slotNames r options script analysis)).Carries
      analysis.inputs script := by
  obtain ⟨⟨⟨⟩, fin⟩, hrun, h₁⟩ := except_bind_ok.mp h
  obtain ⟨code, hcode, h₂⟩ := except_bind_ok.mp h₁
  obtain ⟨table, htable, h₃⟩ := except_bind_ok.mp h₂
  cases h₃
  rw [slotNames, hrun]
  let L : Layout := ⟨⟨options.name, code, fin.strings.strings, fin.slots.length, fin.maxDepth, table⟩,
    r, analysis.symbols, options.level, fin.slots⟩
  let env : EmitEnv := ⟨r, analysis.symbols, options.level⟩
  have hstart : Sane {} := ⟨.nil _ _, ⟨by simp [StringPool.empty], by simp [StringPool.empty], by simp, .nil, by simp⟩⟩
  have hstep : Step {} fin := Grows.step (fun n => .script env analysis.inputs hnames script hplain) hrun
  have hsane := hstart.step hstep
  obtain ⟨hsize, hother, hjumps⟩ := Writer.resolve_ok hsane.fits hcode
  have hf : Finished fin L := ⟨hsize, hother, hjumps, rfl, rfl⟩
  have hkept : Kept 0 fin fin := ⟨Nat.le_refl _, fun _ _ _ => rfl, fun _ _ hl => hl,
    ⟨[], by simp, by simp⟩, List.prefix_rfl, List.prefix_rfl⟩
  have hexit : Coded fin (op .exit) fun p q => L.At p .exit q := .op hf rfl fun _ => rfl
  have hall := Runs.seq (.of_coded (inputSlots_coded hf analysis.inputs hnames)) <|
    .seq (stmts_runs hf env rfl rfl rfl script hplain) (.of_coded hexit)
  obtain ⟨_, _, ⟨rfl, rfl⟩, q, k, hcode, hat, -⟩ :=
    hall.lays 0 {} _ fin hstart (Nat.le_refl _) hrun hkept none rfl
  exact
    { code := ⟨q, k, hcode, hsize ▸ hat⟩
      size := rfl
      room := hsane.tidy.room
      nodup := hsane.tidy.nodup
      named := fun name hmem => (hsane.tidy.named name hmem).imp_right
        fun ⟨what, k, hw, _, heq⟩ => ⟨what, k, hw, heq⟩
      inputs := htable }

theorem CompiledScript.generate_carries {r : Registry} {options : CompileOptions} {script : Script}
    {analysis : Analysis} {s : CompiledScript} (hplain : Stmt.AllPlain script)
    (hnames : ∀ v ∈ analysis.inputs, PlainName v.name)
    (h : generate r options script analysis = .ok s) :
    ∃ L : Layout, L.script = s ∧ L.registry = r ∧ L.symbols = analysis.symbols ∧
      L.level = options.level ∧ L.Carries analysis.inputs script :=
  ⟨_, rfl, rfl, rfl, rfl, generate_lays hplain hnames h⟩

-- The line of an input in the table of a compiled script.
def InputVar.entry (slots : List String) (v : InputVar) : String × InputSlot :=
  (v.name, ⟨v.ty, (slots.idxOf? v.name).getD 0⟩)

theorem putSorted_perm {α : Type} {name : String} {value : α} {l : List (String × α)}
    (h : name ∉ l.map (·.1)) : (putSorted name value l).Perm ((name, value) :: l) := by
  induction l with
  | nil => exact .refl _
  | cons entry rest ih =>
      simp only [List.map_cons, List.mem_cons, not_or] at h
      simp only [putSorted, if_neg h.1]
      split
      · exact .refl _
      · exact ((ih h.2).cons entry).trans (.swap _ _ _)

theorem CompiledScript.inputTable_perm {slots : List String} {inputs : List InputVar}
    {table : List (String × InputSlot)} (hnodup : (inputs.map (·.name)).Nodup)
    (h : inputTable slots inputs = .ok table) :
    table.Perm (inputs.map (InputVar.entry slots)) ∧
      ∀ v ∈ inputs, ∃ i, slots.idxOf? v.name = some i := by
  induction inputs generalizing table with
  | nil =>
      cases h
      exact ⟨.refl _, fun _ hv => (List.not_mem_nil hv).elim⟩
  | cons v rest ih =>
      rw [List.map_cons, List.nodup_cons] at hnodup
      simp only [inputTable] at h
      cases hi : slots.idxOf? v.name with
      | none =>
          rw [hi] at h
          cases h
      | some i =>
          rw [hi] at h
          obtain ⟨others, hothers, h⟩ := except_bind_ok.mp h
          cases h
          obtain ⟨hperm, hfound⟩ := ih hnodup.2 hothers
          have hfresh : v.name ∉ others.map (·.1) := by
            rw [(hperm.map (·.1)).mem_iff, List.map_map]
            exact hnodup.1
          refine ⟨(putSorted_perm hfresh).trans ?_, fun w hw => ?_⟩
          · rw [List.map_cons, InputVar.entry, hi]
            exact hperm.cons _
          · rcases List.mem_cons.mp hw with rfl | hw
            · exact ⟨i, hi⟩
            · exact hfound w hw

-- Distinct inputs have distinct places.
theorem Layout.Carries.table {L : Layout} {inputs : List InputVar} {script : Script}
    (h : L.Carries inputs script) (hnodup : (inputs.map (·.name)).Nodup) :
    (∀ name slot, (name, slot) ∈ L.script.inputs ↔ ∃ v ∈ inputs, v.name = name ∧
      v.ty = slot.ty ∧ L.slots[slot.slot]? = some name) ∧
    (L.script.inputs.map fun entry => entry.2.slot).Nodup := by
  obtain ⟨hperm, hfound⟩ := CompiledScript.inputTable_perm hnodup h.inputs
  have hplace : ∀ v ∈ inputs, L.slots[(v.entry L.slots).2.slot]? = some v.name := by
    intro v hv
    obtain ⟨i, hi⟩ := hfound v hv
    obtain ⟨hlt, hname, -⟩ := List.idxOf?_eq_some_iff.mp hi
    simp only [InputVar.entry, hi, Option.getD_some]
    rw [List.getElem?_eq_getElem hlt, hname]
  refine ⟨fun name slot => ?_, ?_⟩
  · rw [hperm.mem_iff, List.mem_map]
    constructor
    · rintro ⟨v, hv, heq⟩
      have := hplace v hv
      rw [heq] at this
      cases heq
      exact ⟨v, hv, rfl, rfl, this⟩
    · rintro ⟨v, hv, rfl, hty, hslot⟩
      refine ⟨v, hv, ?_⟩
      have hsame := hplace v hv
      obtain ⟨hlt, -⟩ := List.getElem?_eq_some_iff.mp hsame
      have hindex := (List.getElem?_inj hlt h.nodup).mp (hsame.trans hslot.symm)
      obtain ⟨ty, i⟩ := slot
      simp only [InputVar.entry] at hindex hty ⊢
      rw [hindex, hty]
  · rw [(hperm.map _).nodup_iff, List.map_map]
    refine List.pairwise_map.mpr ((List.pairwise_map.mp hnodup).imp_of_mem ?_)
    intro v w hv hw hne heq
    have hsame := hplace v hv
    simp only [Function.comp_apply] at heq
    rw [heq, hplace w hw, Option.some.injEq] at hsame
    exact hne hsame.symm

theorem Layout.Carries.entered {L : Layout} {inputs : List InputVar} {script : Script}
    (h : L.Carries inputs script) (hnodup : (inputs.map (·.name)).Nodup)
    {v : InputVar} (hv : v ∈ inputs) :
    ∃ slot, (v.name, slot) ∈ L.script.inputs ∧ slot.ty = v.ty := by
  obtain ⟨hperm, -⟩ := CompiledScript.inputTable_perm hnodup h.inputs
  exact ⟨(v.entry L.slots).2, hperm.mem_iff.mpr (List.mem_map.mpr ⟨v, hv, rfl⟩), rfl⟩

end HostScript
