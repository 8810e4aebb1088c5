import HostScript.Proofs.Compile.Slots
import HostScript.Proofs.Compile.Stack
import HostScript.Proofs.Compile.Uses
import HostScript.Proofs.Typing.Derivation

namespace HostScript

namespace Script

-- What slots are given out for: the inputs of a script, and what its statements read and write.
def owners (level : Nat) (script : Script) : List Owner :=
  script.inputs.map (fun v => .named v.name) ++
    (Stmt.accessesOfAll level 0 script).map (·.owner)

-- The slots of the compiler's own in a script, loop by loop.
def owned (level : Nat) (script : Script) : List (List Owner) :=
  Stmt.ownedByAll level 0 script

variable {level : Nat} {script : Script}

theorem among_of_mem_owners (hplain : Stmt.AllPlain script)
    (hnames : ∀ v ∈ script.inputs, PlainName v.name) :
    ∀ o ∈ script.owners level, o.Among (script.owned level).flatten := by
  intro o ho
  rcases List.mem_append.mp ho with ho | ho
  · obtain ⟨v, hv, rfl⟩ := List.mem_map.mp ho
    exact hnames v hv
  · obtain ⟨a, ha, rfl⟩ := List.mem_map.mp ho
    exact Stmt.accessesOfAll_among hplain (List.Subset.refl _) a ha

-- The slots of the compiler's own that are used are those of the loops.
theorem mem_owned_iff (level : Nat) (hplain : Stmt.AllPlain script)
    (hnames : ∀ v ∈ script.inputs, PlainName v.name) (o : Owner) :
    o ∈ (script.owned level).flatten ↔ o ∈ script.owners level ∧ o.isHidden = true := by
  constructor
  · intro ho
    obtain ⟨word, -, number, rfl⟩ := (Stmt.inTurn_ownedByAll level 0 script).hidden o ho
    exact ⟨List.mem_append_right _ (Stmt.ownedByAll_reached level 0 script ho), rfl⟩
  · rintro ⟨ho, hhidden⟩
    have hamong := among_of_mem_owners hplain hnames o ho
    cases o with
    | named name => cases hhidden
    | hidden word number => exact hamong

end Script

-- All owners have slots.
theorem Layout.Carries.owners_named {L : Layout} {script : Script}
    (h : L.Carries script.inputs script) (hfirst : script.inputs.map (·.name) <+: L.slots) :
    ∀ o ∈ script.owners L.level, o.name ∈ L.slots := by
  intro o ho
  rcases List.mem_append.mp ho with ho | ho
  · obtain ⟨v, hv, rfl⟩ := List.mem_map.mp ho
    exact hfirst.subset (List.mem_map_of_mem hv)
  · obtain ⟨a, ha, rfl⟩ := List.mem_map.mp ho
    obtain ⟨q, k, hcode, -⟩ := h.code
    exact hcode.uses.1.slot_mem a ha

theorem Layout.Carries.place_input {L : Layout} {inputs : List InputVar} {script : Script}
    (h : L.Carries inputs script) (hfirst : inputs.map (·.name) <+: L.slots) {i : Nat}
    {v : InputVar} (hv : inputs[i]? = some v) : L.place (.named v.name) = i := by
  obtain ⟨hlt, rfl⟩ := List.getElem?_eq_some_iff.mp hv
  refine place_eq h.nodup ?_
  rw [List.prefix_iff_getElem?.mp hfirst i (by simpa using hlt), List.getElem_map]
  rfl

theorem Layout.Carries.mem_inputs_iff {L : Layout} {inputs : List InputVar} {script : Script}
    (h : L.Carries inputs script) (hnodup : (inputs.map (·.name)).Nodup)
    (hfirst : inputs.map (·.name) <+: L.slots) (entry : String × InputSlot) :
    entry ∈ L.script.inputs ↔
      ∃ v ∈ inputs, entry = (v.name, ⟨v.ty, L.place (.named v.name)⟩) := by
  obtain ⟨name, ty, slot⟩ := entry
  rw [(h.table hnodup).1]
  constructor
  · rintro ⟨v, hv, rfl, rfl, hslot⟩
    have hplace : L.place (.named v.name) = slot := place_eq h.nodup hslot
    exact ⟨v, hv, hplace ▸ rfl⟩
  · rintro ⟨v, hv, heq⟩
    cases heq
    exact ⟨v, hv, rfl, rfl, getElem?_place (o := .named v.name)
      (hfirst.subset (List.mem_map_of_mem hv))⟩

namespace CompiledScript

-- The slot that is given out for a variable or for one of the compiler's own.
def place (r : Registry) (options : CompileOptions) (script : Script) (analysis : Analysis)
    (o : Owner) : Nat :=
  (slotNames r options script analysis).idxOf o.name

-- How slots are given out in the code of a script. No two owners share one and none is left over;
-- inputs come first, in the order of their declaration. The code reads and writes what the
-- statements do, each in the slot of its owner, and every loop that counts with slots has its own,
-- which no variable has.
structure Allotted (s : CompiledScript) (level : Nat) (script : Script) (place : Owner → Nat) :
    Prop where
  room : s.localsCount ≤ 256
  range : ∀ n, n < s.localsCount ↔ ∃ o ∈ script.owners level, place o = n
  injective : ∀ o ∈ script.owners level, ∀ o' ∈ script.owners level, place o = place o' → o = o'
  inputs : ∀ i v, script.inputs[i]? = some v → place (.named v.name) = i
  table : ∀ entry, entry ∈ s.inputs ↔
    ∃ v ∈ script.inputs, entry = (v.name, ⟨v.ty, place (.named v.name)⟩)
  accesses : s.slotAccesses =
    (Stmt.accessesOfAll level 0 script).map fun a => (place a.owner, a.writes)
  owned : ∀ o, o ∈ (script.owned level).flatten ↔ o ∈ script.owners level ∧ o.isHidden = true
  apart : ((script.owned level).flatten.map place).Nodup
  unnamed : ∀ name, .named name ∈ script.owners level →
    place (.named name) ∉ (script.owned level).flatten.map place

variable {r : Registry} {options : CompileOptions} {source : String} {s : CompiledScript}
  {script : Script} {analysis : Analysis}

-- The code of a checked script gives every owner a slot of its own, and nothing else.
theorem allotted_of_generate (hplain : Stmt.AllPlain script)
    (hinputs : analysis.inputs = script.inputs)
    (hnames : ∀ v ∈ script.inputs, PlainName v.name)
    (hnodup : (script.inputs.map (·.name)).Nodup)
    (h : generate r options script analysis = .ok s) :
    s.Allotted options.level script (place r options script analysis) := by
  let L : Layout :=
    ⟨s, r, analysis.symbols, options.level, slotNames r options script analysis⟩
  have hcarries : L.Carries script.inputs script := by
    have hlays := generate_lays hplain (hinputs ▸ hnames) h
    rwa [hinputs] at hlays
  have hfirst : script.inputs.map (·.name) <+: L.slots :=
    hinputs ▸ inputs_prefix_slotNames hplain (hinputs ▸ hnodup) h
  have hkept : ∀ o ∈ script.owners L.level, o.name ∈ L.slots := hcarries.owners_named hfirst
  have hused : ∀ name ∈ L.slots, ∃ o ∈ script.owners L.level, o.name = name :=
    slotNames_named (N := fun name => ∃ o ∈ script.owners L.level, o.name = name)
      (fun v hv =>
        ⟨.named v.name, List.mem_append_left _ (List.mem_map_of_mem (hinputs ▸ hv)), rfl⟩)
      (fun a ha => ⟨a.owner, List.mem_append_right _ (List.mem_map_of_mem ha), rfl⟩) h
  have hturn : Owner.InTurn 0 (script.owned L.level).flatten :=
    Stmt.inTurn_ownedByAll L.level 0 script
  have hinj : ∀ o ∈ script.owners L.level, ∀ o' ∈ script.owners L.level,
      L.place o = L.place o' → o = o' := by
    intro o ho o' ho' heq
    have hname : o.name = o'.name := (List.idxOf_inj (hkept o ho)).mp heq
    exact (Script.among_of_mem_owners hplain hnames o ho).eq_of_name hturn
      (Script.among_of_mem_owners hplain hnames o' ho') hname
  have howned := Script.mem_owned_iff L.level hplain hnames
  obtain ⟨q, k, hcode, hexit⟩ := hcarries.code
  have huses : L.Uses (Stmt.accessesOfAll L.level 0 script) 0 s.code.size :=
    hcode.uses.1.behind (hexit.uses rfl)
  exact
    { room := hcarries.size ▸ hcarries.room
      range := fun n => by
        rw [hcarries.size]
        constructor
        · intro hn
          obtain ⟨o, ho, hname⟩ := hused L.slots[n] (List.getElem_mem hn)
          refine ⟨o, ho, ?_⟩
          rw [place, hname]
          exact hcarries.nodup.idxOf_getElem n hn
        · rintro ⟨o, ho, rfl⟩
          exact List.idxOf_lt_length_of_mem (hkept o ho)
      injective := hinj
      inputs := fun i v hv => hcarries.place_input hfirst hv
      table := hcarries.mem_inputs_iff hnodup hfirst
      accesses := huses.filterMap_starts hcarries.nodup (Nat.le_refl _) (Nat.le_refl _)
      owned := howned
      apart := hturn.nodup.map_on fun o ho o' ho' =>
        hinj o ((howned o).mp ho).1 o' ((howned o').mp ho').1
      unnamed := fun name hname hmem => by
        obtain ⟨o, ho, heq⟩ := List.mem_map.mp hmem
        obtain ⟨hmem, hhidden⟩ := (howned o).mp ho
        cases hinj o hmem _ hname heq
        cases hhidden }

-- In compiled code no two variables share a slot, and no loop's own slot is a variable's.
theorem slots_allotted (hr : r.Built) (hcompile : compile r options source = .ok s) :
    ∃ script analysis, Script.analyze r options.imports source = .ok (script, analysis) ∧
      s.Allotted options.level script (place r options script analysis) := by
  obtain ⟨⟨script, analysis⟩, hanalyze, hgenerate⟩ := except_bind_ok.mp hcompile
  obtain ⟨parsed, hparse, hcheck⟩ := except_bind_ok.mp hanalyze
  obtain ⟨hsound, hnames⟩ :=
    Script.sound_of_check hr.numbered (Script.plain_of_parse hparse) hcheck
  obtain ⟨-, hinputs, hnodup⟩ := Script.typed_of_check hr.numbered hcheck
  exact ⟨script, analysis, hanalyze,
    allotted_of_generate hsound.plain hinputs (hinputs ▸ hnames) hnodup hgenerate⟩

-- Two inputs, a variable for items, and two loops with slots of their own, one in the other.
def searching : String :=
  "in <long> [n]\nin [items]\nforeach [item] in [items]\nloop [n]\nbreak\nend\nend\nreturn [n]"

theorem searching_slots : ∃ s, compile .empty {} searching = .ok s ∧ s.localsCount = 8 ∧
    ∃ script analysis, Script.analyze .empty ["system"] searching = .ok (script, analysis) ∧
      (script.owned 1).flatten.length = 5 ∧
      s.Allotted 1 script (place .empty {} script analysis) := by
  have hcount : (compile .empty {} searching).toOption.map (·.localsCount) = some 8 := by
    decide +kernel
  have howned : (Script.analyze .empty ["system"] searching).toOption.map
      (fun found => (found.1.owned 1).flatten.length) = some 5 := by
    decide +kernel
  cases hcompile : compile .empty {} searching with
  | error d =>
      rw [hcompile] at hcount
      cases hcount
  | ok s =>
      rw [hcompile] at hcount
      obtain ⟨script, analysis, hanalyze, hallotted⟩ := slots_allotted .empty hcompile
      have hanalyze' : Script.analyze .empty ["system"] searching = .ok (script, analysis) :=
        hanalyze
      rw [hanalyze'] at howned
      exact ⟨s, rfl, Option.some.inj hcount, script, analysis, hanalyze', Option.some.inj howned,
        hallotted⟩

end CompiledScript

end HostScript
