import HostScript.Proofs.Machine.Inputs
import HostScript.Proofs.Meaning.Script

namespace HostScript

-- What a checked script says of its inputs: each has a name of its own, and those that may hold a text or
-- an object are flagged.
structure Analysis.Proper (a : Analysis) : Prop where
  plain : ∀ v ∈ a.inputs, PlainName v.name
  distinct : (a.inputs.map (·.name)).Nodup
  flagged : ∀ v ∈ a.inputs, v.ty.mayBeRef = true → a.symbols.mayHoldRef v.name = true

-- The variables before the first statement: inputs have the values they were given, and all others
-- are null.
def Store.start (inputs : List InputVar) (supplied : List (String × Value)) (world : World) : Store :=
  ⟨fun x => if inputs.any (·.name = x) then Machine.suppliedValue supplied x else .null,
    ⟨world, #[]⟩⟩

def InputVar.accepted (r : Registry) (supplied : List (String × Value)) (v : InputVar) : Bool :=
  v.ty.admits (r.typeOf (Machine.suppliedValue supplied v.name))

theorem InputVar.accepted_eq {r : Registry} {supplied : List (String × Value)} {v : InputVar}
    {slot : InputSlot} (h : slot.ty = v.ty) :
    v.accepted r supplied = slot.accepted r supplied v.name := by
  rw [InputVar.accepted, InputSlot.accepted, h]

section

variable {L : Layout} {inputs : List InputVar} {script : List Stmt}

-- What a machine shows once the inputs are in their places.
def View.startWith (m : Machine) (script : CompiledScript) (supplied : List (String × Value)) :
    View :=
  { View.start m script.localsCount with
    locals := View.bound supplied script.inputs (View.start m script.localsCount).locals }

theorem View.getElem?_start {m : Machine} {n i : Nat} (h : i < n) :
    (View.start m n).locals[i]? = some .null := by
  simp only [View.start, Array.getElem?_replicate]
  rw [if_pos (by omega)]

theorem Layout.Carries.ready {a : Analysis} {r : Registry} {supplied : List (String × Value)}
    (h : L.Carries a.inputs script) (hproper : a.Proper) (hsymbols : L.symbols = a.symbols)
    (haccepted : ∀ v ∈ a.inputs, v.accepted r supplied = true) (m : Machine) :
    Ready L 0 (Store.start a.inputs supplied m.world) (View.startWith m L.script supplied) := by
  obtain ⟨htable, hnodup⟩ := h.table hproper.distinct
  have hlt : ∀ {name n}, L.Slot name n → n.toNat < L.script.localsCount := fun hslot => by
    rw [h.size]
    exact L.slot_lt hslot
  -- Every place that is not an input's is null.
  have hother : ∀ {name n}, L.Slot name n → a.inputs.any (·.name = name) = false →
      (View.startWith m L.script supplied).locals[n.toNat]? = some .null := by
    intro name n hslot hnone
    refine (View.getElem?_bound_of_forall_ne ?_).trans (View.getElem?_start (hlt hslot))
    rintro ⟨name', slot⟩ hmem heq
    obtain ⟨v, hv, rfl, -, hplace⟩ := (htable name' slot).mp hmem
    simp only at heq
    rw [heq, show L.slots[n.toNat]? = some name from hslot, Option.some.injEq] at hplace
    rw [List.any_eq_false] at hnone
    exact hnone v hv (by simp [hplace])
  exact
    { pc := rfl
      stack := rfl
      outside := rfl
      returned := rfl
      warnings := rfl
      room := by
        simp only [View.startWith, View.size_bound, View.start, Array.size_replicate, h.size]
        omega
      holds :=
        { found := fun name n hplain hslot => by
            cases hin : a.inputs.any (·.name = name) with
            | false =>
                rw [hother hslot hin]
                simp only [Store.start, hin, Bool.false_eq_true, if_false]
            | true =>
                obtain ⟨v, hv, hname⟩ := List.any_eq_true.mp hin
                have hname : v.name = name := by simpa using hname
                have hmem : (name, (⟨v.ty, n.toNat⟩ : InputSlot)) ∈ L.script.inputs :=
                  (htable _ _).mpr ⟨v, hv, hname, rfl, hslot⟩
                have hsize : n.toNat < (View.start m L.script.localsCount).locals.size := by
                  have := hlt hslot
                  simp only [View.start, Array.size_replicate]
                  omega
                have hvalue := View.getElem?_bound supplied hmem hnodup hsize
                simp only [View.startWith, hvalue, Store.start, hin, if_true]
          spared := fun name hflag => by
            simp only [Store.start]
            split
            · rename_i hin
              obtain ⟨v, hv, hname⟩ := List.any_eq_true.mp hin
              have hname : v.name = name := by simpa using hname
              have hty : v.ty.mayBeRef = false := by
                cases href : v.ty.mayBeRef with
                | false => rfl
                | true =>
                    have hheld := hproper.flagged v hv href
                    rw [hname, ← hsymbols, hflag] at hheld
                    cases hheld
              subst hname
              exact Value.isRef_of_conforms (Value.conforms_of_admits (haccepted v hv)) hty
            · rfl
          hidden := fun what k n x hw hiter hslot hx => by
            rw [hother hslot] at hx
            · cases hx
              rfl
            · rw [List.any_eq_false]
              intro v hv hname
              have hname : v.name = hiddenName what k := by simpa using hname
              exact not_plainName_hiddenName what k (hname ▸ hproper.plain v hv) } }

end

end HostScript
