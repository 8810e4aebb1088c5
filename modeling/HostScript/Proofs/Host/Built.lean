import Mathlib
import HostScript.Host.Builder

namespace HostScript

theorem toNat_memberId {id : Nat} (h : id < 4294967296) :
    (Int32.ofNat id).toUInt32.toNat = id := by
  rw [Int32.toUInt32_ofNat', UInt32.toNat_ofNat']
  exact Nat.mod_eq_of_lt h

namespace Registry

-- Members are numbered with 32 bits.
def room : Nat :=
  4294967296

-- A registry that a host built, one registration after the other.
inductive Built : Registry → Prop
  | empty : Built .empty
  | type (cls : ObjectClass) (ns name : String) : Built r → Built (r.addType cls ns name).2
  | method (ns name : String) (owner : Option Nat) (params : List Ty) (returns : Ty)
      (call : MethodBody) : Built r → r.methods.size < room →
      Built (r.addMethod ns name owner params returns call).2
  | property (ns name : String) (owner : Option Nat) (ty : Ty) (getter : Option Getter)
      (setter : Option Setter) : Built r → r.properties.size < room →
      Built (r.addProperty ns name owner ty getter setter).2
  | const (ns name : String) (value : Literal) : Built r → Built (r.addConst ns name value)
  | constructor (ty : Nat) (params : List Ty) (build : Builder) : Built r →
      r.constructors.size < room → Built (r.addConstructor ty params build).2
  | iteration (ty : Nat) (count getItem : String) : Built r →
      r.addIteration ty count getItem = .ok r' → Built r'

-- Every member is found by its own number.
def Indexed {α : Type} (number : α → Nat) (members : Array α) : Prop :=
  members.size ≤ room ∧ ∀ (k : Nat) d, members[k]? = some d → number d = k

theorem Indexed.empty {α : Type} (number : α → Nat) : Indexed number #[] :=
  ⟨Nat.zero_le _, by simp⟩

theorem Indexed.push {α : Type} {number : α → Nat} {members : Array α} {d : α}
    (h : Indexed number members) (hroom : members.size < room) (hd : number d = members.size) :
    Indexed number (members.push d) := by
  refine ⟨by simpa using hroom, fun k x hk => ?_⟩
  rw [Array.getElem?_push] at hk
  split at hk
  · rename_i heq
    cases hk
    rw [hd, heq]
  · exact h.2 k x hk

theorem Indexed.find {α : Type} {number : α → Nat} {members : Array α} {d : α}
    (h : Indexed number members) (hd : d ∈ members.toList) :
    members[number d]? = some d ∧ number d < room := by
  obtain ⟨k, hk⟩ := List.getElem?_of_mem hd
  rw [Array.getElem?_toList] at hk
  have hlt : k < members.size := (Array.getElem?_eq_some_iff.mp hk).choose
  rw [h.2 k d hk]
  exact ⟨hk, Nat.lt_of_lt_of_le hlt h.1⟩

-- Members are found by their numbers, and a type that can be walked has a readable count and a
-- method that takes one argument.
structure Numbered (r : Registry) : Prop where
  methods : Indexed MethodDef.id r.methods
  properties : Indexed PropertyDef.id r.properties
  constructors : Indexed ConstructorDef.id r.constructors
  iteration : ∀ t ∈ r.types.toList, ∀ it, t.iteration = some it →
    (∃ p ∈ r.properties.toList, p.id = it.count ∧ p.getter.isSome) ∧
    ∃ d ∈ r.methods.toList, d.id = it.getItem ∧ d.params.length = 1

variable {r : Registry}

-- More members do not disturb the iterations.
theorem Numbered.iteration_mono {r' : Registry} (h : r.Numbered)
    (htypes : ∀ t ∈ r'.types.toList, t ∈ r.types.toList ∨ t.iteration = none)
    (hproperties : ∀ p ∈ r.properties.toList, p ∈ r'.properties.toList)
    (hmethods : ∀ d ∈ r.methods.toList, d ∈ r'.methods.toList) :
    ∀ t ∈ r'.types.toList, ∀ it, t.iteration = some it →
      (∃ p ∈ r'.properties.toList, p.id = it.count ∧ p.getter.isSome) ∧
      ∃ d ∈ r'.methods.toList, d.id = it.getItem ∧ d.params.length = 1 := by
  intro t ht it hit
  rcases htypes t ht with hold | hnone
  · obtain ⟨⟨p, hp, hcount⟩, d, hd, hitem⟩ := h.iteration t hold it hit
    exact ⟨⟨p, hproperties p hp, hcount⟩, d, hmethods d hd, hitem⟩
  · rw [hnone] at hit
    cases hit

-- A type is made one that can be walked exactly if one property and one method of the type go by
-- the names, and they can be used for it.
theorem addIteration_eq_ok_iff {r' : Registry} {ty : Nat} {count getItem : String} :
    r.addIteration ty count getItem = .ok r' ↔
    ∃ p d t, r.instanceProperties ty (Text.lower count) = [p] ∧ p.getter.isSome ∧
      r.instanceMethods ty (Text.lower getItem) = [d] ∧ d.params.length = 1 ∧
      r.types[ty]? = some t ∧
      r' = { r with types :=
        r.types.setIfInBounds ty { t with iteration := some ⟨p.id, d.id⟩ } } := by
  constructor
  · intro h
    unfold addIteration at h
    dsimp only at h
    split at h
    · rename_i p hp
      split at h
      · cases h
      · rename_i hgetter
        split at h
        · rename_i d hd
          split at h
          · cases h
          · rename_i hparams
            split at h
            · rename_i t ht
              cases h
              refine ⟨p, d, t, hp, ?_, hd, not_not.mp hparams, ht, rfl⟩
              rwa [Option.isSome_iff_ne_none, ne_eq, ← Option.isNone_iff_eq_none]
            · cases h
        · cases h
    · cases h
  · rintro ⟨p, d, t, hp, hgetter, hd, hparams, ht, rfl⟩
    have hsome : p.getter.isNone = false := by
      rwa [Option.isNone_eq_false_iff]
    simp [addIteration, hp, hsome, hd, hparams, ht]

theorem Numbered.addIteration {r' : Registry} {ty : Nat} {count getItem : String} (h : r.Numbered)
    (hadd : r.addIteration ty count getItem = .ok r') : r'.Numbered := by
  obtain ⟨p, d, t, hp, hgetter, hd, hparams, -, rfl⟩ := addIteration_eq_ok_iff.mp hadd
  refine ⟨h.methods, h.properties, h.constructors, fun u hu it hit => ?_⟩
  rcases Array.mem_or_eq_of_mem_setIfInBounds (Array.mem_toList_iff.mp hu) with hold | rfl
  · exact h.iteration u (Array.mem_toList_iff.mpr hold) it hit
  · cases hit
    have hpm : p ∈ r.instanceProperties ty (Text.lower count) := by simp [hp]
    have hdm : d ∈ r.instanceMethods ty (Text.lower getItem) := by simp [hd]
    exact ⟨⟨p, (List.mem_filter.mp hpm).1, rfl, hgetter⟩,
      d, (List.mem_filter.mp hdm).1, rfl, hparams⟩

theorem Built.numbered (h : r.Built) : r.Numbered := by
  induction h with
  | empty => exact ⟨.empty _, .empty _, .empty _, by simp [Registry.empty]⟩
  | type cls ns name _ ih =>
      refine ⟨ih.methods, ih.properties, ih.constructors,
        ih.iteration_mono (fun t ht => ?_) (fun _ hp => hp) fun _ hd => hd⟩
      simp only [Registry.addType, Array.toList_push, List.mem_append, List.mem_singleton] at ht
      exact ht.imp_right fun heq => by rw [heq]
  | method ns name owner params returns call _ hroom ih =>
      refine ⟨ih.methods.push hroom rfl, ih.properties, ih.constructors,
        ih.iteration_mono (fun t ht => .inl ht) (fun _ hp => hp) fun d hd => ?_⟩
      simp [Registry.addMethod, Array.toList_push, hd]
  | property ns name owner ty getter setter _ hroom ih =>
      refine ⟨ih.methods, ih.properties.push hroom rfl, ih.constructors,
        ih.iteration_mono (fun t ht => .inl ht) (fun p hp => ?_) fun _ hd => hd⟩
      simp [Registry.addProperty, Array.toList_push, hp]
  | const ns name value _ ih => exact ⟨ih.methods, ih.properties, ih.constructors, ih.iteration⟩
  | constructor ty params build _ hroom ih =>
      exact ⟨ih.methods, ih.properties, ih.constructors.push hroom rfl, ih.iteration⟩
  | iteration ty count getItem _ hadd ih => exact ih.addIteration hadd

end Registry

end HostScript
