import HostScript.Machine.Run
import HostScript.Proofs.Stateful

namespace HostScript.Machine

-- An order puts the head somewhere into an order of the rest.
theorem perm_arrangement {α : Type} (n : Nat) (as : List α) : (arrangement n as).Perm as := by
  induction as generalizing n with
  | nil => exact .nil
  | cons a rest ih =>
      have hrest := ih (n / (rest.length + 1))
      have hlt : n % (rest.length + 1) < rest.length + 1 := Nat.mod_lt n (by omega)
      have hle : n % (rest.length + 1) ≤ (arrangement (n / (rest.length + 1)) rest).length := by
        rw [hrest.length_eq]
        omega
      exact (List.perm_insertIdx a _ hle).trans (hrest.cons a)

-- Every order has a number.
theorem exists_arrangement_eq {α : Type} {as bs : List α} (h : bs.Perm as) :
    ∃ n, arrangement n as = bs := by
  induction as generalizing bs with
  | nil => exact ⟨0, h.eq_nil.symm⟩
  | cons a rest ih =>
      -- without the head, which stands somewhere, an order of the rest is left
      obtain ⟨i, hi, hat⟩ := List.mem_iff_getElem.mp (h.mem_iff.mpr List.mem_cons_self)
      have hback : (bs.eraseIdx i).insertIdx i a = bs := by
        rw [← hat]
        exact List.insertIdx_eraseIdx_getElem hi
      have hlen := h.length_eq
      rw [List.length_cons] at hlen
      have hle : i ≤ (bs.eraseIdx i).length := by
        rw [List.length_eraseIdx_of_lt hi]
        omega
      have hrest : (bs.eraseIdx i).Perm rest := by
        refine List.Perm.cons_inv (a := a) ((List.perm_insertIdx a _ hle).symm.trans ?_)
        rwa [hback]
      obtain ⟨n, hn⟩ := ih hrest
      have hlt : i < rest.length + 1 := by omega
      refine ⟨i + (rest.length + 1) * n, ?_⟩
      rw [arrangement, Nat.add_mul_mod_self_left, Nat.mod_eq_of_lt hlt,
        Nat.add_mul_div_left _ _ rest.length.succ_pos, Nat.div_eq_of_lt hlt, Nat.zero_add, hn, hback]

variable {inputs inputs' : List (String × Value)} {name : String} {v : Value}

-- Where all entries whose names are `name` in lower case have the same value.
def Consistent (inputs : List (String × Value)) (name : String) : Prop :=
  ∀ a ∈ inputs, ∀ b ∈ inputs, Text.lower a.1 = name → Text.lower b.1 = name → a.2 = b.2

theorem suppliedValue_of_forall (h : ∀ a ∈ inputs, Text.lower a.1 = name → a.2 = v)
    (hmem : ∃ a ∈ inputs, Text.lower a.1 = name) : suppliedValue inputs name = v := by
  unfold suppliedValue
  cases hfind : inputs.reverse.find? fun a => Text.lower a.1 = name with
  | none =>
      obtain ⟨a, ha, hname⟩ := hmem
      have hother := List.find?_eq_none.mp hfind a (List.mem_reverse.mpr ha)
      exact absurd (decide_eq_true hname) hother
  | some a =>
      have hname : Text.lower a.1 = name := by simpa using List.find?_some hfind
      exact h a (List.mem_reverse.mp (List.mem_of_find?_eq_some hfind)) hname

theorem suppliedValue_of_not_exists (h : ¬∃ a ∈ inputs, Text.lower a.1 = name) :
    suppliedValue inputs name = .null := by
  have hfind : (inputs.reverse.find? fun a => Text.lower a.1 = name) = none := by
    rw [List.find?_eq_none]
    intro a ha hname
    exact h ⟨a, List.mem_reverse.mp ha, of_decide_eq_true hname⟩
  rw [suppliedValue, hfind]
  rfl

theorem suppliedValue_append (inputs : List (String × Value)) (a : String × Value) :
    suppliedValue (inputs ++ [a]) (Text.lower a.1) = a.2 := by
  simp [suppliedValue]

theorem Consistent.suppliedValue_eq (h : Consistent inputs name) (hperm : inputs'.Perm inputs) :
    suppliedValue inputs' name = suppliedValue inputs name := by
  by_cases hmem : ∃ a ∈ inputs, Text.lower a.1 = name
  · obtain ⟨a, ha, hname⟩ := hmem
    have hall : ∀ b ∈ inputs, Text.lower b.1 = name → b.2 = a.2 :=
      fun b hb hb' => h b hb a ha hb' hname
    rw [suppliedValue_of_forall hall ⟨a, ha, hname⟩]
    exact suppliedValue_of_forall (fun b hb => hall b (hperm.mem_iff.mp hb))
      ⟨a, hperm.mem_iff.mpr ha, hname⟩
  · rw [suppliedValue_of_not_exists hmem]
    apply suppliedValue_of_not_exists
    rintro ⟨a, ha, hname⟩
    exact hmem ⟨a, hperm.mem_iff.mp ha, hname⟩

section

variable [HostHooks]

-- The inputs matter through what is bound to the names of a script.
theorem bindInputs_congr {table : List (String × InputSlot)} (r : Registry)
    (h : ∀ entry ∈ table, suppliedValue inputs' entry.1 = suppliedValue inputs entry.1) :
    bindInputs r inputs' table = bindInputs r inputs table := by
  induction table with
  | nil => rfl
  | cons entry rest ih =>
      obtain ⟨name, slot⟩ := entry
      rw [bindInputs, bindInputs, h _ List.mem_cons_self,
        ih fun e he => h e (List.mem_cons_of_mem _ he)]

-- A run can depend on the order of the inputs only through a name of the script that is given two
-- values.
theorem runInOrder_congr {env : RunEnv}
    (h : ∀ entry ∈ env.script.inputs, Consistent inputs entry.1) (hperm : inputs'.Perm inputs)
    (fuel : Nat) (m : Machine) : m.runInOrder env fuel inputs' = m.runInOrder env fuel inputs := by
  have hbind := bindInputs_congr env.registry fun entry he =>
    (h entry he).suppliedValue_eq hperm
  simp only [runInOrder, execute, hbind]

end

-- What the script `in [x]`, `return [x]` is compiled to, with `name` for x.
def echo (name : String) : CompiledScript where
  name := "script"
  code := #[8, 0, 54, 55]
  strings := #[]
  localsCount := 1
  maxStack := 1
  inputs := [(name, ⟨.dynamic, 0⟩)]

section

variable [HostHooks]

theorem returned_echo (inputs : List (String × Value)) (name : String) :
    ((Machine.new {} .empty).runInOrder ⟨.empty, echo name⟩ 2 inputs).2.returned =
      suppliedValue inputs name := by
  simp only [runInOrder, execute, echo, bindInputs]
  generalize suppliedValue inputs name = v
  cases v <;> rfl

-- A run never depends on the order of the inputs exactly if names that are the same in lower case
-- are given the same value.
theorem run_reordered_iff (inputs : List (String × Value)) :
    (∀ env fuel (m : Machine) inputs', inputs'.Perm inputs →
      m.runInOrder env fuel inputs' = m.runInOrder env fuel inputs) ↔
    ∀ a ∈ inputs, ∀ b ∈ inputs, Text.lower a.1 = Text.lower b.1 → a.2 = b.2 := by
  constructor
  · intro h a ha b hb hname
    -- whichever entry comes last is what the script gets
    have hlast : ∀ c ∈ inputs, Text.lower c.1 = Text.lower a.1 →
        suppliedValue inputs (Text.lower a.1) = c.2 := by
      intro c hc hlower
      obtain ⟨before, after, hsplit⟩ := List.append_of_mem hc
      have hperm : (before ++ after ++ [c]).Perm inputs := by
        rw [hsplit]
        exact (List.perm_append_singleton c (before ++ after)).trans List.perm_middle.symm
      have hrun := h ⟨.empty, echo (Text.lower a.1)⟩ 2 (.new {} .empty) _ hperm
      have hsame := congrArg (·.2.returned) hrun
      simp only [returned_echo] at hsame
      rw [← hsame, ← hlower, suppliedValue_append]
    exact (hlast a ha rfl).symm.trans (hlast b hb hname.symm)
  · intro h env fuel m inputs' hperm
    refine runInOrder_congr (fun entry _ a ha b hb hname hname' => ?_) hperm fuel m
    exact h a ha b hb (hname.trans hname'.symm)

-- Whatever order a run takes, it is the one in which such inputs are given.
theorem run_of_consistent (h : ∀ name, Consistent inputs name) (env : RunEnv) (fuel : Nat)
    (m : Machine) : m.run env fuel inputs = ((m.runInOrder env fuel inputs).1,
      { (m.runInOrder env fuel inputs).2 with runs := m.runs + 1 }) := by
  simp only [run, runInOrder_congr (fun entry _ => h entry.1) (perm_arrangement m.runs inputs)]

end

-- Two names for one input, in the first two runs of a machine.
example : ((Machine.new {} .empty).run ⟨.empty, echo "x"⟩ 2
    [("X", .bool false), ("x", .bool true)]).2.returned = .bool true := by rfl

example : ({ Machine.new {} .empty with runs := 1 }.run ⟨.empty, echo "x"⟩ 2
    [("X", .bool false), ("x", .bool true)]).2.returned = .bool false := by rfl

end HostScript.Machine
