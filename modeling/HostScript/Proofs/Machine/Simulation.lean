import HostScript.Proofs.Machine.Effect

namespace HostScript

-- What an instruction must find so that references stay counted: a variable that is treated as
-- free of references holds none.
def Instr.Finds (v : View) : Instr → Prop
  | .loadLocNoRef slot | .setLocNoRef slot =>
    ∀ x, v.locals[slot.toNat]? = some x → x.isRef = false
  | _ => True

-- The same of the instruction that comes next, if one does.
def View.Finds (env : RunEnv) (v : View) : Prop :=
  v.pc < Plain.rangeEnd env v → ∀ i pc, env.script.fetch v.pc = .ok (i, pc) → i.Finds v

namespace Work

variable {m : Machine} {v : View} {env : RunEnv}

-- Giving back what was taken off the stack for a member found by name.
theorem giveAll_shows {c : Cell} {x : Value} {cells : List Cell} {xs : List Value}
    (hlen : cells.length = xs.length) (m₁ : Machine) (v₁ : View)
    (hs : m₁.Shows (c :: cells) (x :: xs) v₁) :
    ∃ m₂, (do releaseAll cells; release c : Work Unit) m₁ = .ok () m₂ ∧ m₂.Shows [] [] v₁ := by
  have hs' : m₁.Shows (c :: (cells ++ [])) (x :: (xs ++ [])) v₁ := by simpa using hs
  obtain ⟨m₂, h₂, hs₂⟩ := (hs'.rotate cells xs hlen).releaseAll hlen
  obtain ⟨m₃, h₃, hs₃⟩ := hs₂.release
  exact ⟨m₃, by simp [bind, EStateM.bind, h₂, h₃], hs₃⟩

theorem ofCalc_named (k : Calc (Ty × Value)) (r : Registry) (name : String) :
    (Plain.ofCalc k >>= fun a => Plain.ofCalc (Calc.result r a.1 name a.2) >>= Plain.push) =
      (Plain.ofCalc (Calc.named r name k) >>= Plain.push) := by
  rw [Calc.named, Plain.ofCalc_bind, bind_assoc]

theorem invokeDynamic_agrees (name argc : UInt16) (hs : m.Shows [] [] v) :
    Agrees (invokeDynamic env name argc m) (Plain.invokeDynamic env name argc v) := by
  refine poolString_agrees hs fun member => ?_
  by_cases hc : argc.toNat ≤ v.stack.length
  · obtain ⟨cells, m₁, h₁, hlen, hs₁⟩ := hs.popMany_ok hc
    simp only [bind, EStateM.bind, h₁, Plain.popMany, hc, if_true, Plain.pop]
    cases hv : v.stack.drop argc.toNat with
    | nil =>
        rw [hs₁.pop_nil hv]
        exact .underflow
    | cons x stack =>
        obtain ⟨c, m₂, h₂, hs₂⟩ := hs₁.pop_cons hv
        rw [h₂]
        simp only [List.append_nil] at hs₂
        have hvalues := (List.cons.inj hs₂.pending).2
        have hall := attempt_agrees hs₂ (callNamed_eq env.registry member hs₂.value hvalues)
          (giveAll_shows (by simp [hlen, hc]))
          fun a _ _ hs₃ => hs₃.pushResult_agrees env.registry a.1 member a.2
        rw [ofCalc_named] at hall
        simp only [bind_assoc] at hall
        exact hall
  · simp only [bind, EStateM.bind, hs.popMany_error hc, Plain.popMany, hc, if_false]
    exact .underflow

theorem getDynamicProperty_agrees (name : UInt16) (hs : m.Shows [] [] v) :
    Agrees (getDynamicProperty env name m) (Plain.getDynamicProperty env name v) := by
  refine poolString_agrees hs fun member => ?_
  refine pop_agrees hs fun c x m₁ v₁ hs₁ => ?_
  have hall := attempt_agrees hs₁ (readNamed_eq env.registry member hs₁.value)
    (fun _ _ => Machine.Shows.release)
    fun a _ _ hs₂ => hs₂.pushResult_agrees env.registry a.1 member a.2
  rw [ofCalc_named] at hall
  exact hall

theorem setDynamicProperty_agrees (name : UInt16) (hs : m.Shows [] [] v) :
    Agrees (setDynamicProperty env name m) (Plain.setDynamicProperty env name v) := by
  refine poolString_agrees hs fun member => ?_
  refine pop₂_agrees hs fun c target x y m₁ v₁ hs₁ => ?_
  have hvalues := hs₁.pending
  simp only [List.map_cons, List.map_nil, List.cons.injEq, and_true] at hvalues
  have hall := attempt_last_agrees hs₁ (writeNamed_eq env.registry member hvalues.1 hvalues.2)
    giveBoth_shows
  simpa only [bind_assoc] using hall

theorem construct_agrees (r : Registry) (id : Int32) (hs : m.Shows [] [] v) :
    Agrees (construct r id m) (Plain.construct r id v) := by
  refine ofCalc_agrees hs (constructorAt_eq r id) fun d m₁ v₁ hs₁ => ?_
  refine popArgs_agrees hs₁ fun args m₂ v₂ hs₂ => ?_
  unfold Calc.construct
  rw [Plain.ofCalc_bind, bind_assoc]
  refine ofCalc_agrees hs₂ (host_eq _) fun o m₃ v₃ hs₃ => ?_
  have hpush := hs₃.ofValue_push_agrees (.object o)
  simp only [ofValue, bind_assoc, pure_bind] at hpush
  exact hpush

theorem checkAt_agrees (r : Registry) (expected : Ty) (depth : Nat) (hs : m.Shows [] [] v) :
    Agrees (checkAt r expected depth m) (Plain.checkAt r expected depth v) := by
  simp only [checkAt, Plain.checkAt, bind, EStateM.bind, Plain.peek]
  rcases hs.peek depth with ⟨hv, hm⟩ | ⟨c, x, hv, hm, hx⟩
  · simp only [hv, hm]
    exact .fault hs
  · simp only [hv, hm, typeOf_eq r hx, Calc.require]
    by_cases hadm : expected.admits (r.typeOf x)
    · simp only [hadm, if_true]
      exact .ok hs
    · simp only [hadm]
      exact .fault hs

theorem enterLoop_agrees (count : Nat) (length : Int32) (hs : m.Shows [] [] v) :
    Agrees (enterLoop env count length m) (Plain.enterLoop env count length v) := by
  simp only [enterLoop, Plain.enterLoop, bind, EStateM.bind, get, getThe, MonadStateOf.get,
    EStateM.get, hs.pc]
  split
  · exact .fault hs
  · split
    · exact .ok (hs.jump _)
    · exact .ok { hs with loops := by simp [hs.loops] }

theorem enterLoopNum_agrees (length : Int32) (hs : m.Shows [] [] v) :
    Agrees (enterLoopNum env length m) (Plain.enterLoopNum env length v) := by
  refine pop_agrees hs fun c x m₁ v₁ hs₁ => ?_
  cases like_of_value? hs₁.value with
  | number y => exact enterLoop_agrees _ _ (hs₁.forget rfl)
  | _ => exact refuse_agrees hs₁

theorem unwind_agrees (hs : m.Shows [] [] v) : Agrees (unwind m) (Plain.unwind v) := by
  have hlen := hs.stack_length
  have hstack := hs.stack
  simp only [unwind, bind, EStateM.bind, get, getThe, MonadStateOf.get, EStateM.get, Plain.unwind]
  cases hm : m.stack with
  | nil =>
      rw [hm] at hlen
      rw [List.length_eq_zero_iff.mp hlen.symm]
      exact .ok hs
  | cons c cells =>
      cases hv : v.stack with
      | nil => simp [hm, hv] at hlen
      | cons x stack =>
          have hs' : Machine.Shows ((c :: cells).reverse ++ []) ((x :: stack).reverse ++ [])
              { m with stack := [], warnings := m.warnings.push (.stackNotEmpty (c :: cells).length) }
              { v with stack := [], warnings := v.warnings.push (.stackNotEmpty (x :: stack).length) } :=
            { hs with
              counted := fun k => by
                have := hs.counted k
                rw [hm] at this
                simpa [Cell.occurrences_reverse, Nat.add_comm] using this
              pending := by
                rw [hm, hv] at hstack
                simpa using congrArg List.reverse hstack
              stack := rfl
              warnings := by rw [hm, hv] at hlen; simp only [hs.warnings, hlen] }
          obtain ⟨m', h', hs''⟩ := hs'.releaseAll (by rw [hm, hv] at hlen; simpa using hlen)
          change Agrees (releaseAll (c :: cells).reverse { m with
            stack := [], warnings := m.warnings.push (.stackNotEmpty (c :: cells).length) }) _
          rw [h']
          exact .ok hs''

theorem ret_agrees (hs : m.Shows [] [] v) : Agrees (ret m) (Plain.ret v) := by
  refine pop_agrees hs fun c x m₁ v₁ hs₁ => ?_
  obtain ⟨m₂, h₂, hs₂⟩ := hs₁.release
  have hreturned : Machine.Shows [] [] { m₂ with returned := x } { v₁ with returned := x } :=
    { hs₂ with returned := rfl }
  simp only [bind, EStateM.bind, attempt, toValue_eq hs₁.value, h₂, settle, pure, EStateM.pure]
  exact unwind_agrees hreturned

theorem effect_agrees (i : Instr) (hs : m.Shows [] [] v) (hi : i.Finds v) :
    Agrees (effect env i m) (Plain.effect env i v) := by
  cases i with
  | nop => exact .ok hs
  | pushNull => exact hs.pushPlain_agrees rfl rfl
  | pushBool b => exact hs.pushPlain_agrees rfl rfl
  | pushLong n => exact hs.pushPlain_agrees rfl rfl
  | pushDouble x => exact hs.pushPlain_agrees rfl rfl
  | pushString index =>
      refine poolString_agrees hs fun s => ?_
      have hpush := hs.ofValue_push_agrees (.text s)
      simp only [ofValue, bind_assoc, pure_bind] at hpush
      exact hpush
  | pop =>
      refine pop_agrees hs fun c x m₁ v₁ hs₁ => ?_
      obtain ⟨m₂, h₂, hs₂⟩ := hs₁.release
      exact h₂ ▸ .ok hs₂
  | loadLoc slot => exact loadLoc_agrees slot hs
  | loadLocNoRef slot => exact loadLocNoRef_agrees slot hs hi
  | setLoc slot => exact setLoc_agrees slot hs
  | setLocNoRef slot => exact setLocNoRef_agrees slot hs hi
  | arith op => exact binary_agrees (arithResult_yields op) hs
  | arithNum op => exact binaryNum_agrees (fun _ _ _ => ⟨rfl, rfl⟩) hs
  | order op => exact binary_agrees (orderResult_yields op) hs
  | orderNum op => exact binaryNum_agrees (fun _ _ _ => ⟨rfl, rfl⟩) hs
  | equals negated => exact binary_agrees (equalResult_yields negated) hs
  | equalsNum negated => exact binaryNum_agrees (fun _ _ _ => ⟨rfl, rfl⟩) hs
  | neg => exact neg_agrees hs
  | negNum => exact negNum_agrees hs
  | not => exact not_agrees hs
  | jump target => exact jump_agrees target hs
  | jumpIf on target => exact jumpIf_agrees on target hs
  | invoke id => exact invoke_agrees _ id hs
  | invokeStatic id => exact invokeStatic_agrees _ id hs
  | invokeDynamic name argc => exact invokeDynamic_agrees name argc hs
  | getProperty id => exact getProperty_agrees _ id hs
  | setProperty id => exact setProperty_agrees _ id hs
  | getStaticProperty id => exact getStaticProperty_agrees _ id hs
  | setStaticProperty id => exact setStaticProperty_agrees _ id hs
  | getDynamicProperty name => exact getDynamicProperty_agrees name hs
  | setDynamicProperty name => exact setDynamicProperty_agrees name hs
  | new id => exact construct_agrees _ id hs
  | checkType ty => exact checkAt_agrees _ ty 0 hs
  | peekCheckType ty depth => exact checkAt_agrees _ ty depth.toNat hs
  | loop count length => exact enterLoop_agrees _ length hs
  | loopNum length => exact enterLoopNum_agrees length hs
  | ret => exact ret_agrees hs
  | exit => exact unwind_agrees hs

theorem rangeEnd_eq (hs : m.Shows [] [] v) : rangeEnd env m = Plain.rangeEnd env v := by
  cases hloops : v.loops with
  | nil => simp only [rangeEnd, Plain.rangeEnd, hs.loops, hloops]
  | cons frame outer => simp only [rangeEnd, Plain.rangeEnd, hs.loops, hloops]

theorem agrees_map {x : Work Unit} {y : Plain Unit} (h : Agrees (x m) (y v)) (flow : Flow) :
    Agrees ((x >>= fun _ => pure flow) m) (y.map (fun _ => flow) v) := by
  simp only [bind, EStateM.bind, EStateM.map]
  generalize x m = outcome at h
  generalize y v = meaning at h
  cases h with
  | ok hs => exact .ok hs
  | fault hs => exact .fault hs
  | underflow => exact .underflow
  | exceeded he hs hw => exact .exceeded he hs hw

theorem step_agrees (hs : m.Shows [] [] v) (hi : v.Finds env) :
    Agrees (step env m) (Plain.step env v) := by
  simp only [step, Plain.step, bind, EStateM.bind, get, getThe, MonadStateOf.get, EStateM.get,
    rangeEnd_eq hs, hs.pc]
  split
  · rename_i hlt
    cases hfetch : env.script.fetch v.pc with
    | error f => exact .fault hs
    | ok next =>
        have heffect : Agrees (effect env next.1 { m with pc := next.2 })
            (Plain.effect env next.1 { v with pc := next.2 }) :=
          effect_agrees next.1 (hs.jump next.2) (hi hlt next.1 next.2 hfetch)
        exact agrees_map heffect next.1.flow
  · rw [hs.loops]
    cases v.loops with
    | nil => exact .ok hs
    | cons frame outer =>
        cases hleft : frame.left with
        | zero =>
            simp only [hleft]
            exact .ok { hs with loops := rfl, pc := rfl }
        | succ left =>
            simp only [hleft]
            exact .ok { hs with loops := rfl, pc := rfl }

end Work

end HostScript
