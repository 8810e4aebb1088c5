import HostScript.Proofs.Code.Generic
import HostScript.Proofs.Compile.Accesses
import HostScript.Proofs.Compile.Layout

namespace HostScript

-- The slot that an instruction reads or writes.
def Instr.access? : Instr → Option (Nat × Bool)
  | .loadLoc n | .loadLocNoRef n => some (n.toNat, false)
  | .setLoc n | .setLocNoRef n => some (n.toNat, true)
  | _ => none

namespace CompiledScript

def accessAt? (s : CompiledScript) (p : Nat) : Option (Nat × Bool) :=
  match s.fetch p with
  | .ok (i, _) => i.access?
  | .error _ => none

-- The slots that the code reads and writes, instruction by instruction.
def slotAccesses (s : CompiledScript) : List (Nat × Bool) :=
  (s.starts s.code.size 0).filterMap s.accessAt?

variable {s : CompiledScript} {p q : Nat} {i : Instr}

-- An instruction is followed by what begins behind it.
theorem starts_of_fetch (hat : s.fetch p = .ok (i, q)) {fuel : Nat}
    (hfuel : s.code.size ≤ fuel + p) :
    ∃ fuel', s.starts fuel p = p :: s.starts fuel' q ∧ s.code.size ≤ fuel' + q := by
  have hlt := lt_size_of_fetch hat
  have hstep := lt_of_fetch hat
  obtain ⟨fuel, rfl⟩ : ∃ k, fuel = k + 1 := ⟨fuel - 1, by omega⟩
  exact ⟨fuel, by simp [starts, hat], by omega⟩

end CompiledScript

-- Code that makes these accesses, each with the slot of its owner, and no others.
inductive Layout.Uses (L : Layout) : List Access → Nat → Nat → Prop
  | done : Uses L [] p p
  | other : L.At p i q → i.access? = none → Uses L accesses q r → Uses L accesses p r
  | access : L.At p i q → i.access? = some (n.toNat, a.writes) → L.Slot a.owner.name n →
      Uses L accesses q r → Uses L (a :: accesses) p r

namespace Layout

variable {L : Layout} {p q r : Nat} {i : Instr} {l l' : List Access}

namespace Uses

theorem append (h : L.Uses l p q) (h' : L.Uses l' q r) : L.Uses (l ++ l') p r := by
  induction h with
  | done => exact h'
  | other hat hnone _ ih => exact .other hat hnone (ih h')
  | access hat hsome hslot _ ih => exact .access hat hsome hslot (ih h')

-- Code without accesses changes nothing.
theorem before (h : L.Uses [] p q) (h' : L.Uses l q r) : L.Uses l p r :=
  h.append h'

theorem behind (h : L.Uses l p q) (h' : L.Uses [] q r) : L.Uses l p r := by
  simpa using h.append h'

theorem slot_mem (h : L.Uses l p q) : ∀ a ∈ l, a.owner.name ∈ L.slots := by
  induction h with
  | done => simp
  | other _ _ _ ih => exact ih
  | access _ _ hslot _ ih =>
      exact List.forall_mem_cons.mpr ⟨List.mem_of_getElem? hslot, ih⟩

end Uses

-- The slot that is kept for an owner.
def place (L : Layout) (o : Owner) : Nat :=
  L.slots.idxOf o.name

theorem place_eq {o : Owner} {n : Nat} (hnodup : L.slots.Nodup) (h : L.slots[n]? = some o.name) :
    L.place o = n := by
  obtain ⟨hlt, hname⟩ := List.getElem?_eq_some_iff.mp h
  rw [place, ← hname]
  exact hnodup.idxOf_getElem n hlt

theorem getElem?_place {o : Owner} (h : o.name ∈ L.slots) : L.slots[L.place o]? = some o.name :=
  List.getElem?_eq_some_iff.mpr ⟨List.idxOf_lt_length_of_mem h, List.getElem_idxOf _⟩

theorem At.accessAt? (hat : L.At p i q) : L.script.accessAt? p = i.access? := by
  simp only [At] at hat
  simp [CompiledScript.accessAt?, hat]

-- What is read off the instructions are the accesses, in their order.
theorem Uses.filterMap_starts (hnodup : L.slots.Nodup) (h : L.Uses l p q) {fuel : Nat}
    (hfuel : L.script.code.size ≤ fuel + p) (hq : L.script.code.size ≤ q) :
    (L.script.starts fuel p).filterMap L.script.accessAt? =
      l.map fun a => (L.place a.owner, a.writes) := by
  induction h generalizing fuel with
  | @done p =>
      cases fuel with
      | zero => rfl
      | succ fuel =>
          cases hat : L.script.fetch p with
          | ok _ => exact absurd (CompiledScript.lt_size_of_fetch hat) (Nat.not_lt.mpr hq)
          | error _ => simp [CompiledScript.starts, hat]
  | other hat hnone _ ih =>
      obtain ⟨fuel', hcons, hfuel'⟩ := CompiledScript.starts_of_fetch hat hfuel
      rw [hcons, List.filterMap_cons_none (hat.accessAt?.trans hnone), ih hfuel' hq]
  | access hat hsome hslot _ ih =>
      obtain ⟨fuel', hcons, hfuel'⟩ := CompiledScript.starts_of_fetch hat hfuel
      rw [hcons, List.filterMap_cons_some (hat.accessAt?.trans hsome), ih hfuel' hq,
        List.map_cons, place_eq hnodup hslot]

theorem At.uses (hat : L.At p i q) (hi : i.access? = none) : L.Uses [] p q :=
  .other hat hi .done

theorem At.uses_one {a : Access} {n : UInt8} (hat : L.At p i q)
    (hi : i.access? = some (n.toNat, a.writes)) (hslot : L.Slot a.owner.name n) :
    L.Uses [a] p q :=
  .access hat hi hslot .done

theorem Load.uses {name : String} (h : L.Load name p q) :
    L.Uses [.read (.named name)] p q := by
  obtain ⟨n, hslot, hat⟩ := h
  unfold loadInstr at hat
  split at hat
  · exact hat.uses_one rfl hslot
  · exact hat.uses_one rfl hslot

theorem Store.uses {name : String} (h : L.Store name p q) :
    L.Uses [.write (.named name)] p q := by
  obtain ⟨n, hslot, hat⟩ := h
  unfold storeInstr at hat
  split at hat
  · exact hat.uses_one rfl hslot
  · exact hat.uses_one rfl hslot

theorem Jump.uses {target : Nat} (h : L.Jump p q target) : L.Uses [] p q := by
  obtain ⟨t, hat, -⟩ := h
  exact hat.uses rfl

theorem JumpIf.uses {on : Bool} {target : Nat} (h : L.JumpIf on p q target) : L.Uses [] p q := by
  obtain ⟨t, hat, -⟩ := h
  exact hat.uses rfl

theorem At.uses_binary {op : BinaryOp} {numeric : Bool} (hat : L.At p (binaryInstr op numeric) q) :
    L.Uses [] p q := by
  cases op <;> cases numeric <;> exact hat.uses rfl

theorem At.uses_unary {op : UnaryOp} {numeric : Bool} (hat : L.At p (unaryInstr op numeric) q) :
    L.Uses [] p q := by
  cases op <;> cases numeric <;> exact hat.uses rfl

end Layout

variable {L : Layout} {p q : Nat}

theorem LiteralCode.uses {value : Literal} (h : LiteralCode L value p q) : L.Uses [] p q := by
  cases h with
  | null hat | bool hat | long hat | double hat | string _ hat => exact hat.uses rfl

theorem CheckCode.uses {expected actual : Ty} (h : CheckCode L expected actual p q) :
    L.Uses [] p q := by
  cases h with
  | needed _ hat => exact hat.uses rfl
  | skipped _ => exact .done

theorem GuardsCode.uses {params : List Ty} {args : List Expr} {above : Nat}
    (h : GuardsCode L params args above p q) : L.Uses [] p q := by
  induction h with
  | params | args => exact .done
  | needed _ hat _ ih => exact (hat.uses rfl).before ih
  | skipped _ _ ih => exact ih

theorem Expr.accesses_of_folded {op : UnaryOp} {operand : Expr} {value : Literal}
    (h : Emit.folded? op operand = some value) : operand.accesses = [] := by
  cases operand with
  | literal m value => simp [accesses]
  | _ => cases op <;> simp [Emit.folded?, Expr.literal?] at h

mutual

-- The code of an expression reads its variables, each from its slot.
theorem ExprCode.uses {e : Expr} {p q : Nat} (hcode : ExprCode L e p q) :
    L.Uses e.accesses p q := by
  cases e with
  | literal m value =>
      cases hcode with
      | literal hlit => simpa [Expr.accesses] using hlit.uses
  | name m x =>
      cases hcode with
      | name hload => simpa [Expr.accesses] using hload.uses
  | static m name args binding =>
      cases hcode with
      | const hlit => simpa [Expr.accesses] using hlit.uses
      | staticProperty hat => simpa [Expr.accesses] using hat.uses rfl
      | staticMethod hargs hguards hat =>
          simpa [Expr.accesses] using
            (ExprsCode.uses hargs).behind (hguards.uses.behind (hat.uses rfl))
  | member m target name args binding =>
      cases hcode with
      | method htarget hargs hguards hat =>
          simpa [Expr.accesses] using ((ExprCode.uses htarget).append (ExprsCode.uses hargs)).behind
            (hguards.uses.behind (hat.uses rfl))
      | property htarget hat =>
          simpa [Expr.accesses] using (ExprCode.uses htarget).behind (hat.uses rfl)
      | read htarget _ hat =>
          simpa [Expr.accesses, Expr.accessesOfAll] using
            (ExprCode.uses htarget).behind (hat.uses rfl)
      | call _ _ htarget hargs _ hat =>
          simpa [Expr.accesses] using ((ExprCode.uses htarget).append (ExprsCode.uses hargs)).behind
            (hat.uses rfl)
  | new m typeName args binding =>
      cases hcode with
      | new hargs hguards hat =>
          simpa [Expr.accesses] using
            (ExprsCode.uses hargs).behind (hguards.uses.behind (hat.uses rfl))
  | binary m op lhs rhs =>
      cases hcode with
      | and hlhs hjump hrhs hcheck hdone hat | or hlhs hjump hrhs hcheck hdone hat =>
          have hrest := (ExprCode.uses hrhs).behind
            (hcheck.uses.behind (hdone.uses.behind (hat.uses rfl)))
          simpa [Expr.accesses] using (ExprCode.uses hlhs).append (hjump.uses.before hrest)
      | binary _ _ hlhs hrhs hat =>
          simpa [Expr.accesses] using ((ExprCode.uses hlhs).append (ExprCode.uses hrhs)).behind
            hat.uses_binary
  | unary m op operand =>
      cases hcode with
      | folded hfold hlit =>
          simpa [Expr.accesses, Expr.accesses_of_folded hfold] using hlit.uses
      | unary _ hoperand hat =>
          simpa [Expr.accesses] using (ExprCode.uses hoperand).behind hat.uses_unary
  | cast m typeName operand => cases hcode

theorem ExprsCode.uses {es : List Expr} {p q : Nat} (hcode : ExprsCode L es p q) :
    L.Uses (Expr.accessesOfAll es) p q := by
  cases es with
  | nil =>
      cases hcode
      exact .done
  | cons e rest =>
      cases hcode with
      | cons hfirst hrest =>
          simpa [Expr.accessesOfAll] using (ExprCode.uses hfirst).append (ExprsCode.uses hrest)

end

theorem ChangeCode.uses {how : Change} (h : ChangeCode L how p q) : L.Uses how.accesses p q := by
  cases h with
  | compound hvalue => exact hvalue.uses
  | increment hat | decrement hat => exact hat.uses rfl

theorem VarCode.uses {v : VarStmt} (h : VarCode L v p q) : L.Uses v.accesses p q := by
  cases h with
  | declare hvalue hstore => exact hvalue.uses.append hstore.uses
  | update hload hchange hat hstore =>
      exact hload.uses.append (hchange.uses.append (hat.uses_binary.before hstore.uses))

theorem CountCode.uses {how : Iteration} (h : CountCode L how p q) : L.Uses [] p q := by
  cases h with
  | members hat => exact hat.uses rfl
  | dynamic _ hread hcheck => exact (hread.uses rfl).before (hcheck.uses rfl)

theorem ItemCode.uses {item : String} {iter index : UInt8} {how : Iteration} {o o' : Owner}
    (h : ItemCode L item iter index how p q) (hiter : L.Slot o.name iter)
    (hindex : L.Slot o'.name index) :
    L.Uses [.read o, .read o', .write (.named item)] p q := by
  cases h with
  | members hload hload' hcall hstore | dynamic hload hload' _ hcall hstore =>
      exact (hload.uses_one rfl hiter).append ((hload'.uses_one rfl hindex).append
        ((hcall.uses rfl).before hstore.uses))

theorem Expr.accesses_of_literalCount {count : Expr} {n : Int32}
    (h : Emit.literalCount? count = some n) : count.accesses = [] := by
  cases count with
  | literal m value => simp [accesses]
  | _ => simp [Emit.literalCount?, Expr.literal?] at h

theorem HeadCode.uses {count : Expr} {length : Int32} (h : HeadCode L count length p q) :
    L.Uses count.accesses p q := by
  cases h with
  | literal hcount hat => exact Expr.accesses_of_literalCount hcount ▸ hat.uses rfl
  | computed _ hcount hcheck hat => exact hcount.uses.behind (hcheck.uses.before (hat.uses rfl))

theorem CountedCode.uses {index limit : UInt8} {I : Nat → Nat → Prop} {body : List Stmt}
    {k k' n : Nat} {o o' : Owner} {item inner : List Access}
    (h : CountedCode L index limit I k body p q k') (hindex : L.Slot o.name index)
    (hlimit : L.Slot o'.name limit) (hitem : ∀ a b, I a b → L.Uses item a b)
    (hbody : ∀ exits a b, StmtsCode L exits k body a b k' → L.Uses inner a b ∧ k' = n) :
    L.Uses (Stmt.countedAccesses o o' item inner) p q ∧ k' = n := by
  cases h with
  | mk hzero hset hload hload' hless hjump hitems hinner hload'' hone hadd hset' hback =>
      have htest : L.Uses [.write o, .read o, .read o'] p _ :=
        (hzero.uses rfl).before <| (hset.uses_one rfl hindex).append <|
          (hload.uses_one rfl hindex).append <|
            (hload'.uses_one rfl hlimit).behind ((hless.uses rfl).before hjump.uses)
      have hstep : L.Uses [.read o, .write o] _ q :=
        (hload''.uses_one rfl hindex).append ((hone.uses rfl).before ((hadd.uses rfl).before
          ((hset'.uses_one rfl hindex).behind hback.uses)))
      obtain ⟨hinnerUses, hk⟩ := hbody _ _ _ hinner
      exact ⟨((htest.append (hitem _ _ hitems)).append hinnerUses).append hstep, hk⟩

mutual

-- The code of a statement makes its accesses and takes the numbers of its loops' own slots.
theorem StmtCode.uses {exits : Option (Nat × Nat)} {k k' : Nat} {s : Stmt} {p q : Nat}
    (hcode : StmtCode L exits k s p q k') :
    L.Uses (s.accesses L.level k) p q ∧ k' = k + (s.owned L.level k).flatten.length := by
  cases s with
  | «using» offset ns =>
      cases hcode
      exact ⟨.done, rfl⟩
  | input offset name typeName declared =>
      cases hcode
      exact ⟨.done, rfl⟩
  | var v =>
      cases hcode with
      | var hvar => exact ⟨hvar.uses, rfl⟩
  | cond offset test body rest =>
      cases hcode with
      | cond htest hjump hbody hout hrest =>
          obtain ⟨hbodyUses, rfl⟩ := StmtsCode.uses hbody
          obtain ⟨hrestUses, rfl⟩ := BranchesCode.uses hrest
          refine ⟨?_, by simp [Stmt.owned, Nat.add_assoc]⟩
          have hfirst := htest.uses.append (hjump.uses.before (hbodyUses.behind hout.uses))
          simpa only [Stmt.accesses] using hfirst.append hrestUses
  | whileLoop offset test body =>
      cases hcode with
      | whileLoop htest hjump hbody hback =>
          obtain ⟨hbodyUses, rfl⟩ := StmtsCode.uses hbody
          refine ⟨?_, rfl⟩
          exact htest.uses.append (hjump.uses.before (hbodyUses.behind hback.uses))
  | forLoop offset init test step body =>
      cases hcode with
      | forLoop hinit htest hjump hbody hstep hback =>
          obtain ⟨hbodyUses, rfl⟩ := StmtsCode.uses hbody
          refine ⟨?_, rfl⟩
          have hround := (hinit.uses.append htest.uses).append (hjump.uses.before hbodyUses)
          exact hround.append (hstep.uses.behind hback.uses)
  | eachLoop offset item source body how =>
      cases hcode with
      | eachLoop hiter hcount hindex hsource hset hload hitems hset' hcounted hnull hdrop =>
          replace hiter : L.Slot (Owner.hidden "iter" (k + 1)).name _ := hiter
          replace hcount : L.Slot (Owner.hidden "count" (k + 2)).name _ := hcount
          replace hindex : L.Slot (Owner.hidden "index" (k + 3)).name _ := hindex
          have hhead := hsource.uses.append <| (hset.uses_one (a := .write _) rfl hiter).append <|
            (hload.uses_one (a := .read _) rfl hiter).append <|
              hitems.uses.before (hset'.uses_one (a := .write _) rfl hcount)
          obtain ⟨hrounds, rfl⟩ := hcounted.uses hindex hcount
            (fun _ _ hitem => hitem.uses hiter hindex) fun _ _ _ hbody => StmtsCode.uses hbody
          have hlast := (hnull.uses rfl).before (hdrop.uses_one (a := .write _) rfl hiter)
          refine ⟨(hhead.append hrounds).append hlast, ?_⟩
          simp only [Stmt.owned, Stmt.eachOwners, List.flatten_cons, List.length_append,
            List.length_cons, List.length_nil]
          omega
  | countLoop offset count body =>
      cases hcode with
      | countLoop hcounts hlimit hindex hcount hcheck hset hcounted =>
          replace hlimit : L.Slot (Owner.hidden "limit" (k + 1)).name _ := hlimit
          replace hindex : L.Slot (Owner.hidden "index" (k + 2)).name _ := hindex
          have hhead := hcount.uses.append <|
            hcheck.uses.before (hset.uses_one (a := .write _) rfl hlimit)
          have hitem : ∀ a b, a = b → L.Uses [] a b := fun _ _ heq => heq ▸ .done
          obtain ⟨hrounds, rfl⟩ := hcounted.uses hindex hlimit hitem
            fun _ _ _ hbody => StmtsCode.uses hbody
          have hslots : Stmt.countedByMachine L.level body = false := hcounts
          refine ⟨by simpa [Stmt.accesses, hslots] using hhead.append hrounds, ?_⟩
          simp only [Stmt.owned, hslots, Bool.false_eq_true, if_false, Stmt.countOwners,
            List.flatten_cons, List.length_append, List.length_cons, List.length_nil]
          omega
      | machineLoop hcounts hhead _ _ _ hbody =>
          have hslots : Stmt.countedByMachine L.level body = true := hcounts
          obtain ⟨hbodyUses, rfl⟩ := StmtsCode.uses hbody
          refine ⟨?_, by simp [Stmt.owned, hslots]⟩
          simpa [Stmt.accesses, hslots] using hhead.uses.append hbodyUses
  | leave offset =>
      cases hcode with
      | leave hjump => exact ⟨hjump.uses, rfl⟩
  | again offset =>
      cases hcode with
      | again hjump => exact ⟨hjump.uses, rfl⟩
  | ret offset value =>
      cases hcode with
      | ret hvalue hat => exact ⟨hvalue.uses.behind (hat.uses rfl), rfl⟩
      | retNull hnull hat => exact ⟨(hnull.uses rfl).before (hat.uses rfl), rfl⟩
  | exit offset =>
      cases hcode with
      | exit hat => exact ⟨hat.uses rfl, rfl⟩
  | func offset name params body => cases hcode
  | call offset target =>
      cases hcode with
      | call htarget hat => exact ⟨htarget.uses.behind (hat.uses rfl), rfl⟩
  | assign offset target value =>
      cases hcode with
      | assignStatic hvalue hcheck hat =>
          exact ⟨hvalue.uses.behind (hcheck.uses.before (hat.uses rfl)), rfl⟩
      | assignProperty howner hvalue hcheck hat =>
          exact ⟨(howner.uses.append hvalue.uses).behind (hcheck.uses.before (hat.uses rfl)), rfl⟩
      | assignDynamic howner hvalue _ hat =>
          exact ⟨(howner.uses.append hvalue.uses).behind (hat.uses rfl), rfl⟩

theorem StmtsCode.uses {exits : Option (Nat × Nat)} {k k' : Nat} {ss : List Stmt} {p q : Nat}
    (hcode : StmtsCode L exits k ss p q k') :
    L.Uses (Stmt.accessesOfAll L.level k ss) p q ∧
      k' = k + (Stmt.ownedByAll L.level k ss).flatten.length := by
  cases ss with
  | nil =>
      cases hcode
      exact ⟨.done, rfl⟩
  | cons s rest =>
      cases hcode with
      | cons hs hrest =>
          obtain ⟨hfirst, rfl⟩ := StmtCode.uses hs
          obtain ⟨hothers, rfl⟩ := StmtsCode.uses hrest
          refine ⟨?_, by simp [Stmt.ownedByAll, Nat.add_assoc]⟩
          simpa only [Stmt.accessesOfAll] using hfirst.append hothers

theorem BranchesCode.uses {exits : Option (Nat × Nat)} {k k' done : Nat} {b : Branches}
    {p q : Nat} (hcode : BranchesCode L exits k done b p q k') :
    L.Uses (Stmt.accessesOfBranches L.level k b) p q ∧
      k' = k + (Stmt.ownedByBranches L.level k b).flatten.length := by
  cases b with
  | done =>
      cases hcode
      exact ⟨.done, rfl⟩
  | otherwise body =>
      cases hcode with
      | otherwise hbody => exact StmtsCode.uses hbody
  | elseIf test body rest =>
      cases hcode with
      | elseIf htest hjump hbody hout hrest =>
          obtain ⟨hbodyUses, rfl⟩ := StmtsCode.uses hbody
          obtain ⟨hrestUses, rfl⟩ := BranchesCode.uses hrest
          refine ⟨?_, by simp [Stmt.ownedByBranches, Nat.add_assoc]⟩
          have hfirst := htest.uses.append (hjump.uses.before (hbodyUses.behind hout.uses))
          simpa only [Stmt.accessesOfBranches] using hfirst.append hrestUses

end

end HostScript
