import HostScript.Proofs.Compile.Accesses
import HostScript.Proofs.Compile.Script

namespace HostScript

namespace Emit

open Emitter

-- The variables entered so far have names as `N` says, and `k` numbers were given out.
structure Entered (N : String → Prop) (k : Nat) (e : Emitter) : Prop where
  hidden : e.hidden = k
  named : ∀ name ∈ e.slots, N name

-- Work that gives out the numbers behind `k`, up to `k'`, and enters only variables with names as
-- `N` says.
def Takes {α : Type} (N : String → Prop) (k k' : Nat) (x : Emit α) : Prop :=
  ∀ e a e', Entered N k e → x e = .ok (a, e') → Entered N k' e'

namespace Takes

variable {α β : Type} {N : String → Prop} {k k₁ k' : Nat} {x : Emit α}

theorem pure (a : α) : Takes N k k (Pure.pure a : Emit α) := by
  intro e b e' he h
  cases pure_ok.mp h
  exact he

theorem fail (problem : Diagnostic.Problem) (offset : Nat) :
    Takes N k k' (Emit.fail problem offset : Emit α) :=
  fun _ _ _ _ h => (throw_ok.mp h).elim

theorem bind {f : α → Emit β} (hx : Takes N k k₁ x) (hf : ∀ a, Takes N k₁ k' (f a)) :
    Takes N k k' (x >>= f) := by
  intro e b e' he h
  obtain ⟨a, e₁, hfirst, hrest⟩ := bind_ok.mp h
  exact hf a e₁ b e' (hx e a e₁ he hfirst) hrest

theorem failed (problem : Diagnostic.Problem) (offset : Nat) (f : α → Emit β) :
    Takes N k k' (Emit.fail problem offset >>= f) := by
  intro e b e' _ h
  obtain ⟨_, _, hfail, -⟩ := bind_ok.mp h
  exact (throw_ok.mp hfail).elim

theorem get : Takes N k k (MonadState.get : Emit Emitter) := by
  intro e a e' he h
  cases get_ok.mp h
  exact he

theorem ite {c : Prop} [Decidable c] {y : Emit α} (hx : Takes N k k' x) (hy : Takes N k k' y) :
    Takes N k k' (if c then x else y) := by
  split
  · exact hx
  · exact hy

-- Everything but the numbers and the slots may change.
theorem change {f : Emitter → Emitter} (hhidden : ∀ e, (f e).hidden = e.hidden)
    (hslots : ∀ e, (f e).slots = e.slots) : Takes N k k (modify f : Emit PUnit) := by
  intro e a e' he h
  cases modify_ok.mp h
  exact ⟨(hhidden e).trans he.hidden, hslots e ▸ he.named⟩

theorem write (f : Writer → Writer) : Takes N k k (Emit.write f) :=
  change (fun _ => rfl) fun _ => rfl

theorem op (o : Opcode) : Takes N k k (Emit.op o) :=
  write _

theorem mark (label : Nat) : Takes N k k (Emit.mark label) :=
  write _

theorem member (o : Opcode) (id : Nat) : Takes N k k (Emit.member o id) :=
  write _

theorem pushed (n : Nat) : Takes N k k (Emit.pushed n) :=
  change (fun _ => rfl) fun _ => rfl

theorem popped (n : Nat) : Takes N k k (Emit.popped n) :=
  change (fun _ => rfl) fun _ => rfl

theorem newLabel : Takes N k k Emit.newLabel := by
  intro e l e' he h
  cases h
  exact ⟨he.hidden, he.named⟩

theorem jump (o : Opcode) (label : Nat) : Takes N k k (Emit.jump o label) :=
  (write _).bind fun _ => ite (popped 1) (pure _)

theorem loadSlot (n : UInt8) (holdsRef : Bool) : Takes N k k (Emit.loadSlot n holdsRef) :=
  (write _).bind fun _ => pushed 1

theorem storeSlot (n : UInt8) (holdsRef : Bool) : Takes N k k (Emit.storeSlot n holdsRef) :=
  (write _).bind fun _ => popped 1

theorem long (n : Int64) : Takes N k k (Emit.long n) :=
  (write _).bind fun _ => pushed 1

theorem binary (o : BinaryOp) (lhs rhs : Ty) : Takes N k k (Emit.binary o lhs rhs) :=
  (op _).bind fun _ => popped 1

theorem intern (text : String) : Takes N k k (Emit.intern text) := by
  intro e n e' he h
  obtain ⟨i, p, -, -, rfl⟩ := intern_ok h
  exact ⟨he.hidden, he.named⟩

-- A slot is given out for the name that is asked for.
theorem slot {name : String} (hname : N name) (offset : Nat) :
    Takes N k k (Emit.slot name offset) := by
  intro e n e' he h
  rcases slot_ok h with ⟨i, -, -, rfl⟩ | ⟨-, -, -, rfl⟩
  · exact he
  · exact ⟨he.hidden, List.forall_mem_append.mpr ⟨he.named, by simpa using hname⟩⟩

theorem hiddenSlot {what : String} (hname : N (hiddenName what (k + 1))) (offset : Nat) :
    Takes N k (k + 1) (Emit.hiddenSlot what offset) := by
  rintro e n e' ⟨rfl, hnamed⟩ h
  obtain ⟨_, _, h₁, h₂⟩ := bind_ok.mp h
  cases modify_ok.mp h₁
  obtain ⟨_, _, h₃, h₄⟩ := bind_ok.mp h₂
  cases get_ok.mp h₃
  exact slot hname offset { e with hidden := e.hidden + 1 } n e' ⟨rfl, hnamed⟩ h₄

theorem load (env : EmitEnv) {name : String} (hname : N name) (offset : Nat) :
    Takes N k k (Emit.load env name offset) :=
  (slot hname offset).bind fun _ => loadSlot _ _

theorem store (env : EmitEnv) {name : String} (hname : N name) (offset : Nat) :
    Takes N k k (Emit.store env name offset) :=
  (slot hname offset).bind fun _ => storeSlot _ _

theorem guardTop (env : EmitEnv) (ty : Ty) (offset : Nat) :
    Takes N k k (Emit.guardTop env ty offset) := by
  unfold Emit.guardTop
  split
  · exact write _
  · exact fail _ _

theorem checkTop (env : EmitEnv) (expected actual : Ty) (offset : Nat) :
    Takes N k k (Emit.checkTop env expected actual offset) :=
  ite (guardTop env expected offset) (pure _)

theorem guardArgs (env : EmitEnv) (params : List Ty) (args : List Expr) (above : Nat) :
    Takes N k k (Emit.guardArgs env params args above) := by
  induction params generalizing args above with
  | nil => exact pure _
  | cons param params ih =>
      cases args with
      | nil => exact pure _
      | cons arg args =>
          unfold Emit.guardArgs
          refine ite ?_ (ih _ _)
          split
          · exact (write _).bind fun _ => ih _ _
          · exact failed _ _ _

theorem inLoop (labels : LoopLabels) {body : Emit Unit} (h : Takes N k k' body) :
    Takes N k k' (Emit.inLoop labels body) :=
  (change (f := fun e => { e with loops := labels :: e.loops }) (fun _ => rfl) fun _ => rfl).bind
    fun _ => h.bind fun _ =>
      change (f := fun e => { e with loops := e.loops.tail }) (fun _ => rfl) fun _ => rfl

theorem countedLoop (index limit : UInt8) {item body : Emit Unit} (hitem : Takes N k k item)
    (hbody : Takes N k k' body) : Takes N k k' (Emit.countedLoop index limit item body) := by
  refine (long 0).bind fun _ => (storeSlot index _).bind fun _ => newLabel.bind fun top => ?_
  refine newLabel.bind fun next => newLabel.bind fun done => (mark top).bind fun _ => ?_
  refine (loadSlot index _).bind fun _ => (loadSlot limit _).bind fun _ => (op _).bind fun _ => ?_
  refine (popped 1).bind fun _ => (jump _ done).bind fun _ => hitem.bind fun _ => ?_
  refine (inLoop _ hbody).bind fun _ => (mark next).bind fun _ => ?_
  refine (loadSlot index _).bind fun _ => (long 1).bind fun _ => (op _).bind fun _ => ?_
  exact (popped 1).bind fun _ => (storeSlot index _).bind fun _ => (jump _ top).bind fun _ => mark done

theorem literal (value : Literal) : Takes N k k (Emit.literal value) := by
  cases value with
  | null | bool _ => exact (op _).bind fun _ => pushed 1
  | long n => exact long n
  | double x => exact (write _).bind fun _ => pushed 1
  | string text => exact (intern text).bind fun _ => (write _).bind fun _ => pushed 1

-- Both operators that decide early.
theorem logical {skipOn push : Opcode} {lhs rhs check : Emit Unit} (hlhs : Takes N k k lhs)
    (hrhs : Takes N k k rhs) (hcheck : Takes N k k check) :
    Takes N k k (do
      let skip ← Emit.newLabel
      let done ← Emit.newLabel
      lhs
      Emit.jump skipOn skip
      rhs
      check
      Emit.jump .jump done
      Emit.mark skip
      Emit.op push
      Emit.mark done) := by
  refine newLabel.bind fun skip => newLabel.bind fun done => hlhs.bind fun _ => ?_
  refine (jump _ skip).bind fun _ => hrhs.bind fun _ => hcheck.bind fun _ => ?_
  exact (jump _ done).bind fun _ => (mark skip).bind fun _ => (op _).bind fun _ => mark done

mutual

-- Expressions enter the variables that they read.
theorem expr (env : EmitEnv) {e : Expr} (h : ∀ a ∈ e.accesses, N a.owner.name) :
    Takes N k k (Emit.expr env e) := by
  cases e with
  | literal m value => exact literal value
  | name m name => exact load env (h _ (List.mem_singleton.mpr rfl)) _
  | static m name args binding =>
      cases binding with
      | unresolved => exact fail _ _
      | const value => exact literal value
      | property id => exact (member _ id).bind fun _ => pushed 1
      | method id =>
          exact (exprs env h).bind fun _ => (guardArgs env _ _ _).bind fun _ =>
            (member _ id).bind fun _ => (popped _).bind fun _ => pushed 1
  | member m target name args binding =>
      cases binding with
      | unresolved => exact fail _ _
      | property id =>
          exact (expr env (e := target) h).bind fun _ => (member _ id).bind fun _ =>
            (popped 1).bind fun _ => pushed 1
      | method id =>
          obtain ⟨htarget, hargs⟩ := List.forall_mem_append.mp h
          exact (expr env htarget).bind fun _ => (exprs env hargs).bind fun _ =>
            (guardArgs env _ _ _).bind fun _ => (member _ id).bind fun _ =>
              (popped _).bind fun _ => pushed 1
      | dynamic =>
          obtain ⟨htarget, hargs⟩ := List.forall_mem_append.mp h
          refine (expr env htarget).bind fun _ => (intern name).bind fun index => ?_
          refine ite ((write _).bind fun _ => (popped 1).bind fun _ => pushed 1) ?_
          refine (exprs env hargs).bind fun _ => ite (failed _ _ _) ?_
          exact (write _).bind fun _ => (popped _).bind fun _ => pushed 1
  | new m typeName args binding =>
      cases binding with
      | none => exact fail _ _
      | some id =>
          exact (exprs env h).bind fun _ => (guardArgs env _ _ _).bind fun _ =>
            (member _ id).bind fun _ => (popped _).bind fun _ => pushed 1
  | binary m o lhs rhs =>
      obtain ⟨hlhs, hrhs⟩ := List.forall_mem_append.mp h
      cases o with
      | and | or => exact logical (expr env hlhs) (expr env hrhs) (checkTop env _ _ _)
      | _ => exact (expr env hlhs).bind fun _ => (expr env hrhs).bind fun _ => binary _ _ _
  | unary m o operand =>
      unfold Emit.expr
      split
      · exact literal _
      · refine (expr env (e := operand) h).bind fun _ => ?_
        split
        · exact op _
        · exact op _
  | cast m typeName operand => exact fail _ _

theorem exprs (env : EmitEnv) {es : List Expr}
    (h : ∀ a ∈ Expr.accessesOfAll es, N a.owner.name) : Takes N k k (Emit.exprs env es) := by
  cases es with
  | nil => exact pure _
  | cons e rest =>
      obtain ⟨hfirst, hothers⟩ := List.forall_mem_append.mp h
      exact (expr env hfirst).bind fun _ => exprs env hothers

end

theorem changeValue (env : EmitEnv) {how : Change} (h : ∀ a ∈ how.accesses, N a.owner.name) :
    Takes N k k (Emit.changeValue env how) := by
  cases how with
  | compound o value => exact (expr env h).bind fun _ => pure _
  | increment | decrement => exact (long 1).bind fun _ => pure _

theorem varStmt (env : EmitEnv) {v : VarStmt} (h : ∀ a ∈ v.accesses, N a.owner.name) :
    Takes N k k (Emit.varStmt env v) := by
  cases v with
  | declare offset name value =>
      obtain ⟨hvalue, hname⟩ := List.forall_mem_append.mp h
      exact (expr env hvalue).bind fun _ => store env (hname _ (List.mem_singleton.mpr rfl)) _
  | update offset name how current result =>
      obtain ⟨hname, hrest⟩ := List.forall_mem_cons.mp h
      exact (load env hname _).bind fun _ =>
        (changeValue env (List.forall_mem_append.mp hrest).1).bind fun _ =>
          (binary _ _ _).bind fun _ => store env hname _

theorem setProperty (env : EmitEnv) (o : Opcode) (id : Nat) (value : Expr) :
    Takes N k k (Emit.setProperty env o id value) :=
  (checkTop env _ _ _).bind fun _ => member o id

theorem assignStmt (env : EmitEnv) {offset : Nat} {target value : Expr}
    (h : ∀ a ∈ (Stmt.assign offset target value).accesses env.level k, N a.owner.name) :
    Takes N k k (Emit.assignStmt env target value) := by
  cases target with
  | static m name args binding =>
      refine (expr env h).bind fun _ => ?_
      cases binding with
      | property id => exact (setProperty env _ id value).bind fun _ => popped 1
      | _ => exact failed _ _ _
  | member m owner name args binding =>
      obtain ⟨howner, hvalue⟩ := List.forall_mem_append.mp h
      refine (expr env howner).bind fun _ => (expr env hvalue).bind fun _ => ?_
      cases binding with
      | property id => exact (setProperty env _ id value).bind fun _ => popped 2
      | dynamic => exact (intern name).bind fun _ => (write _).bind fun _ => popped 2
      | _ => exact failed _ _ _
  | _ => exact fail _ _

theorem testedLoop (env : EmitEnv) {test : Expr} {body : LoopLabels → Emit Unit} (top next : Nat)
    (htest : ∀ a ∈ test.accesses, N a.owner.name) (hbody : ∀ labels, Takes N k k' (body labels)) :
    Takes N k k' (Emit.testedLoop env test body top next) :=
  newLabel.bind fun done => (mark top).bind fun _ => (expr env htest).bind fun _ =>
    (jump _ done).bind fun _ => (hbody _).bind fun _ => (jump _ top).bind fun _ => mark done

theorem machineLoop (env : EmitEnv) {count : Expr} {body : Emit Unit} (offset : Nat)
    (hcount : ∀ a ∈ count.accesses, N a.owner.name) (hbody : Takes N k k' body) :
    Takes N k k' (Emit.machineLoop env count body offset) := by
  intro e a e' he h
  obtain ⟨lengthAt, e₁, e₂, hhead, hrun, -, rfl⟩ := machineLoop_ok h
  have hstart : Entered N k e₁ := by
    cases hhead with
    | literal _ => exact ⟨he.hidden, he.named⟩
    | computed _ hexpr hcheck =>
        have hchecked := checkTop env _ _ _ _ _ _ (expr env hcount _ _ _ he hexpr) hcheck
        exact ⟨hchecked.hidden, hchecked.named⟩
  have hdone := hbody e₁ () e₂ hstart hrun
  exact ⟨hdone.hidden, hdone.named⟩

theorem countLoop (env : EmitEnv) {count : Expr} {body : Emit Unit} (offset : Nat)
    (hlimit : N (hiddenName "limit" (k + 1))) (hindex : N (hiddenName "index" (k + 2)))
    (hcount : ∀ a ∈ count.accesses, N a.owner.name) (hbody : Takes N (k + 2) k' body) :
    Takes N k k' (Emit.countLoop env count body offset) :=
  (hiddenSlot hlimit _).bind fun limit => (hiddenSlot hindex _).bind fun index =>
    (expr env hcount).bind fun _ => (checkTop env _ _ _).bind fun _ =>
      (storeSlot limit _).bind fun _ => countedLoop index limit (pure _) hbody

theorem itemCount (env : EmitEnv) (how : Iteration) (offset : Nat) :
    Takes N k k (Emit.itemCount env how offset) := by
  cases how with
  | members count getItem => exact member _ count
  | dynamic => exact (intern _).bind fun _ => (write _).bind fun _ => guardTop env _ _
  | unresolved => exact fail _ _

theorem bindItem (env : EmitEnv) {item : String} (hitem : N item) (source index : UInt8)
    (how : Iteration) (offset : Nat) :
    Takes N k k (Emit.bindItem env item source index how offset) := by
  refine (loadSlot source _).bind fun _ => (loadSlot index _).bind fun _ => ?_
  cases how with
  | members count getItem =>
      exact (member _ getItem).bind fun _ => (popped 1).bind fun _ => store env hitem _
  | _ =>
      exact (intern _).bind fun _ => (write _).bind fun _ => (popped 1).bind fun _ =>
        store env hitem _

theorem eachLoop (env : EmitEnv) {item : String} {source : Expr} (how : Iteration)
    {body : Emit Unit} (offset : Nat) (hiter : N (hiddenName "iter" (k + 1)))
    (hcount : N (hiddenName "count" (k + 2))) (hindex : N (hiddenName "index" (k + 3)))
    (hitem : N item) (hsource : ∀ a ∈ source.accesses, N a.owner.name)
    (hbody : Takes N (k + 3) k' body) :
    Takes N k k' (Emit.eachLoop env item source body how offset) := by
  refine (hiddenSlot hiter _).bind fun iter => (hiddenSlot hcount _).bind fun count => ?_
  refine (hiddenSlot hindex _).bind fun index => (expr env hsource).bind fun _ => ?_
  refine (storeSlot iter _).bind fun _ => (loadSlot iter _).bind fun _ => ?_
  refine (itemCount env how _).bind fun _ => (storeSlot count _).bind fun _ => ?_
  refine (countedLoop index count (bindItem env hitem iter index how _) hbody).bind fun _ => ?_
  exact (op _).bind fun _ => (pushed 1).bind fun _ => storeSlot iter _

theorem owned_named {level : Nat} {s : Stmt} (h : ∀ a ∈ s.accesses level k, N a.owner.name) :
    ∀ o ∈ (s.owned level k).flatten, N o.name := by
  intro o ho
  obtain ⟨a, ha, rfl⟩ := List.mem_map.mp (Stmt.owned_reached level k s ho)
  exact h a ha

mutual

-- Statements enter the variables that they read and write, and the slots of their loops.
theorem stmt (env : EmitEnv) {k : Nat} {s : Stmt}
    (h : ∀ a ∈ s.accesses env.level k, N a.owner.name) :
    Takes N k (k + (s.owned env.level k).flatten.length) (Emit.stmt env s) := by
  cases s with
  | «using» offset ns => exact pure _
  | input offset name typeName declared => exact pure _
  | var v => exact varStmt env h
  | cond offset test body rest =>
      simp only [Stmt.accesses, List.forall_mem_append] at h
      obtain ⟨⟨htest, hbody⟩, hrest⟩ := h
      simp only [Stmt.owned, List.flatten_append, List.length_append, ← Nat.add_assoc]
      refine newLabel.bind fun done => newLabel.bind fun next => (expr env htest).bind fun _ => ?_
      refine (jump _ next).bind fun _ => (stmts env hbody).bind fun _ => ?_
      refine (jump _ done).bind fun _ => (mark next).bind fun _ => ?_
      exact (branches env done hrest).bind fun _ => mark done
  | whileLoop offset test body =>
      obtain ⟨htest, hbody⟩ := List.forall_mem_append.mp h
      exact newLabel.bind fun top =>
        testedLoop env top top htest fun labels => inLoop labels (stmts env hbody)
  | forLoop offset init test step body =>
      simp only [Stmt.accesses, List.forall_mem_append] at h
      obtain ⟨⟨⟨hinit, htest⟩, hbody⟩, hstep⟩ := h
      refine (varStmt env hinit).bind fun _ => newLabel.bind fun top => newLabel.bind
        fun next => testedLoop env top next htest fun labels => ?_
      exact (inLoop labels (stmts env hbody)).bind fun _ => (mark next).bind fun _ =>
        varStmt env hstep
  | eachLoop offset item source body how =>
      have hown := owned_named h
      simp only [Stmt.owned, Stmt.eachOwners, List.flatten_cons, List.forall_mem_append,
        List.forall_mem_cons] at hown
      obtain ⟨⟨hiter, hcount, hindex, -⟩, -⟩ := hown
      simp only [Stmt.accesses, Stmt.countedAccesses, List.forall_mem_append] at h
      obtain ⟨⟨⟨hsource, -⟩, ⟨⟨-, hitem⟩, hbody⟩, -⟩, -⟩ := h
      simp only [Stmt.owned, List.flatten_cons, List.length_append, ← Nat.add_assoc]
      exact eachLoop env how offset hiter hcount hindex (hitem (.write (.named item)) (by simp))
        hsource (stmts env hbody)
  | countLoop offset count body =>
      have hown := owned_named h
      have hstmt : Emit.stmt env (.countLoop offset count body) =
          if Stmt.countedByMachine env.level body then
            Emit.machineLoop env count (Emit.stmts env body) offset
          else Emit.countLoop env count (Emit.stmts env body) offset := rfl
      rw [hstmt]
      simp only [Stmt.owned] at hown ⊢
      simp only [Stmt.accesses] at h
      by_cases hslots : Stmt.countedByMachine env.level body = true
      · simp only [if_pos hslots] at h ⊢
        obtain ⟨hcount, hbody⟩ := List.forall_mem_append.mp h
        exact machineLoop env offset hcount (stmts env hbody)
      · simp only [if_neg hslots] at h hown ⊢
        simp only [Stmt.countOwners, List.flatten_cons, List.forall_mem_append,
          List.forall_mem_cons] at hown
        obtain ⟨⟨hlimit, hindex, -⟩, -⟩ := hown
        simp only [Stmt.countedAccesses, List.forall_mem_append] at h
        obtain ⟨⟨hcount, -⟩, ⟨-, hbody⟩, -⟩ := h
        simp only [List.flatten_cons, List.length_append, ← Nat.add_assoc]
        exact countLoop env offset hlimit hindex hcount (stmts env hbody)
  | leave offset =>
      refine get.bind fun e => ?_
      split
      · exact jump _ _
      · exact fail _ _
  | again offset =>
      refine get.bind fun e => ?_
      split
      · exact jump _ _
      · exact fail _ _
  | ret offset value =>
      cases value with
      | none => exact (op _).bind fun _ => (pushed 1).bind fun _ => (op _).bind fun _ => popped 1
      | some v => exact (expr env h).bind fun _ => (op _).bind fun _ => popped 1
  | exit offset => exact op _
  | func offset name params body => exact fail _ _
  | call offset target =>
      exact (expr env (e := target) h).bind fun _ => (op _).bind fun _ => popped 1
  | assign offset target value => exact assignStmt env h

theorem stmts (env : EmitEnv) {k : Nat} {ss : List Stmt}
    (h : ∀ a ∈ Stmt.accessesOfAll env.level k ss, N a.owner.name) :
    Takes N k (k + (Stmt.ownedByAll env.level k ss).flatten.length) (Emit.stmts env ss) := by
  cases ss with
  | nil => exact pure _
  | cons s rest =>
      obtain ⟨hfirst, hothers⟩ := List.forall_mem_append.mp h
      simp only [Stmt.ownedByAll, List.flatten_append, List.length_append, ← Nat.add_assoc]
      exact (stmt env hfirst).bind fun _ => stmts env hothers

theorem branches (env : EmitEnv) (done : Nat) {k : Nat} {b : Branches}
    (h : ∀ a ∈ Stmt.accessesOfBranches env.level k b, N a.owner.name) :
    Takes N k (k + (Stmt.ownedByBranches env.level k b).flatten.length)
      (Emit.branches env done b) := by
  cases b with
  | done => exact pure _
  | otherwise body => exact stmts env h
  | elseIf test body rest =>
      simp only [Stmt.accessesOfBranches, List.forall_mem_append] at h
      obtain ⟨⟨htest, hbody⟩, hrest⟩ := h
      simp only [Stmt.ownedByBranches, List.flatten_append, List.length_append, ← Nat.add_assoc]
      refine newLabel.bind fun next => (expr env htest).bind fun _ => ?_
      refine (jump _ next).bind fun _ => (stmts env hbody).bind fun _ => ?_
      exact (jump _ done).bind fun _ => (mark next).bind fun _ => branches env done hrest

end

theorem inputSlots {inputs : List InputVar} (h : ∀ v ∈ inputs, N v.name) :
    Takes N k k (Emit.inputSlots inputs) := by
  induction inputs with
  | nil => exact pure _
  | cons v rest ih =>
      obtain ⟨hfirst, hothers⟩ := List.forall_mem_cons.mp h
      exact (slot hfirst 0).bind fun _ => ih hothers

theorem script (env : EmitEnv) {inputs : List InputVar} {s : Script}
    (hinputs : ∀ v ∈ inputs, N v.name)
    (h : ∀ a ∈ Stmt.accessesOfAll env.level 0 s, N a.owner.name) :
    Takes N 0 (Stmt.ownedByAll env.level 0 s).flatten.length (Emit.script env inputs s) := by
  have hstmts := stmts env h
  rw [Nat.zero_add] at hstmts
  exact (inputSlots hinputs).bind fun _ => hstmts.bind fun _ => op _

end Takes

-- Inputs with names of their own get the next slots, one after the other.
theorem slots_inputSlots {inputs : List InputVar} (hnodup : (inputs.map (·.name)).Nodup)
    {e e' : Emitter} (hfresh : ∀ v ∈ inputs, v.name ∉ e.slots)
    (h : inputSlots inputs e = .ok ((), e')) : e'.slots = e.slots ++ inputs.map (·.name) := by
  induction inputs generalizing e with
  | nil =>
      cases pure_ok.mp h
      simp
  | cons v rest ih =>
      rw [List.map_cons, List.nodup_cons] at hnodup
      obtain ⟨hv, hrest⟩ := List.forall_mem_cons.mp hfresh
      obtain ⟨n, e₁, hslot, hothers⟩ := bind_ok.mp h
      rcases slot_ok hslot with ⟨i, hi, -, -⟩ | ⟨-, -, -, rfl⟩
      · have hnone : e.slots.idxOf? v.name = none := List.idxOf?_eq_none_iff.mpr hv
        exact absurd (hnone.symm.trans hi) nofun
      · rw [ih hnodup.2 ?_ hothers, List.map_cons, List.append_assoc, List.singleton_append]
        intro w hw hmem
        rcases List.mem_append.mp hmem with hold | hnew
        · exact hrest w hw hold
        · exact hnodup.1 (List.mem_singleton.mp hnew ▸ List.mem_map_of_mem hw)

end Emit

namespace CompiledScript

variable {r : Registry} {options : CompileOptions} {script : Script} {analysis : Analysis}

-- Slots are given out to inputs first.
theorem inputs_prefix_slotNames {s : CompiledScript} (hplain : Stmt.AllPlain script)
    (hnodup : (analysis.inputs.map (·.name)).Nodup)
    (h : generate r options script analysis = .ok s) :
    analysis.inputs.map (·.name) <+: slotNames r options script analysis := by
  obtain ⟨⟨⟨⟩, e⟩, hrun, -⟩ := except_bind_ok.mp h
  rw [slotNames, hrun]
  obtain ⟨_, e₁, hinputs, hrest⟩ := bind_ok.mp hrun
  have hslots := Emit.slots_inputSlots hnodup (by simp) hinputs
  let env : EmitEnv := ⟨r, analysis.symbols, options.level⟩
  have hgrows : Emit.Grows 0 (do Emit.stmts env script; Emit.op .exit) :=
    (Emit.Grows.stmts env script hplain).bind fun _ => Emit.Grows.op _
  have hext := (hgrows e₁ _ e (Nat.zero_le _) hrest).slots
  rwa [hslots, List.nil_append] at hext

-- Every slot belongs to an input or is read or written somewhere.
theorem slotNames_named {s : CompiledScript} {N : String → Prop}
    (hinputs : ∀ v ∈ analysis.inputs, N v.name)
    (haccesses : ∀ a ∈ Stmt.accessesOfAll options.level 0 script, N a.owner.name)
    (h : generate r options script analysis = .ok s) :
    ∀ name ∈ slotNames r options script analysis, N name := by
  obtain ⟨⟨⟨⟩, e⟩, hrun, -⟩ := except_bind_ok.mp h
  rw [slotNames, hrun]
  have htakes := Emit.Takes.script ⟨r, analysis.symbols, options.level⟩ hinputs haccesses
  exact (htakes {} () e ⟨rfl, by simp⟩ hrun).named

end CompiledScript

end HostScript
