import HostScript.Proofs.Token.Boundaries
import HostScript.Proofs.Typing.Scope

namespace HostScript

open Token (Boundary byteCount)

-- What is read from tokens in places as `O` says is marked with such places.
theorem Parser.builds_placed {O : Nat → Prop} : Builds O (fun t => O t.offset) (·.Placed O)
    (Expr.AllPlaced O) (·.Placed O) (·.Placed O) (Stmt.AllPlaced O) (Stmt.BranchesPlaced O) where
  name _ _ ho _ _ := ho
  literal _ _ ho := ho
  static _ _ _ ho _ hargs := ⟨ho, hargs⟩
  member _ _ _ _ ho htarget hargs := ⟨ho, htarget, hargs⟩
  new _ _ _ ho hargs := ⟨ho, hargs⟩
  binary _ _ _ hlhs hrhs := ⟨hlhs.offset, hlhs, hrhs⟩
  unary _ _ _ ho hoperand := ⟨ho, hoperand⟩
  cast _ _ _ ho hoperand := ⟨ho, hoperand⟩
  noArgs := trivial
  args _ _ hfirst hothers := ⟨hfirst, hothers⟩
  declare _ _ _ ho _ _ hvalue := ⟨ho, hvalue⟩
  update _ _ change ho _ _ hchange := by
    refine ⟨ho, ?_⟩
    cases change with
    | compound op value => exact hchange op value rfl
    | increment => trivial
    | decrement => trivial
  uses _ _ ho := ho
  input _ _ _ ho _ _ := ho
  var _ hv := hv
  cond _ _ _ _ ho htest hbody hrest := ⟨ho, htest, hbody, hrest⟩
  whileLoop _ _ _ ho htest hbody := ⟨ho, htest, hbody⟩
  forLoop _ _ _ _ _ ho hinit htest hstep hbody := ⟨ho, hinit, htest, hstep, hbody⟩
  eachLoop _ _ _ _ ho _ _ hsource hbody := ⟨ho, hsource, hbody⟩
  countLoop _ _ _ ho hcount hbody := ⟨ho, hcount, hbody⟩
  leave _ ho := ho
  again _ ho := ho
  exit _ ho := ho
  ret _ _ ho hvalue := ⟨ho, hvalue⟩
  func _ _ _ _ ho hbody := ⟨ho, hbody⟩
  call _ _ ho htarget _ := ⟨ho, htarget⟩
  assign _ _ _ ho htarget _ _ hvalue := ⟨ho, htarget, hvalue⟩
  noStmts := trivial
  stmts _ _ hfirst hothers := ⟨hfirst, hothers⟩
  done := trivial
  otherwise _ hbody := hbody
  elseIf _ _ _ htest hbody hrest := ⟨htest, hbody, hrest⟩

-- What is done from states as `I` says: it keeps them so, answers as `Q` says, and finds problems
-- in places as `O` says.
def Finds {σ α : Type} (O : Nat → Prop) (I : σ → Prop) (Q : α → Prop)
    (x : StateT σ (Except Diagnostic) α) : Prop :=
  ∀ s, I s → (∀ a s', x s = .ok (a, s') → I s' ∧ Q a) ∧ ∀ d, x s = .error d → O d.offset

namespace Finds

variable {σ α β : Type} {O : Nat → Prop} {I : σ → Prop} {Q : α → Prop} {R : β → Prop}

theorem pure {a : α} (h : Q a) : Finds O I Q (Pure.pure a : StateT σ (Except Diagnostic) α) := by
  refine fun s hs => ⟨fun b s' hrun => ?_, fun d hrun => by cases hrun⟩
  cases pure_ok.mp hrun
  exact ⟨hs, h⟩

theorem throw {d : Diagnostic} (h : O d.offset) :
    Finds O I Q (MonadExcept.throw d : StateT σ (Except Diagnostic) α) := by
  refine fun s _ => ⟨fun _ _ hrun => (throw_ok.mp hrun).elim, fun d' hrun => ?_⟩
  cases hrun
  exact h

theorem bind {x : StateT σ (Except Diagnostic) α} {f : α → StateT σ (Except Diagnostic) β}
    (hx : Finds O I Q x) (hf : ∀ a, Q a → Finds O I R (f a)) : Finds O I R (x >>= f) := by
  refine fun s hs => ⟨fun b s' hrun => ?_, fun d hrun => ?_⟩
  · obtain ⟨a, s₁, hfirst, hrest⟩ := bind_ok.mp hrun
    obtain ⟨hs₁, ha⟩ := (hx s hs).1 a s₁ hfirst
    exact (hf a ha s₁ hs₁).1 b s' hrest
  · rcases bind_error.mp hrun with hfirst | ⟨a, s₁, hfirst, hrest⟩
    · exact (hx s hs).2 d hfirst
    · obtain ⟨hs₁, ha⟩ := (hx s hs).1 a s₁ hfirst
      exact (hf a ha s₁ hs₁).2 d hrest

theorem change {f : σ → σ} (h : ∀ s, I s → I (f s)) :
    Finds O I (fun _ => True) (modify f : StateT σ (Except Diagnostic) PUnit) := by
  refine fun s hs => ⟨fun a s' hrun => ?_, fun d hrun => by cases hrun⟩
  cases modify_ok.mp hrun
  exact ⟨h s hs, trivial⟩

theorem get : Finds O I I (MonadState.get : StateT σ (Except Diagnostic) σ) := by
  refine fun s hs => ⟨fun a s' hrun => ?_, fun d hrun => by cases hrun⟩
  cases get_ok.mp hrun
  exact ⟨hs, hs⟩

theorem set {t : σ} (h : I t) :
    Finds O I (fun _ => True) (MonadStateOf.set t : StateT σ (Except Diagnostic) PUnit) := by
  refine fun s _ => ⟨fun a s' hrun => ?_, fun d hrun => by cases hrun⟩
  cases set_ok.mp hrun
  exact ⟨h, trivial⟩

theorem ite {c : Prop} [Decidable c] {x y : StateT σ (Except Diagnostic) α} (hx : Finds O I Q x)
    (hy : Finds O I Q y) : Finds O I Q (if c then x else y) := by
  split
  · exact hx
  · exact hy

end Finds

namespace Check

variable {α : Type} {O : Nat → Prop} {r : Registry}

-- A checker that stands in some block.
def Inside (c : Checker) : Prop :=
  c.ctx.kinds ≠ []

theorem Goes.finds {names : List String} {Q : α → Prop} {x : Check α} (h : Goes O names Q x) :
    Finds O Inside Q x :=
  fun c hc => ⟨fun a c' hrun => ((h c hc).1 a c' hrun).imp_left (·.kinds_ne_nil hc), (h c hc).2⟩

theorem finds_fail {Q : α → Prop} (problem : Diagnostic.Problem) {offset : Nat} (h : O offset) :
    Finds O Inside Q (Check.fail problem offset : Check α) :=
  .throw h

-- A check that may find a problem in front of something else.
theorem finds_unless {c : Prop} [Decidable c] {Q : α → Prop} (problem : Diagnostic.Problem)
    {offset : Nat} (h : O offset) {f : PUnit → Check α} (hf : Finds O Inside Q (f ⟨⟩)) :
    Finds O Inside Q (if c then Check.fail problem offset >>= f else f ⟨⟩) :=
  .ite ((finds_fail (Q := fun _ => False) _ h).bind fun _ h => h.elim) hf

theorem finds_addImport (ns : String) : Finds O Inside (fun _ => True) (addImport ns) := by
  refine .change fun c hc => ?_
  dsimp only
  split
  · exact hc
  · exact hc

theorem finds_usingStmt (r : Registry) {offset : Nat} (ns : String) (h : O offset) :
    Finds O Inside (fun _ => True) (usingStmt r offset ns) := by
  refine Finds.get.bind fun c _ => ?_
  exact finds_unless _ h (finds_unless _ h (finds_addImport ns))

theorem finds_inputStmt (r : Registry) {offset : Nat} (name : String) (typeName : Option String)
    (h : O offset) : Finds O Inside (fun _ => True) (inputStmt r offset name typeName) := by
  have hdeclare : ∀ ty, Finds O Inside (fun _ => True) (do
      modify fun c => { c with
        ctx := c.ctx.set name ty
        symbols := c.symbols.record name offset ty.mayBeRef true
        inputs := c.inputs ++ [⟨name, ty⟩] }
      return ty : Check Ty) := by
    refine fun ty => (Finds.change fun c hc => ?_).bind fun _ _ => .pure trivial
    simpa [Inside] using hc
  refine Finds.get.bind fun c _ => ?_
  refine finds_unless _ h ?_
  refine (Finds.change (f := fun c : Checker => { c with header := .inputs }) fun c hc => hc).bind
    fun _ _ => Finds.get.bind fun c _ => finds_unless _ h ?_
  cases typeName with
  | none => exact (Finds.pure (Q := fun _ => True) trivial).bind fun ty _ => hdeclare ty
  | some t => exact (Goes.resolveType r t h).finds.bind fun ty _ => hdeclare ty

theorem finds_topStmt (r : Registry) {s : Stmt} (h : s.Placed O) :
    Finds O Inside (·.Placed O) (topStmt r s) := by
  cases s with
  | «using» offset ns => exact (finds_usingStmt r ns h).bind fun _ _ => .pure h
  | input offset name typeName declared =>
      exact (finds_inputStmt r name typeName h).bind fun _ _ => .pure h
  | _ =>
      exact (Finds.change (f := fun c : Checker => { c with header := .body }) fun c hc => hc).bind
        fun _ _ => (Goes.stmt r h).finds

theorem finds_topStmts (r : Registry) {ss : List Stmt} (h : Stmt.AllPlaced O ss) :
    Finds O Inside (Stmt.AllPlaced O) (topStmts r ss) := by
  induction ss with
  | nil => exact .pure trivial
  | cons s rest ih =>
      exact (finds_topStmt r h.1).bind fun _ hs => (ih h.2).bind fun _ hrest => .pure ⟨hs, hrest⟩

theorem finds_importAll (imports : List String) :
    Finds O Inside (fun _ => True) (importAll imports) := by
  induction imports with
  | nil => exact .pure trivial
  | cons ns rest ih => exact (finds_addImport ns).bind fun _ _ => ih

theorem finds_script (r : Registry) (imports : List String) {s : Script}
    (h : Stmt.AllPlaced O s) : Finds O Inside (Stmt.AllPlaced O) (script r imports s) :=
  (finds_importAll imports).bind fun _ _ => finds_topStmts r h

end Check

namespace Emit

variable {α β : Type} {O : Nat → Prop} {env : EmitEnv}

-- How code is generated: problems are found in places as `O` says.
def Marks (O : Nat → Prop) (x : Emit α) : Prop :=
  Finds O (fun _ => True) (fun _ => True) x

namespace Marks

theorem pure (a : α) : Marks O (Pure.pure a : Emit α) :=
  Finds.pure trivial

theorem fail (problem : Diagnostic.Problem) {offset : Nat} (h : O offset) :
    Marks O (Emit.fail problem offset : Emit α) :=
  Finds.throw h

theorem bind {x : Emit α} {f : α → Emit β} (hx : Marks O x) (hf : ∀ a, Marks O (f a)) :
    Marks O (x >>= f) :=
  Finds.bind hx fun a _ => hf a

theorem change (f : Emitter → Emitter) : Marks O (modify f : Emit PUnit) :=
  Finds.change fun _ _ => trivial

theorem get : Marks O (MonadState.get : Emit Emitter) :=
  Finds.get

theorem set (e : Emitter) : Marks O (MonadStateOf.set e : Emit PUnit) :=
  Finds.set trivial

theorem ite {c : Prop} [Decidable c] {x y : Emit α} (hx : Marks O x) (hy : Marks O y) :
    Marks O (if c then x else y) :=
  Finds.ite hx hy

theorem op (o : Opcode) : Marks O (Emit.op o) := change _

theorem write (f : Writer → Writer) : Marks O (Emit.write f) := change _

theorem pushed (n : Nat) : Marks O (Emit.pushed n) := change _

theorem popped (n : Nat) : Marks O (Emit.popped n) := change _

theorem mark (label : Nat) : Marks O (Emit.mark label) := change _

theorem member (o : Opcode) (id : Nat) : Marks O (Emit.member o id) := change _

theorem position : Marks O Emit.position :=
  get.bind fun _ => pure _

theorem newLabel : Marks O Emit.newLabel :=
  get.bind fun _ => (set _).bind fun _ => pure _

theorem jump (o : Opcode) (label : Nat) : Marks O (Emit.jump o label) :=
  (write _).bind fun _ => ite (popped 1) (pure _)

theorem loadSlot (n : UInt8) (holdsRef : Bool) : Marks O (Emit.loadSlot n holdsRef) :=
  (write _).bind fun _ => pushed 1

theorem storeSlot (n : UInt8) (holdsRef : Bool) : Marks O (Emit.storeSlot n holdsRef) :=
  (write _).bind fun _ => popped 1

theorem long (n : Int64) : Marks O (Emit.long n) :=
  (write _).bind fun _ => pushed 1

theorem binary (o : BinaryOp) (lhs rhs : Ty) : Marks O (Emit.binary o lhs rhs) :=
  (op _).bind fun _ => popped 1

theorem slot (name : String) {offset : Nat} (h : O offset) : Marks O (Emit.slot name offset) := by
  refine get.bind fun e => ?_
  split
  · exact pure _
  · exact ite ((set _).bind fun _ => pure _) (fail _ h)

theorem hiddenSlot (what : String) {offset : Nat} (h : O offset) :
    Marks O (Emit.hiddenSlot what offset) :=
  (change _).bind fun _ => get.bind fun _ => slot _ h

theorem load (env : EmitEnv) (name : String) {offset : Nat} (h : O offset) :
    Marks O (Emit.load env name offset) :=
  (slot name h).bind fun _ => loadSlot _ _

theorem store (env : EmitEnv) (name : String) {offset : Nat} (h : O offset) :
    Marks O (Emit.store env name offset) :=
  (slot name h).bind fun _ => storeSlot _ _

theorem guardTop (env : EmitEnv) (ty : Ty) {offset : Nat} (h : O offset) :
    Marks O (Emit.guardTop env ty offset) := by
  unfold Emit.guardTop
  split
  · exact write _
  · exact fail _ h

theorem checkTop (env : EmitEnv) (expected actual : Ty) {offset : Nat} (h : O offset) :
    Marks O (Emit.checkTop env expected actual offset) :=
  ite (guardTop env expected h) (pure _)

theorem guardArgs (env : EmitEnv) (params : List Ty) {args : List Expr} (above : Nat)
    (h : Expr.AllPlaced O args) : Marks O (Emit.guardArgs env params args above) := by
  induction params generalizing args above with
  | nil => exact pure _
  | cons param params ih =>
      cases args with
      | nil => exact pure _
      | cons arg args =>
          unfold Emit.guardArgs
          refine ite ?_ (ih _ h.2)
          split
          · exact (write _).bind fun _ => ih _ h.2
          · exact (fail _ (Expr.Placed.offset h.1)).bind fun _ => ih _ h.2

theorem inLoop (labels : LoopLabels) {body : Emit Unit} (h : Marks O body) :
    Marks O (Emit.inLoop labels body) :=
  (change _).bind fun _ => h.bind fun _ => change _

theorem countedLoop (index limit : UInt8) {item body : Emit Unit} (hitem : Marks O item)
    (hbody : Marks O body) : Marks O (Emit.countedLoop index limit item body) := by
  refine (long 0).bind fun _ => (storeSlot index _).bind fun _ => newLabel.bind fun top => ?_
  refine newLabel.bind fun next => newLabel.bind fun done => (mark top).bind fun _ => ?_
  refine (loadSlot index _).bind fun _ => (loadSlot limit _).bind fun _ => (op _).bind fun _ => ?_
  refine (popped 1).bind fun _ => (jump _ done).bind fun _ => hitem.bind fun _ => ?_
  refine (inLoop _ hbody).bind fun _ => (mark next).bind fun _ => (loadSlot index _).bind fun _ => ?_
  refine (long 1).bind fun _ => (op _).bind fun _ => (popped 1).bind fun _ => ?_
  exact (storeSlot index _).bind fun _ => (jump _ top).bind fun _ => mark done

section Source

-- The texts and jumps of a script and its inputs are not found in a place of the source: what is
-- wrong with them is said to be at its start.
variable (h0 : O 0)

include h0

theorem intern (text : String) : Marks O (Emit.intern text) := by
  refine get.bind fun e => ?_
  split
  · exact (set _).bind fun _ => pure _
  · rename_i d strings hintern
    have hd : d.offset = 0 := by
      unfold StringPool.intern at hintern
      split at hintern
      · cases hintern
      · dsimp only at hintern
        split at hintern
        · cases hintern
        · cases hintern
          rfl
    exact Finds.throw (by rw [hd]; exact h0)

theorem literal (value : Literal) : Marks O (Emit.literal value) := by
  cases value with
  | null => exact (op _).bind fun _ => pushed 1
  | bool v => exact (op _).bind fun _ => pushed 1
  | long n => exact long n
  | double x => exact (write _).bind fun _ => pushed 1
  | string text => exact (intern h0 text).bind fun _ => (write _).bind fun _ => pushed 1

omit h0 in
theorem logical {skipOn push : Opcode} {lhs rhs check : Emit Unit} (hlhs : Marks O lhs)
    (hrhs : Marks O rhs) (hcheck : Marks O check) :
    Marks O (do
      let skip ← Emit.newLabel
      let done ← Emit.newLabel
      lhs
      Emit.jump skipOn skip
      rhs
      check
      Emit.jump .jump done
      Emit.mark skip
      Emit.op push
      Emit.mark done) := by
  refine newLabel.bind fun skip => newLabel.bind fun done => hlhs.bind fun _ => ?_
  refine (jump _ skip).bind fun _ => hrhs.bind fun _ => hcheck.bind fun _ => ?_
  exact (jump _ done).bind fun _ => (mark skip).bind fun _ => (op _).bind fun _ => mark done

end Source

mutual

theorem expr (h0 : O 0) (env : EmitEnv) {e : Expr} (h : e.Placed O) : Marks O (Emit.expr env e) := by
  cases e with
  | literal m value => exact literal h0 value
  | name m name => exact load env name h
  | static m name args binding =>
      cases binding with
      | unresolved => exact fail _ h.1
      | const value => exact literal h0 value
      | property id => exact (member _ id).bind fun _ => pushed 1
      | method id =>
          exact (exprs h0 env h.2).bind fun _ => (guardArgs env _ _ h.2).bind fun _ =>
            (member _ id).bind fun _ => (popped _).bind fun _ => pushed 1
  | member m target name args binding =>
      obtain ⟨hplace, htarget, hargs⟩ := h
      cases binding with
      | unresolved => exact fail _ hplace
      | property id =>
          exact (expr h0 env htarget).bind fun _ => (member _ id).bind fun _ =>
            (popped 1).bind fun _ => pushed 1
      | method id =>
          exact (expr h0 env htarget).bind fun _ => (exprs h0 env hargs).bind fun _ =>
            (guardArgs env _ _ hargs).bind fun _ => (member _ id).bind fun _ =>
              (popped _).bind fun _ => pushed 1
      | dynamic =>
          refine (expr h0 env htarget).bind fun _ => (intern h0 name).bind fun index => ?_
          refine ite ((write _).bind fun _ => (popped 1).bind fun _ => pushed 1) ?_
          refine (exprs h0 env hargs).bind fun _ => ite ((fail _ hplace).bind fun _ => ?_) ?_
          · exact (write _).bind fun _ => (popped _).bind fun _ => pushed 1
          · exact (write _).bind fun _ => (popped _).bind fun _ => pushed 1
  | new m typeName args binding =>
      cases binding with
      | none => exact fail _ h.1
      | some id =>
          exact (exprs h0 env h.2).bind fun _ => (guardArgs env _ _ h.2).bind fun _ =>
            (member _ id).bind fun _ => (popped _).bind fun _ => pushed 1
  | binary m o lhs rhs =>
      obtain ⟨-, hlhs, hrhs⟩ := h
      cases o with
      | and => exact logical (expr h0 env hlhs) (expr h0 env hrhs) (checkTop env _ _ (Expr.Placed.offset hrhs))
      | or => exact logical (expr h0 env hlhs) (expr h0 env hrhs) (checkTop env _ _ (Expr.Placed.offset hrhs))
      | _ => exact (expr h0 env hlhs).bind fun _ => (expr h0 env hrhs).bind fun _ => binary _ _ _
  | unary m o operand =>
      unfold Emit.expr
      split
      · exact literal h0 _
      · refine (expr h0 env h.2).bind fun _ => ?_
        split
        · exact op _
        · exact op _
  | cast m typeName operand => exact fail _ h.1

theorem exprs (h0 : O 0) (env : EmitEnv) {es : List Expr} (h : Expr.AllPlaced O es) :
    Marks O (Emit.exprs env es) := by
  cases es with
  | nil => exact pure _
  | cons e rest => exact (expr h0 env h.1).bind fun _ => exprs h0 env h.2

end

section Source

variable (h0 : O 0)

include h0

theorem changeValue (env : EmitEnv) {how : Change} (h : how.Placed O) :
    Marks O (Emit.changeValue env how) := by
  cases how with
  | compound o value => exact (expr h0 env h).bind fun _ => pure _
  | increment => exact (long 1).bind fun _ => pure _
  | decrement => exact (long 1).bind fun _ => pure _

theorem varStmt (env : EmitEnv) {v : VarStmt} (h : v.Placed O) :
    Marks O (Emit.varStmt env v) := by
  cases v with
  | declare offset name value => exact (expr h0 env h.2).bind fun _ => store env name h.1
  | update offset name how current result =>
      exact (load env name h.1).bind fun _ => (changeValue h0 env h.2).bind fun _ =>
        (binary _ _ _).bind fun _ => store env name h.1

omit h0 in
theorem setProperty (env : EmitEnv) (o : Opcode) (id : Nat) {value : Expr} (h : value.Placed O) :
    Marks O (Emit.setProperty env o id value) :=
  (checkTop env _ _ h.offset).bind fun _ => member o id

theorem assignStmt (env : EmitEnv) {target value : Expr} (htarget : target.Placed O)
    (hvalue : value.Placed O) : Marks O (Emit.assignStmt env target value) := by
  cases target with
  | static m name args binding =>
      refine (expr h0 env hvalue).bind fun _ => ?_
      cases binding with
      | property id => exact (setProperty env _ id hvalue).bind fun _ => popped 1
      | _ => exact (fail _ htarget.1).bind fun _ => popped 1
  | member m owner name args binding =>
      refine (expr h0 env htarget.2.1).bind fun _ => (expr h0 env hvalue).bind fun _ => ?_
      cases binding with
      | property id => exact (setProperty env _ id hvalue).bind fun _ => popped 2
      | dynamic =>
          exact (intern h0 name).bind fun _ => (write _).bind fun _ => popped 2
      | _ => exact (fail _ htarget.1).bind fun _ => popped 2
  | _ => exact fail _ htarget.offset

theorem countLoop (env : EmitEnv) {count : Expr} {body : Emit Unit} {offset : Nat}
    (h : O offset) (hcount : count.Placed O) (hbody : Marks O body) :
    Marks O (Emit.countLoop env count body offset) :=
  (hiddenSlot _ h).bind fun limit => (hiddenSlot _ h).bind fun index =>
    (expr h0 env hcount).bind fun _ => (checkTop env _ _ hcount.offset).bind fun _ =>
      (storeSlot limit _).bind fun _ => countedLoop index limit (pure _) hbody

omit h0 in
theorem measured {body : Emit Unit} {offset : Nat} (lengthAt : Nat) (h : O offset)
    (hbody : Marks O body) :
    Marks O (do
      let start ← Emit.position
      body
      let length := (← Emit.position) - start
      if length ≥ 2147483648 then Emit.fail .largeLoop offset
      Emit.write (·.patchI32 lengthAt (Int32.ofNat length))) :=
  position.bind fun _ => hbody.bind fun _ => position.bind fun _ =>
    ite ((fail _ h).bind fun _ => write _) (write _)

theorem machineLoop (env : EmitEnv) {count : Expr} {body : Emit Unit} {offset : Nat}
    (h : O offset) (hcount : count.Placed O) (hbody : Marks O body) :
    Marks O (Emit.machineLoop env count body offset) := by
  unfold Emit.machineLoop
  cases Emit.literalCount? count with
  | some n =>
      refine position.bind fun _ => (write _).bind fun _ => ?_
      rw [pure_bind]
      exact measured _ h hbody
  | none =>
      refine (expr h0 env hcount).bind fun _ => (checkTop env _ _ hcount.offset).bind fun _ => ?_
      refine (popped 1).bind fun _ => position.bind fun _ => (write _).bind fun _ => ?_
      rw [pure_bind]
      exact measured _ h hbody

theorem itemCount (env : EmitEnv) (how : Iteration) {offset : Nat} (h : O offset) :
    Marks O (Emit.itemCount env how offset) := by
  cases how with
  | members count getItem => exact member _ count
  | dynamic =>
      exact (intern h0 _).bind fun _ => (write _).bind fun _ => guardTop env _ h
  | unresolved => exact fail _ h

theorem bindItem (env : EmitEnv) (item : String) (source index : UInt8) (how : Iteration)
    {offset : Nat} (h : O offset) : Marks O (Emit.bindItem env item source index how offset) := by
  refine (loadSlot source _).bind fun _ => (loadSlot index _).bind fun _ => ?_
  cases how with
  | members count getItem =>
      exact (member _ getItem).bind fun _ => (popped 1).bind fun _ => store env item h
  | _ =>
      exact (intern h0 _).bind fun _ => (write _).bind fun _ => (popped 1).bind fun _ =>
        store env item h

theorem eachLoop (env : EmitEnv) (item : String) {source : Expr} (how : Iteration)
    {body : Emit Unit} {offset : Nat} (h : O offset) (hsource : source.Placed O)
    (hbody : Marks O body) : Marks O (Emit.eachLoop env item source body how offset) := by
  refine (hiddenSlot _ h).bind fun iter => (hiddenSlot _ h).bind fun count => ?_
  refine (hiddenSlot _ h).bind fun index => (expr h0 env hsource).bind fun _ => ?_
  refine (storeSlot iter _).bind fun _ => (loadSlot iter _).bind fun _ => ?_
  refine (itemCount h0 env how h).bind fun _ => (storeSlot count _).bind fun _ => ?_
  refine (countedLoop index count (bindItem h0 env item iter index how h) hbody).bind fun _ => ?_
  exact (op _).bind fun _ => (pushed 1).bind fun _ => storeSlot iter _

theorem testedLoop (env : EmitEnv) {test : Expr} {body : LoopLabels → Emit Unit} (top next : Nat)
    (htest : test.Placed O) (hbody : ∀ labels, Marks O (body labels)) :
    Marks O (Emit.testedLoop env test body top next) :=
  newLabel.bind fun done => (mark top).bind fun _ => (expr h0 env htest).bind fun _ =>
    (jump _ done).bind fun _ => (hbody _).bind fun _ => (jump _ top).bind fun _ => mark done

end Source

mutual

theorem stmt (h0 : O 0) (env : EmitEnv) {s : Stmt} (h : s.Placed O) : Marks O (Emit.stmt env s) := by
  cases s with
  | «using» offset ns => exact pure _
  | input offset name typeName declared => exact pure _
  | var v => exact varStmt h0 env h
  | cond offset test body rest =>
      obtain ⟨-, htest, hbody, hrest⟩ := h
      refine newLabel.bind fun done => newLabel.bind fun next => (expr h0 env htest).bind fun _ => ?_
      refine (jump _ next).bind fun _ => (stmts h0 env hbody).bind fun _ => ?_
      refine (jump _ done).bind fun _ => (mark next).bind fun _ => ?_
      exact (branches h0 env done hrest).bind fun _ => mark done
  | whileLoop offset test body =>
      obtain ⟨-, htest, hbody⟩ := h
      exact newLabel.bind fun top =>
        testedLoop h0 env top top htest fun labels => inLoop labels (stmts h0 env hbody)
  | forLoop offset init test step body =>
      obtain ⟨-, hinit, htest, hstep, hbody⟩ := h
      refine (varStmt h0 env hinit).bind fun _ => newLabel.bind fun top => newLabel.bind
        fun next => testedLoop h0 env top next htest fun labels => ?_
      exact (inLoop labels (stmts h0 env hbody)).bind fun _ => (mark next).bind fun _ =>
        varStmt h0 env hstep
  | eachLoop offset item source body how =>
      exact eachLoop h0 env item how h.1 h.2.1 (stmts h0 env h.2.2)
  | countLoop offset count body =>
      exact ite (machineLoop h0 env h.1 h.2.1 (stmts h0 env h.2.2))
        (countLoop h0 env h.1 h.2.1 (stmts h0 env h.2.2))
  | leave offset =>
      refine get.bind fun e => ?_
      split
      · exact jump _ _
      · exact fail _ h
  | again offset =>
      refine get.bind fun e => ?_
      split
      · exact jump _ _
      · exact fail _ h
  | ret offset value =>
      cases value with
      | none => exact (op _).bind fun _ => (pushed 1).bind fun _ => (op _).bind fun _ => popped 1
      | some v => exact (expr h0 env (h.2 v rfl)).bind fun _ => (op _).bind fun _ => popped 1
  | exit offset => exact op _
  | func offset name params body => exact fail _ h.1
  | call offset target =>
      exact (expr h0 env h.2).bind fun _ => (op _).bind fun _ => popped 1
  | assign offset target value => exact assignStmt h0 env h.2.1 h.2.2

theorem stmts (h0 : O 0) (env : EmitEnv) {ss : List Stmt} (h : Stmt.AllPlaced O ss) :
    Marks O (Emit.stmts env ss) := by
  cases ss with
  | nil => exact pure _
  | cons s rest => exact (stmt h0 env h.1).bind fun _ => stmts h0 env h.2

theorem branches (h0 : O 0) (env : EmitEnv) (done : Nat) {b : Branches} (h : Stmt.BranchesPlaced O b) :
    Marks O (Emit.branches env done b) := by
  cases b with
  | done => exact pure _
  | otherwise body => exact stmts h0 env h
  | elseIf test body rest =>
      obtain ⟨htest, hbody, hrest⟩ := h
      refine newLabel.bind fun next => (expr h0 env htest).bind fun _ => ?_
      refine (jump _ next).bind fun _ => (stmts h0 env hbody).bind fun _ => ?_
      exact (jump _ done).bind fun _ => (mark next).bind fun _ => branches h0 env done hrest

end

theorem script (h0 : O 0) (env : EmitEnv) (inputs : List InputVar) {s : Script}
    (h : Stmt.AllPlaced O s) : Marks O (Emit.script env inputs s) := by
  have hslots : Marks O (Emit.inputSlots inputs) := by
    induction inputs with
    | nil => exact pure _
    | cons v rest ih => exact (slot v.name h0).bind fun _ => ih
  exact hslots.bind fun _ => (stmts h0 env h).bind fun _ => op _

end Marks

end Emit

theorem Writer.offset_of_resolve_error {w : Writer} {patches : List (Nat × Nat)} {d : Diagnostic}
    (h : w.resolve patches = .error d) : d.offset = 0 := by
  induction patches generalizing w with
  | nil => cases h
  | cons patch rest ih =>
      unfold Writer.resolve at h
      split at h
      · cases h
        rfl
      · split at h
        · exact ih h
        · cases h
          rfl

namespace CompiledScript

theorem offset_of_inputTable_error {slots : List String} {inputs : List InputVar} {d : Diagnostic}
    (h : inputTable slots inputs = .error d) : d.offset = 0 := by
  induction inputs with
  | nil => cases h
  | cons v rest ih =>
      unfold inputTable at h
      split at h
      · rcases except_bind_error.mp h with h | ⟨table, -, h⟩
        · exact ih h
        · cases h
      · cases h
        rfl

variable {r : Registry} {options : CompileOptions} {source : String} {d : Diagnostic}

theorem placed_of_generate_error {O : Nat → Prop} {script : Script} {analysis : Analysis}
    (h0 : O 0) (hscript : Stmt.AllPlaced O script)
    (h : generate r options script analysis = .error d) : O d.offset := by
  have hmarks := Emit.Marks.script h0 ⟨r, analysis.symbols, options.level⟩ analysis.inputs hscript
  rcases except_bind_error.mp h with hemit | ⟨⟨_, e⟩, -, h⟩
  · exact (hmarks {} trivial).2 d hemit
  rcases except_bind_error.mp h with hfinish | ⟨code, -, h⟩
  · rw [Writer.offset_of_resolve_error hfinish]
    exact h0
  rcases except_bind_error.mp h with htable | ⟨inputs, -, h⟩
  · rw [offset_of_inputTable_error htable]
    exact h0
  · cases h

-- A problem that is found is in a place as `O` says, if all tokens and the end of the source are.
theorem placed_of_compile_error {O : Nat → Prop} {tokens : List Token} (h0 : O 0)
    (hscan : Token.scan source = .ok tokens) (htokens : ∀ t ∈ tokens, O t.offset)
    (hstop : O (Parser.stopOffset tokens)) (h : compile r options source = .error d) :
    O d.offset := by
  have hreads := Parser.Reads.script Parser.builds_placed ⟨fun _ h => h, hstop⟩ htokens
  have hread : Script.parse source = Script.ofTokens tokens := by
    unfold Script.parse
    rw [hscan]
    rfl
  cases hparse : Script.ofTokens tokens with
  | error d' =>
      simp only [compile, Script.analyze, hread, hparse, bind, Except.bind] at h
      cases h
      exact (hreads.2 d hparse).1
  | ok parsed =>
      have hfinds := Check.finds_script r options.imports (hreads.1 parsed hparse) {}
        (by simp [Check.Inside, TypeContext.kinds, TypeContext.initial])
      simp only [compile, Script.analyze, hread, hparse, bind, Except.bind, Script.check] at h
      cases hcheck : (Check.script r options.imports parsed).run {} with
      | error d' =>
          rw [hcheck] at h
          cases h
          exact hfinds.2 d hcheck
      | ok found =>
          rw [hcheck] at h
          exact placed_of_generate_error h0 (hfinds.1 found.1 found.2 hcheck).2 h

-- A problem lies in front of a character of the source or behind the last one. Only what is missing
-- at the end of the source may lie elsewhere, because that place is found from the last token's
-- lexeme, which may take more bytes than what is written. In a source with one byte for each
-- character it does not.
theorem offset_of_compile_error (h : compile r options source = .error d) :
    (Boundary source.toList d.offset ∨
      ∃ tokens t before span after, Token.scan source = .ok tokens ∧ tokens.getLast? = some t ∧
        source.toList = before ++ span ++ after ∧ t.Spells span ∧
        d.offset = byteCount before + byteCount t.lexeme.toList) ∧
    ((∀ c ∈ source.toList, c.utf8Size = 1) → Boundary source.toList d.offset) := by
  cases hscan : Token.scan source with
  | error d' =>
      simp only [compile, Script.analyze, Script.parse, hscan, bind, Except.bind] at h
      cases h
      have hplace := Token.boundary_of_scan_error hscan
      exact ⟨.inl hplace, fun _ => hplace⟩
  | ok tokens =>
      have hplace := placed_of_compile_error
        (O := fun n => Boundary source.toList n ∨ n = Parser.stopOffset tokens)
        (.inl (Token.boundary_zero _)) hscan
        (fun t ht => .inl (Token.boundary_of_scan hscan t ht)) (.inr rfl) h
      rcases hplace with hplace | hstop
      · exact ⟨.inl hplace, fun _ => hplace⟩
      cases hlast : tokens.getLast? with
      | none =>
          have hzero : d.offset = 0 := by rw [hstop, Parser.stopOffset, hlast]; rfl
          rw [hzero]
          exact ⟨.inl (Token.boundary_zero _), fun _ => Token.boundary_zero _⟩
      | some t =>
          have ht : t ∈ tokens := List.mem_of_getLast? hlast
          obtain ⟨before, span, after, hsource, hoffset, hspells⟩ :=
            Token.exists_span_of_scan hscan t ht
          have hplace : d.offset = byteCount before + byteCount t.lexeme.toList := by
            rw [hstop, Parser.stopOffset, hlast, Token.byteCount_toList, ← hoffset]
            rfl
          refine ⟨.inr ⟨tokens, t, before, span, after, rfl, hlast, hsource, hspells, hplace⟩,
            fun hnarrow => Token.boundary_of_le hnarrow ?_⟩
          have hsize : t.lexeme.utf8ByteSize ≤ byteCount span := by
            refine hspells.size_le (Token.emits_slim.of_scan hscan t ht) fun c hc => hnarrow c ?_
            rw [hsource]
            simp [hc]
          rw [hplace, Token.byteCount_toList, hsource, Token.byteCount_append,
            Token.byteCount_append]
          omega

-- Two bytes that are three in lower case.
def unclosed : String := "print [Ⱥ"

theorem unclosed_offset : ∃ d, compile .empty {} unclosed = .error d ∧
    d.offset = 10 ∧ byteCount unclosed.toList = 9 ∧ ¬Boundary unclosed.toList d.offset ∧
    (Boundary unclosed.toList d.offset ∨
      ∃ tokens t before span after, Token.scan unclosed = .ok tokens ∧ tokens.getLast? = some t ∧
        unclosed.toList = before ++ span ++ after ∧ t.Spells span ∧
        d.offset = byteCount before + byteCount t.lexeme.toList) := by
  have hfails : ((compile .empty {} unclosed).mapError (·.offset)).map (fun _ => ()) = .error 10 := by
    decide +kernel
  have hbytes : byteCount unclosed.toList = 9 := by decide +kernel
  cases hcompile : compile .empty {} unclosed with
  | ok code =>
      rw [hcompile] at hfails
      cases hfails
  | error d =>
      rw [hcompile] at hfails
      have hoffset : d.offset = 10 := Except.error.inj hfails
      refine ⟨d, rfl, hoffset, hbytes, fun h => ?_, (offset_of_compile_error hcompile).1⟩
      have hle := h.le
      omega

end CompiledScript

end HostScript
