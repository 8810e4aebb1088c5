import HostScript.Compile.Basic
import HostScript.Proofs.Host.Built
import HostScript.Proofs.Script.Names
import HostScript.Proofs.Stateful

namespace HostScript

namespace Registry

-- What a checked script refers to by its number is there, and takes as many arguments as it is
-- given.
def TakesMethod (r : Registry) (id count : Nat) : Prop :=
  id < room ∧ ∃ d, r.methods[id]? = some d ∧ d.params.length = count

def TakesNew (r : Registry) (id count : Nat) : Prop :=
  id < room ∧ ∃ d, r.constructors[id]? = some d ∧ d.params.length = count

def HasProperty (r : Registry) (id : Nat) : Prop :=
  id < room ∧ ∃ d, r.properties[id]? = some d

end Registry

def StaticBinding.Linked (r : Registry) (count : Nat) : StaticBinding → Prop
  | .method id => r.TakesMethod id count
  | .property id => r.HasProperty id
  | _ => True

def MemberBinding.Linked (r : Registry) (count : Nat) : MemberBinding → Prop
  | .method id => r.TakesMethod id count
  | .property id => r.HasProperty id
  | _ => True

def Iteration.Linked (r : Registry) : Iteration → Prop
  | .members count getItem => r.HasProperty count ∧ r.TakesMethod getItem 1
  | _ => True

namespace Expr

mutual

-- Every member in the expression is there.
def Linked (r : Registry) : Expr → Prop
  | .name _ _ | .literal _ _ => True
  | .static _ _ args binding => binding.Linked r args.length ∧ AllLinked r args
  | .member _ target _ args binding =>
    binding.Linked r args.length ∧ target.Linked r ∧ AllLinked r args
  | .new _ _ args binding => (∀ id, binding = some id → r.TakesNew id args.length) ∧ AllLinked r args
  | .binary _ _ lhs rhs => lhs.Linked r ∧ rhs.Linked r
  | .unary _ _ operand => operand.Linked r
  | .cast _ _ operand => operand.Linked r

def AllLinked (r : Registry) : List Expr → Prop
  | [] => True
  | e :: rest => e.Linked r ∧ AllLinked r rest

end

-- A target of an assignment is not evaluated, only what it belongs to.
def TargetLinked (r : Registry) : Expr → Prop
  | .static _ _ args binding => binding.Linked r args.length
  | .member _ owner _ args binding => binding.Linked r args.length ∧ owner.Linked r
  | _ => True

end Expr

def Change.Linked (r : Registry) : Change → Prop
  | .compound _ value => value.Linked r
  | .increment | .decrement => True

def VarStmt.Linked (r : Registry) : VarStmt → Prop
  | .declare _ _ value => value.Linked r
  | .update _ _ change _ _ => change.Linked r

namespace Stmt

mutual

def Linked (r : Registry) : Stmt → Prop
  | .using _ _ | .input _ _ _ _ | .leave _ | .again _ | .exit _ => True
  | .var stmt => stmt.Linked r
  | .cond _ test body rest => test.Linked r ∧ AllLinked r body ∧ BranchesLinked r rest
  | .whileLoop _ test body => test.Linked r ∧ AllLinked r body
  | .forLoop _ init test step body =>
    init.Linked r ∧ test.Linked r ∧ step.Linked r ∧ AllLinked r body
  | .eachLoop _ _ source body how => how.Linked r ∧ source.Linked r ∧ AllLinked r body
  | .countLoop _ count body => count.Linked r ∧ AllLinked r body
  | .ret _ value => ∀ e, value = some e → e.Linked r
  | .func _ _ _ body => AllLinked r body
  | .call _ target => target.Linked r
  | .assign _ target value => target.TargetLinked r ∧ value.Linked r

def AllLinked (r : Registry) : List Stmt → Prop
  | [] => True
  | s :: rest => s.Linked r ∧ AllLinked r rest

def BranchesLinked (r : Registry) : Branches → Prop
  | .done => True
  | .otherwise body => AllLinked r body
  | .elseIf test body rest => test.Linked r ∧ AllLinked r body ∧ BranchesLinked r rest

end

theorem AllLinked.of_append {r : Registry} {first rest : List Stmt} (h : AllLinked r (first ++ rest)) :
    AllLinked r first := by
  induction first with
  | nil => trivial
  | cons s first ih => exact ⟨h.1, ih h.2⟩

mutual

-- How deeply the counted loops of a statement are nested.
def nest : Stmt → Nat
  | .countLoop _ _ body => nestAll body + 1
  | .cond _ _ body rest => max (nestAll body) (nestBranches rest)
  | .whileLoop _ _ body | .forLoop _ _ _ _ body | .eachLoop _ _ _ body _ | .func _ _ _ body =>
    nestAll body
  | _ => 0

def nestAll : List Stmt → Nat
  | [] => 0
  | s :: rest => max s.nest (nestAll rest)

def nestBranches : Branches → Nat
  | .done => 0
  | .otherwise body => nestAll body
  | .elseIf _ body rest => max (nestAll body) (nestBranches rest)

end

end Stmt

namespace Registry.Numbered

variable {r : Registry}

theorem takesMethod (h : r.Numbered) {d : MethodDef} (hd : d ∈ r.methods.toList) :
    r.TakesMethod d.id d.params.length :=
  ⟨(h.methods.find hd).2, d, (h.methods.find hd).1, rfl⟩

theorem takesNew (h : r.Numbered) {d : ConstructorDef} (hd : d ∈ r.constructors.toList) :
    r.TakesNew d.id d.params.length :=
  ⟨(h.constructors.find hd).2, d, (h.constructors.find hd).1, rfl⟩

theorem hasProperty (h : r.Numbered) {d : PropertyDef} (hd : d ∈ r.properties.toList) :
    r.HasProperty d.id :=
  ⟨(h.properties.find hd).2, d, (h.properties.find hd).1⟩

end Registry.Numbered

namespace Check

-- Checking of a part of a script, with inputs that have plain names.
def Yields {α : Type} (Q : α → Prop) (x : Check α) : Prop :=
  Ensures (fun c : Checker => ∀ v ∈ c.inputs, PlainName v.name) Q x

namespace Yields

variable {α β : Type} {Q : α → Prop} {R : β → Prop} {r : Registry}

theorem pure {a : α} (h : Q a) : Yields Q (Pure.pure a : Check α) :=
  Ensures.pure h

theorem fail (problem : Diagnostic.Problem) (offset : Nat) :
    Yields Q (Check.fail problem offset : Check α) :=
  Ensures.throw _

theorem bind {x : Check α} {f : α → Check β} (hx : Yields Q x) (hf : ∀ a, Q a → Yields R (f a)) :
    Yields R (x >>= f) :=
  Ensures.bind hx hf

-- What is done first gives nothing that matters later.
theorem seq {x : Check α} {f : α → Check β} (hx : Yields (fun _ => True) x)
    (hf : ∀ a, Yields R (f a)) : Yields R (x >>= f) :=
  hx.bind fun a _ => hf a

-- What would follow a problem is not checked any more.
theorem refuse (problem : Diagnostic.Problem) (offset : Nat) {f : α → Check β} :
    Yields R (Check.fail problem offset >>= f) :=
  (fail (Q := fun _ => False) _ _).bind fun _ h => h.elim

theorem ite {c : Prop} [Decidable c] {x y : Check α} (hx : c → Yields Q x) (hy : ¬c → Yields Q y) :
    Yields Q (if c then x else y) := by
  split
  · rename_i h
    exact hx h
  · rename_i h
    exact hy h

theorem get : Yields (fun _ => True) (MonadState.get : Check Checker) :=
  Ensures.get.imp fun _ _ => trivial

-- Only declarations of inputs change them.
theorem change {f : Checker → Checker} (h : ∀ c, (f c).inputs = c.inputs) :
    Yields (fun _ => True) (modify f : Check Unit) :=
  Ensures.change fun c hc => by rwa [h c]

theorem lookup (name : String) : Yields (fun _ => True) (Check.lookup name) :=
  get.seq fun _ => pure trivial

theorem write (name : String) (ty : Ty) (offset : Nat) :
    Yields (fun _ => True) (Check.write name ty offset) :=
  change fun _ => rfl

theorem use (name : String) (offset : Nat) : Yields (fun _ => True) (Check.use name offset) :=
  change fun _ => rfl

theorem pushFrame (kind : FrameKind) : Yields (fun _ => True) (Check.pushFrame kind) :=
  change fun _ => rfl

theorem popFrame : Yields (fun _ => True) Check.popFrame :=
  change fun _ => rfl

theorem enterLoop : Yields (fun _ => True) Check.enterLoop :=
  change fun _ => rfl

theorem takeWrites : Yields (fun _ => True) Check.takeWrites :=
  Ensures.bind Ensures.get fun _ hc => Ensures.bind (Ensures.set hc) fun _ _ => Ensures.pure trivial

theorem addImport (ns : String) : Yields (fun _ => True) (Check.addImport ns) := by
  refine change fun c => ?_
  dsimp only
  split
  · rfl
  · rfl

theorem resolveType (r : Registry) (name : String) (offset : Nat) :
    Yields (fun _ => True) (Check.resolveType r name offset) := by
  refine get.seq fun c => ?_
  split
  · exact pure trivial
  · exact fail _ _
  · exact fail _ _

theorem checkArgsFrom (r : Registry) (name : String) (index : Nat) (params : List Ty)
    (args : List Expr) : Yields (fun _ => True) (Check.checkArgsFrom r name index params args) := by
  induction params generalizing index args with
  | nil => exact pure trivial
  | cons param params ih =>
      cases args with
      | nil => exact pure trivial
      | cons arg args =>
          unfold Check.checkArgsFrom
          exact ite (fun _ => refuse _ _) fun _ => ih (index + 1) args

theorem checkArgs (r : Registry) (name : String) (params : List Ty) (args : List Expr)
    (offset : Nat) :
    Yields (fun _ => params.length = args.length) (Check.checkArgs r name params args offset) := by
  unfold Check.checkArgs
  refine ite (fun _ => refuse _ _) fun hcount => ?_
  intro c a c' hc hrun
  exact ⟨(checkArgsFrom r name 1 params args c a c' hc hrun).1, not_not.mp hcount⟩

theorem settleProperty (p : PropertyDef) (name : String) (args : List Expr) (offset : Nat)
    (assigned : Bool) :
    Yields (fun _ => True) (Check.settleProperty p name args offset assigned) := by
  unfold Check.settleProperty
  refine ite (fun _ => refuse _ _) fun _ => ?_
  exact ite (fun _ => fail _ _) fun _ => pure trivial

theorem resolveStatic (hr : r.Numbered) (name : String) (args : List Expr) (offset : Nat)
    (assigned : Bool) :
    Yields (fun found : StaticBinding × Ty => found.1.Linked r args.length)
      (Check.resolveStatic r name args offset assigned) := by
  refine get.seq fun c => ?_
  refine ite (fun _ => refuse _ _) fun _ => ?_
  refine ite (fun _ => refuse _ _) fun _ => ?_
  have hmethods : ∀ d ∈ (staticCandidates r c.imports name).methods, d ∈ r.methods.toList := by
    intro d hd
    obtain ⟨ns, -, hmem⟩ := List.mem_flatMap.mp hd
    exact (List.mem_filter.mp hmem).1
  have hproperties : ∀ d ∈ (staticCandidates r c.imports name).properties,
      d ∈ r.properties.toList := by
    intro d hd
    obtain ⟨ns, -, hmem⟩ := List.mem_flatMap.mp hd
    exact (List.mem_filter.mp hmem).1
  split
  · rename_i d _ hfound
    refine (checkArgs r name d.params args offset).bind fun _ hcount => pure ?_
    have hd := hr.takesMethod (hmethods d (by simp [hfound]))
    rwa [hcount] at hd
  · rename_i d _ _ hfound
    exact (settleProperty d name args offset assigned).seq fun _ =>
      pure (hr.hasProperty (hproperties d (by simp [hfound])))
  · exact ite (fun _ => refuse _ _) fun _ => pure trivial
  · exact fail _ _

theorem resolveMember (hr : r.Numbered) (target : Ty) (name : String) (args : List Expr)
    (offset : Nat) (assigned : Bool) :
    Yields (fun found : MemberBinding × Ty => found.1.Linked r args.length)
      (Check.resolveMember r target name args offset assigned) := by
  unfold Check.resolveMember
  split
  · exact pure trivial
  · rename_i id
    split
    · exact fail _ _
    · rename_i d hfound _
      refine (checkArgs r name d.params args offset).bind fun _ hcount => pure ?_
      have hmem : d ∈ r.instanceMethods id name := by simp [hfound]
      have hd := hr.takesMethod (List.mem_filter.mp hmem).1
      rwa [hcount] at hd
    · rename_i d _ hfound
      have hmem : d ∈ r.instanceProperties id name := by simp [hfound]
      exact (settleProperty d name args offset assigned).seq fun _ =>
        pure (hr.hasProperty (List.mem_filter.mp hmem).1)
    · exact fail _ _
  · exact fail _ _

theorem resolveConstructor (hr : r.Numbered) (typeName : String) (args : List Expr)
    (offset : Nat) :
    Yields (fun found : Nat × Ty => r.TakesNew found.1 args.length)
      (Check.resolveConstructor r typeName args offset) := by
  refine (resolveType r typeName offset).seq fun ty => ?_
  split
  · rename_i id
    refine ite (fun _ => refuse _ _) fun _ => ?_
    dsimp only
    split
    · rename_i d hfound
      refine pure ?_
      have hmem : d ∈ ((r.constructorsOf id).filter (·.params.length = args.length)).filter
          fun d => (d.params.zip args).all fun pair => pair.1.accepts pair.2.ty := by
        simp [hfound]
      obtain ⟨hmem, -⟩ := List.mem_filter.mp hmem
      obtain ⟨hmem, hcount⟩ := List.mem_filter.mp hmem
      have hd := hr.takesNew (List.mem_filter.mp hmem).1
      rwa [of_decide_eq_true hcount] at hd
    · exact fail _ _
    · exact fail _ _
  · exact fail _ _

theorem resolveName (hr : r.Numbered) (name : String) (offset : Nat) :
    Yields (fun e => e.Plain ∧ e.Linked r) (Check.resolveName r name offset) := by
  refine get.seq fun c => ?_
  refine ite (fun _ => refuse _ _) fun _ => ?_
  exact (resolveStatic hr name [] offset false).bind fun found hfound =>
    pure ⟨trivial, hfound, trivial⟩

mutual

theorem expr (hr : r.Numbered) (e : Expr) (he : e.Plain) :
    Yields (fun e => e.Plain ∧ e.Linked r) (Check.expr r e) := by
  cases e with
  | literal m value => exact pure ⟨trivial, trivial⟩
  | name m name =>
      refine (lookup name).seq fun known => ?_
      split
      · exact (use _ _).seq fun _ => pure ⟨he, trivial⟩
      · exact resolveName hr name _
  | static m name args binding =>
      refine (exprs hr args he).bind fun args hargs => ?_
      exact (resolveStatic hr name args m.offset false).bind fun found hfound =>
        pure ⟨hargs.1, hfound, hargs.2⟩
  | member m target name args binding =>
      refine (expr hr target he.1).bind fun target htarget =>
        (exprs hr args he.2).bind fun args hargs => ?_
      exact (resolveMember hr target.ty name args m.offset false).bind fun found hfound =>
        pure ⟨⟨htarget.1, hargs.1⟩, hfound, htarget.2, hargs.2⟩
  | new m typeName args binding =>
      refine (exprs hr args he).bind fun args hargs => ?_
      refine (resolveConstructor hr typeName args m.offset).bind fun found hfound =>
        pure ⟨hargs.1, fun id hid => ?_, hargs.2⟩
      cases hid
      exact hfound
  | binary m op lhs rhs =>
      refine (expr hr lhs he.1).bind fun lhs hlhs => (expr hr rhs he.2).bind fun rhs hrhs => ?_
      split
      · exact pure ⟨⟨hlhs.1, hrhs.1⟩, hlhs.2, hrhs.2⟩
      · exact fail _ _
  | unary m op operand =>
      refine (expr hr operand he).bind fun operand hoperand => ?_
      split
      · exact pure hoperand
      · exact fail _ _
  | cast m typeName operand => exact fail _ _

theorem exprs (hr : r.Numbered) (es : List Expr) (hes : Expr.AllPlain es) :
    Yields (fun es => Expr.AllPlain es ∧ Expr.AllLinked r es) (Check.exprs r es) := by
  cases es with
  | nil => exact pure ⟨trivial, trivial⟩
  | cons e rest =>
      exact (expr hr e hes.1).bind fun e he => (exprs hr rest hes.2).bind fun rest hrest =>
        pure ⟨⟨he.1, hrest.1⟩, he.2, hrest.2⟩

end

theorem condition (hr : r.Numbered) {test : Expr} (htest : test.Plain) :
    Yields (fun e => e.Plain ∧ e.Linked r) (Check.condition r test) := by
  refine (expr hr test htest).bind fun test htest => ?_
  exact ite (fun _ => refuse _ _) fun _ => pure htest

theorem changeOf (hr : r.Numbered) {how : Change} (hhow : how.Plain) :
    Yields (fun found : Change × Ty => found.1.Plain ∧ found.1.Linked r) (Check.change r how) := by
  cases how with
  | compound op value => exact (expr hr value hhow).bind fun value hvalue => pure hvalue
  | increment => exact pure ⟨trivial, trivial⟩
  | decrement => exact pure ⟨trivial, trivial⟩

theorem varStmt (hr : r.Numbered) {v : VarStmt} (hv : v.Plain) :
    Yields (fun v => v.Plain ∧ v.Linked r) (Check.varStmt r v) := by
  cases v with
  | declare offset name value =>
      refine (expr hr value hv.2).bind fun value hvalue => ?_
      refine ite (fun _ => refuse _ _) fun _ => ?_
      exact (write _ _ _).seq fun _ => pure ⟨⟨hv.1, hvalue.1⟩, hvalue.2⟩
  | update offset name how current result =>
      refine (lookup name).seq fun known => ?_
      split
      · exact fail _ _
      · refine (changeOf hr hv.2).bind fun found hfound => ?_
        dsimp only
        split
        · exact fail _ _
        · exact (write _ _ _).seq fun _ => pure ⟨⟨hv.1, hfound.1⟩, hfound.2⟩

theorem iteration (hr : r.Numbered) (source : Expr) :
    Yields (fun found : Iteration × Ty => found.1.Linked r) (Check.iteration r source) := by
  unfold Check.iteration
  split
  · exact pure trivial
  · rename_i id
    split
    · rename_i it hit
      obtain ⟨t, ht, hmembers⟩ := Option.bind_eq_some_iff.mp hit
      obtain ⟨⟨p, hp, hcount, -⟩, d, hd, hitem, hone⟩ :=
        hr.iteration t (Array.mem_toList_iff.mpr (Array.mem_of_getElem? ht)) it hmembers
      have hprop := hr.hasProperty hp
      have hmethod := hr.takesMethod hd
      rw [hcount] at hprop
      rw [hitem, hone] at hmethod
      exact pure ⟨hprop, hmethod⟩
    · exact fail _ _
  · exact fail _ _

-- Whether the part is checked once or twice, the answer is one of its own.
theorem loop {pass : Check α} (h : Yields Q pass) : Yields Q (Check.loop pass) := by
  refine get.seq fun c => enterLoop.seq fun _ => h.bind fun first hfirst =>
    takeWrites.seq fun writes => ?_
  refine ite (fun _ => popFrame.seq fun _ => pure hfirst) fun _ => ?_
  refine seq ?_ fun _ => enterLoop.seq fun _ => seq ?_ fun _ => h.bind fun second hsecond =>
    takeWrites.seq fun _ => popFrame.seq fun _ => pure hsecond
  · exact change fun _ => rfl
  · exact change fun _ => rfl

theorem assignedProperty (r : Registry) (id : Nat) (name : String) (value : Expr) (offset : Nat) :
    Yields (fun _ => True) (Check.assignedProperty r id name value offset) := by
  unfold Check.assignedProperty
  split
  · exact fail _ _
  · exact ite (fun _ => fail _ _) fun _ => pure trivial

theorem assignStatic (hr : r.Numbered) (mark : Mark) (name : String) (args : List Expr)
    (hargs : Expr.AllPlain args) (value : Expr) :
    Yields (fun e => e.Plain ∧ e.TargetLinked r) (Check.assignStatic r mark name args value) := by
  refine (resolveStatic hr name args mark.offset true).bind fun found hfound => ?_
  obtain ⟨binding, ty⟩ := found
  cases binding with
  | property id => exact (assignedProperty r id name value _).seq fun _ => pure ⟨hargs, hfound⟩
  | unresolved => exact refuse _ _
  | method id => exact refuse _ _
  | const value => exact refuse _ _

theorem assignTarget (hr : r.Numbered) {target : Expr} (htarget : target.Plain) (value : Expr)
    (offset : Nat) :
    Yields (fun e => e.Plain ∧ e.TargetLinked r) (Check.assignTarget r target value offset) := by
  cases target with
  | name m name => exact assignStatic hr m name [] trivial value
  | static m name args binding => exact assignStatic hr m name args htarget value
  | member m owner name args binding =>
      refine (expr hr owner htarget.1).bind fun owner howner => ?_
      refine (resolveMember hr owner.ty name args m.offset true).bind fun found hfound => ?_
      obtain ⟨binding, ty⟩ := found
      cases binding with
      | dynamic => exact pure ⟨⟨howner.1, htarget.2⟩, hfound, howner.2⟩
      | property id =>
          exact (assignedProperty r id name value _).seq fun _ =>
            pure ⟨⟨howner.1, htarget.2⟩, hfound, howner.2⟩
      | unresolved => exact refuse _ _
      | method id => exact refuse _ _
  | literal m value => exact fail _ _
  | new m typeName args binding => exact fail _ _
  | binary m op lhs rhs => exact fail _ _
  | unary m op operand => exact fail _ _
  | cast m typeName operand => exact fail _ _

theorem refuseVariable (target : Expr) (problem : String → Diagnostic.Problem) (offset : Nat) :
    Yields (fun _ => True) (Check.refuseVariable target problem offset) := by
  unfold Check.refuseVariable
  split
  · refine (lookup _).seq fun known => ?_
    exact ite (fun _ => fail _ _) fun _ => pure trivial
  · exact pure trivial

-- What a checked statement is like, and what it keeps of the statement it was made from.
structure Sound (r : Registry) (s s' : Stmt) : Prop where
  plain : s'.Plain
  linked : s'.Linked r
  nest : s'.nest = s.nest

structure AllSound (r : Registry) (ss ss' : List Stmt) : Prop where
  plain : Stmt.AllPlain ss'
  linked : Stmt.AllLinked r ss'
  nest : Stmt.nestAll ss' = Stmt.nestAll ss

structure BranchesSound (r : Registry) (b b' : Branches) : Prop where
  plain : Stmt.BranchesPlain b'
  linked : Stmt.BranchesLinked r b'
  nest : Stmt.nestBranches b' = Stmt.nestBranches b

theorem AllSound.nil : AllSound r [] [] :=
  ⟨trivial, trivial, rfl⟩

theorem AllSound.cons {s s' : Stmt} {rest rest' : List Stmt} (hs : Sound r s s')
    (hrest : AllSound r rest rest') : AllSound r (s :: rest) (s' :: rest') where
  plain := ⟨hs.plain, hrest.plain⟩
  linked := ⟨hs.linked, hrest.linked⟩
  nest := by simp only [Stmt.nestAll, hs.nest, hrest.nest]

mutual

theorem stmt (hr : r.Numbered) (s : Stmt) (hs : s.Plain) :
    Yields (Sound r s) (Check.stmt r s) := by
  cases s with
  | «using» offset ns => exact fail _ _
  | input offset name typeName declared => exact fail _ _
  | var v => exact (varStmt hr hs).bind fun v hv => pure ⟨hv.1, hv.2, rfl⟩
  | cond offset test body rest =>
      refine (condition hr hs.1).bind fun test htest => (pushFrame _).seq fun _ =>
        (stmts hr body hs.2.1).bind fun body hbody => popFrame.seq fun _ =>
          (branches hr rest hs.2.2).bind fun rest hrest => pure ?_
      exact ⟨⟨htest.1, hbody.plain, hrest.plain⟩, ⟨htest.2, hbody.linked, hrest.linked⟩,
        by simp only [Stmt.nest, hbody.nest, hrest.nest]⟩
  | whileLoop offset test body =>
      refine loop ((condition hr hs.1).bind fun test htest =>
        (stmts hr body hs.2).bind fun body hbody => pure ?_)
      exact ⟨⟨htest.1, hbody.plain⟩, ⟨htest.2, hbody.linked⟩, by simp only [Stmt.nest, hbody.nest]⟩
  | forLoop offset init test step body =>
      obtain ⟨hinit, htest, hstep, hbody⟩ := hs
      refine (varStmt hr hinit).bind fun init hinit => loop ((condition hr htest).bind
        fun test htest => (stmts hr body hbody).bind fun body hbody => (varStmt hr hstep).bind
          fun step hstep => pure ?_)
      exact ⟨⟨hinit.1, htest.1, hstep.1, hbody.plain⟩, ⟨hinit.2, htest.2, hstep.2, hbody.linked⟩,
        by simp only [Stmt.nest, hbody.nest]⟩
  | eachLoop offset item source body how =>
      refine (expr hr source hs.2.1).bind fun source hsource => (iteration hr source).bind
        fun found hfound => loop ((write _ _ _).seq fun _ => (stmts hr body hs.2.2).bind
          fun body hbody => pure ?_)
      exact ⟨⟨hs.1, hsource.1, hbody.plain⟩, ⟨hfound, hsource.2, hbody.linked⟩,
        by simp only [Stmt.nest, hbody.nest]⟩
  | countLoop offset count body =>
      refine (expr hr count hs.1).bind fun count hcount => ?_
      refine ite (fun _ => refuse _ _) fun _ => loop ((stmts hr body hs.2).bind
        fun body hbody => pure ?_)
      exact ⟨⟨hcount.1, hbody.plain⟩, ⟨hcount.2, hbody.linked⟩, by simp only [Stmt.nest, hbody.nest]⟩
  | leave offset =>
      refine get.seq fun c => ?_
      exact ite (fun _ => refuse _ _) fun _ => pure ⟨trivial, trivial, rfl⟩
  | again offset =>
      refine get.seq fun c => ?_
      exact ite (fun _ => refuse _ _) fun _ => pure ⟨trivial, trivial, rfl⟩
  | ret offset value =>
      cases value with
      | none => exact pure ⟨fun _ h => (by cases h), fun _ h => (by cases h), rfl⟩
      | some value =>
          refine (expr hr value (hs value rfl)).bind fun value hvalue => ?_
          refine ite (fun _ => refuse _ _) fun _ => pure ⟨fun _ h => ?_, fun _ h => ?_, rfl⟩
          · cases h
            exact hvalue.1
          · cases h
            exact hvalue.2
  | exit offset => exact pure ⟨trivial, trivial, rfl⟩
  | func offset name params body => exact fail _ _
  | call offset target =>
      exact (refuseVariable _ _ _).seq fun _ => (expr hr target hs).bind fun target htarget =>
        pure ⟨htarget.1, htarget.2, rfl⟩
  | assign offset target value =>
      exact (refuseVariable _ _ _).seq fun _ => (expr hr value hs.2).bind fun value hvalue =>
        (assignTarget hr hs.1 value offset).bind fun target htarget =>
          pure ⟨⟨htarget.1, hvalue.1⟩, ⟨htarget.2, hvalue.2⟩, rfl⟩

theorem stmts (hr : r.Numbered) (ss : List Stmt) (hss : Stmt.AllPlain ss) :
    Yields (AllSound r ss) (Check.stmts r ss) := by
  cases ss with
  | nil => exact pure .nil
  | cons s rest =>
      exact (stmt hr s hss.1).bind fun s hs => (stmts hr rest hss.2).bind fun rest hrest =>
        pure (.cons hs hrest)

theorem branches (hr : r.Numbered) (b : Branches) (hb : Stmt.BranchesPlain b) :
    Yields (BranchesSound r b) (Check.branches r b) := by
  cases b with
  | done => exact pure ⟨trivial, trivial, rfl⟩
  | otherwise body =>
      refine (pushFrame _).seq fun _ => (stmts hr body hb).bind fun body hbody =>
        popFrame.seq fun _ => pure ⟨hbody.plain, hbody.linked, ?_⟩
      simp only [Stmt.nestBranches, hbody.nest]
  | elseIf test body rest =>
      refine (condition hr hb.1).bind fun test htest => (pushFrame _).seq fun _ =>
        (stmts hr body hb.2.1).bind fun body hbody => popFrame.seq fun _ =>
          (branches hr rest hb.2.2).bind fun rest hrest => pure ?_
      exact ⟨⟨htest.1, hbody.plain, hrest.plain⟩, ⟨htest.2, hbody.linked, hrest.linked⟩,
        by simp only [Stmt.nestBranches, hbody.nest, hrest.nest]⟩

end

theorem inputStmt (r : Registry) (offset : Nat) {name : String} (hname : PlainName name)
    (typeName : Option String) :
    Yields (fun _ => True) (Check.inputStmt r offset name typeName) := by
  refine get.seq fun c => ?_
  refine ite (fun _ => refuse _ _) fun _ => ?_
  refine seq ?_ fun _ => get.seq fun c => ?_
  · exact change fun _ => rfl
  refine ite (fun _ => refuse _ _) fun _ => ?_
  have henter : ∀ ty, Yields (fun _ => True) (do
      modify fun c => { c with
        ctx := c.ctx.set name ty
        symbols := c.symbols.record name offset ty.mayBeRef true
        inputs := c.inputs ++ [⟨name, ty⟩] }
      return ty : Check Ty) := by
    intro ty
    refine seq (Ensures.change fun c hc v hv => ?_) fun _ => pure trivial
    rcases List.mem_append.mp hv with hv | hv
    · exact hc v hv
    · rw [List.mem_singleton.mp hv]
      exact hname
  cases typeName with
  | none => exact henter .dynamic
  | some t => exact (resolveType r t offset).seq henter

theorem usingStmt (r : Registry) (offset : Nat) (ns : String) :
    Yields (fun _ => True) (Check.usingStmt r offset ns) := by
  refine get.seq fun c => ?_
  refine ite (fun _ => refuse _ _) fun _ => ite (fun _ => refuse _ _) fun _ => ?_
  exact addImport ns

theorem topStmt (hr : r.Numbered) {s : Stmt} (hs : s.Plain) :
    Yields (Sound r s) (Check.topStmt r s) := by
  have hbody : Yields (Sound r s) (do
      modify fun c => { c with header := .body }
      Check.stmt r s) := by
    refine seq ?_ fun _ => stmt hr s hs
    exact change fun _ => rfl
  cases s with
  | «using» offset ns => exact (usingStmt r offset ns).seq fun _ => pure ⟨trivial, trivial, rfl⟩
  | input offset name typeName declared =>
      exact (inputStmt r offset hs typeName).seq fun _ => pure ⟨hs, trivial, rfl⟩
  | _ => exact hbody

theorem topStmts (hr : r.Numbered) (ss : List Stmt) (hss : Stmt.AllPlain ss) :
    Yields (AllSound r ss) (Check.topStmts r ss) := by
  induction ss with
  | nil => exact pure .nil
  | cons s rest ih =>
      exact (topStmt hr hss.1).bind fun s hs => (ih hss.2).bind fun rest hrest =>
        pure (.cons hs hrest)

theorem importAll (imports : List String) : Yields (fun _ => True) (Check.importAll imports) := by
  induction imports with
  | nil => exact pure trivial
  | cons ns rest ih => exact (addImport ns).seq fun _ => ih

end Yields

end Check

-- A checked script has plain names, refers to nothing that is not there, and nests its counted loops
-- like the script that was read.
theorem Script.sound_of_check {r : Registry} {imports : List String} {script checked : Script}
    {analysis : Analysis} (hr : r.Numbered) (hplain : Stmt.AllPlain script)
    (h : script.check r imports = .ok (checked, analysis)) :
    Check.Yields.AllSound r script checked ∧ ∀ v ∈ analysis.inputs, PlainName v.name := by
  unfold Script.check at h
  cases hrun : (Check.script r imports script).run {} with
  | error d =>
      rw [hrun] at h
      cases h
  | ok result =>
      rw [hrun] at h
      cases h
      have hall : Check.Yields (Check.Yields.AllSound r script) (Check.script r imports script) :=
        (Check.Yields.importAll imports).seq fun _ => Check.Yields.topStmts hr script hplain
      exact (hall _ _ _ (by simp) hrun).symm

end HostScript
