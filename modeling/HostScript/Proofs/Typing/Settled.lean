import HostScript.Compile.Basic
import HostScript.Proofs.Script.Every
import HostScript.Proofs.Stateful

namespace HostScript

namespace Expr

-- Every name was found, and nothing is left that no code can be made of.
def Resolved : Expr → Prop
  | .static _ _ _ binding => binding ≠ .unresolved
  | .member _ _ _ _ binding => binding ≠ .unresolved
  | .new _ _ _ binding => binding ≠ none
  | .cast _ _ _ => False
  | _ => True

-- What a value is assigned to: a property, or a member that is left to the run.
def Assigned : Expr → Prop
  | .static _ _ _ (.property _) => True
  | .member _ owner _ _ (.property _) | .member _ owner _ _ .dynamic => owner.Every Resolved
  | _ => False

end Expr

namespace Stmt

mutual

-- A statement as the checker leaves it.
def Settled : Stmt → Prop
  | .using _ _ | .input _ _ _ _ | .leave _ | .again _ | .exit _ => True
  | .var v => v.Every Expr.Resolved
  | .cond _ test body rest => test.Every Expr.Resolved ∧ AllSettled body ∧ BranchesSettled rest
  | .whileLoop _ test body => test.Every Expr.Resolved ∧ AllSettled body
  | .forLoop _ init test step body =>
    init.Every Expr.Resolved ∧ test.Every Expr.Resolved ∧ step.Every Expr.Resolved ∧ AllSettled body
  | .eachLoop _ _ source body how =>
    source.Every Expr.Resolved ∧ how ≠ .unresolved ∧ AllSettled body
  | .countLoop _ count body => count.Every Expr.Resolved ∧ AllSettled body
  | .ret _ value => ∀ e, value = some e → e.Every Expr.Resolved
  | .func _ _ _ _ => False
  | .call _ target => target.Every Expr.Resolved
  | .assign _ target value => target.Assigned ∧ value.Every Expr.Resolved

def AllSettled : List Stmt → Prop
  | [] => True
  | s :: rest => s.Settled ∧ AllSettled rest

def BranchesSettled : Branches → Prop
  | .done => True
  | .otherwise body => AllSettled body
  | .elseIf test body rest => test.Every Expr.Resolved ∧ AllSettled body ∧ BranchesSettled rest

end

theorem AllSettled.of_append {first rest : List Stmt} (h : AllSettled (first ++ rest)) :
    AllSettled first := by
  induction first with
  | nil => trivial
  | cons s first ih => exact ⟨h.1, ih h.2⟩

end Stmt

namespace TypeContext

variable {ctx : TypeContext}

-- The kinds of the blocks around a point of the script, innermost first.
def kinds (ctx : TypeContext) : List FrameKind :=
  ctx.frames.map (·.kind)

theorem inLoop_iff : ctx.inLoop = true ↔ FrameKind.loop ∈ ctx.kinds := by
  simp [inLoop, kinds]

@[simp] theorem kinds_push (kind : FrameKind) : (ctx.push kind).kinds = kind :: ctx.kinds :=
  rfl

@[simp] theorem kinds_set (name : String) (ty : Ty) : (ctx.set name ty).kinds = ctx.kinds := by
  unfold set
  split
  · rfl
  · rename_i hframes
    simp [kinds, hframes, Frame.set]

theorem kinds_merge (kind : FrameKind) (binding : String × Ty) :
    (merge kind ctx binding).kinds = ctx.kinds := by
  unfold merge
  split
  · split
    · rfl
    · exact kinds_set _ _
  · exact kinds_set _ _
  · exact kinds_set _ _

theorem kinds_foldl_merge (kind : FrameKind) (bindings : List (String × Ty)) :
    (bindings.foldl (merge kind) ctx).kinds = ctx.kinds := by
  induction bindings generalizing ctx with
  | nil => rfl
  | cons binding rest ih => rw [List.foldl_cons, ih, kinds_merge]

theorem kinds_foldl_set (names : List String) (ty : Ty) :
    (names.foldl (fun ctx name => ctx.set name ty) ctx).kinds = ctx.kinds := by
  induction names generalizing ctx with
  | nil => rfl
  | cons name rest ih => rw [List.foldl_cons, ih, kinds_set]

-- The outermost block is never left.
theorem kinds_pop {kind : FrameKind} {kinds : List FrameKind} (h : ctx.kinds = kind :: kinds)
    (hne : kinds ≠ []) : ctx.pop.kinds = kinds := by
  unfold pop
  split
  · rename_i f g rest hframes
    rw [kinds_foldl_merge]
    simp only [TypeContext.kinds, hframes, List.map_cons, List.cons.injEq] at h
    exact h.2
  · rename_i hshort
    unfold TypeContext.kinds at h
    match hframes : ctx.frames with
    | [] => simp [hframes] at h
    | [f] => simp [hframes, hne.symm] at h
    | f :: g :: rest => exact absurd hframes (hshort f g rest)

end TypeContext

namespace Check

variable {α β : Type} {k : List FrameKind} {Q : α → Prop} {R : β → Prop} {r : Registry}

-- Checking of a part of a script inside the given blocks.
def Settles (k : List FrameKind) (Q : α → Prop) (x : Check α) : Prop :=
  Ensures (fun c : Checker => c.ctx.kinds = k) Q x

namespace Settles

theorem pure {a : α} (h : Q a) : Settles k Q (Pure.pure a : Check α) :=
  Ensures.pure h

theorem fail (problem : Diagnostic.Problem) (offset : Nat) :
    Settles k Q (Check.fail problem offset : Check α) :=
  Ensures.throw _

theorem bind {x : Check α} {f : α → Check β} (hx : Settles k Q x)
    (hf : ∀ a, Q a → Settles k R (f a)) : Settles k R (x >>= f) :=
  Ensures.bind hx hf

theorem seq {x : Check α} {f : α → Check β} (hx : Settles k (fun _ => True) x)
    (hf : ∀ a, Settles k R (f a)) : Settles k R (x >>= f) :=
  hx.bind fun a _ => hf a

theorem refuse (problem : Diagnostic.Problem) (offset : Nat) {f : α → Check β} :
    Settles k R (Check.fail problem offset >>= f) :=
  (fail (Q := fun _ => False) _ _).bind fun _ h => h.elim

theorem ite {c : Prop} [Decidable c] {x y : Check α} (hx : c → Settles k Q x)
    (hy : ¬c → Settles k Q y) : Settles k Q (if c then x else y) := by
  by_cases h : c
  · rw [if_pos h]
    exact hx h
  · rw [if_neg h]
    exact hy h

theorem get : Settles k (fun c => c.ctx.kinds = k) (MonadState.get : Check Checker) :=
  Ensures.get

theorem change {f : Checker → Checker} (h : ∀ c, (f c).ctx.kinds = c.ctx.kinds) :
    Settles k (fun _ => True) (modify f : Check Unit) :=
  Ensures.change fun c hc => by rw [h c, hc]

theorem lookup (name : String) : Settles k (fun _ => True) (Check.lookup name) :=
  get.bind fun _ _ => pure trivial

theorem write (name : String) (ty : Ty) (offset : Nat) :
    Settles k (fun _ => True) (Check.write name ty offset) :=
  change fun _ => TypeContext.kinds_set name ty

theorem use (name : String) (offset : Nat) : Settles k (fun _ => True) (Check.use name offset) :=
  change fun _ => rfl

theorem takeWrites : Settles k (fun _ => True) Check.takeWrites :=
  Ensures.bind Ensures.get fun _ hc => Ensures.bind (Ensures.set hc) fun _ _ => Ensures.pure trivial

-- A block that is entered and left again.
theorem framed {kind : FrameKind} {x : Check α} {f : α → Check β} (hk : k ≠ [])
    (hx : Settles (kind :: k) Q x) (hf : ∀ a, Q a → Settles k R (f a)) :
    Settles k R (do
      Check.pushFrame kind
      let a ← x
      Check.popFrame
      f a) := by
  intro c b c' hc hrun
  obtain ⟨_, c₁, hpush, hrun⟩ := bind_ok.mp hrun
  cases modify_ok.mp hpush
  obtain ⟨a, c₂, hinner, hrun⟩ := bind_ok.mp hrun
  obtain ⟨_, c₃, hpop, hrun⟩ := bind_ok.mp hrun
  cases modify_ok.mp hpop
  obtain ⟨hc₂, ha⟩ := hx _ a c₂ (by simp [hc]) hinner
  exact hf a ha _ b c' (TypeContext.kinds_pop hc₂ hk) hrun

-- Whether the part is checked once or twice, it is checked inside a loop.
theorem loop {pass : Check α} (hk : k ≠ []) (h : Settles (.loop :: k) Q pass) :
    Settles k Q (Check.loop pass) := by
  intro c b c' hc hrun
  obtain ⟨_, _, hget, hrun⟩ := bind_ok.mp hrun
  cases get_ok.mp hget
  obtain ⟨_, _, henter, hrun⟩ := bind_ok.mp hrun
  cases modify_ok.mp henter
  obtain ⟨first, c₁, hpass, hrun⟩ := bind_ok.mp hrun
  obtain ⟨hc₁, hfirst⟩ := h _ first c₁ (by simp [hc]) hpass
  obtain ⟨writes, c₂, htake, hrun⟩ := bind_ok.mp hrun
  obtain ⟨hc₂, -⟩ := takeWrites _ writes c₂ hc₁ htake
  split at hrun
  · obtain ⟨_, _, hpop, hrun⟩ := bind_ok.mp hrun
    cases modify_ok.mp hpop
    cases pure_ok.mp hrun
    exact ⟨TypeContext.kinds_pop hc₂ hk, hfirst⟩
  · obtain ⟨_, _, hback, hrun⟩ := bind_ok.mp hrun
    cases modify_ok.mp hback
    obtain ⟨_, _, henter, hrun⟩ := bind_ok.mp hrun
    cases modify_ok.mp henter
    obtain ⟨_, _, hforget, hrun⟩ := bind_ok.mp hrun
    cases modify_ok.mp hforget
    obtain ⟨second, c₃, hpass, hrun⟩ := bind_ok.mp hrun
    obtain ⟨hc₃, hsecond⟩ := h _ second c₃ (by simp [TypeContext.kinds_foldl_set, hc]) hpass
    obtain ⟨_, c₄, htake, hrun⟩ := bind_ok.mp hrun
    obtain ⟨hc₄, -⟩ := takeWrites _ _ c₄ hc₃ htake
    obtain ⟨_, _, hpop, hrun⟩ := bind_ok.mp hrun
    cases modify_ok.mp hpop
    cases pure_ok.mp hrun
    exact ⟨TypeContext.kinds_pop hc₄ hk, hsecond⟩

theorem addImport (ns : String) : Settles k (fun _ => True) (Check.addImport ns) := by
  refine change fun c => ?_
  dsimp only
  split
  · rfl
  · rfl

theorem resolveType (r : Registry) (name : String) (offset : Nat) :
    Settles k (fun _ => True) (Check.resolveType r name offset) := by
  refine get.bind fun c _ => ?_
  split
  · exact pure trivial
  · exact fail _ _
  · exact fail _ _

theorem checkArgsFrom (r : Registry) (name : String) (index : Nat) (params : List Ty)
    (args : List Expr) :
    Settles k (fun _ => True) (Check.checkArgsFrom r name index params args) := by
  induction params generalizing index args with
  | nil => exact pure trivial
  | cons param params ih =>
      cases args with
      | nil => exact pure trivial
      | cons arg args =>
          unfold Check.checkArgsFrom
          exact ite (fun _ => refuse _ _) fun _ => ih (index + 1) args

theorem checkArgs (r : Registry) (name : String) (params : List Ty) (args : List Expr)
    (offset : Nat) : Settles k (fun _ => True) (Check.checkArgs r name params args offset) := by
  unfold Check.checkArgs
  exact ite (fun _ => refuse _ _) fun _ => checkArgsFrom r name 1 params args

theorem settleProperty (p : PropertyDef) (name : String) (args : List Expr) (offset : Nat)
    (assigned : Bool) :
    Settles k (fun _ => True) (Check.settleProperty p name args offset assigned) := by
  unfold Check.settleProperty
  refine ite (fun _ => refuse _ _) fun _ => ?_
  exact ite (fun _ => fail _ _) fun _ => pure trivial

theorem resolveStatic (r : Registry) (name : String) (args : List Expr) (offset : Nat)
    (assigned : Bool) :
    Settles k (fun found : StaticBinding × Ty => found.1 ≠ .unresolved)
      (Check.resolveStatic r name args offset assigned) := by
  refine get.bind fun c _ => ?_
  refine ite (fun _ => refuse _ _) fun _ => ?_
  refine ite (fun _ => refuse _ _) fun _ => ?_
  split
  · exact (checkArgs r name _ args offset).seq fun _ => pure nofun
  · exact (settleProperty _ name args offset assigned).seq fun _ => pure nofun
  · exact ite (fun _ => refuse _ _) fun _ => pure nofun
  · exact fail _ _

theorem resolveMember (r : Registry) (target : Ty) (name : String) (args : List Expr)
    (offset : Nat) (assigned : Bool) :
    Settles k (fun found : MemberBinding × Ty => found.1 ≠ .unresolved)
      (Check.resolveMember r target name args offset assigned) := by
  unfold Check.resolveMember
  split
  · exact pure nofun
  · split
    · exact fail _ _
    · exact (checkArgs r name _ args offset).seq fun _ => pure nofun
    · exact (settleProperty _ name args offset assigned).seq fun _ => pure nofun
    · exact fail _ _
  · exact fail _ _

theorem resolveConstructor (r : Registry) (typeName : String) (args : List Expr) (offset : Nat) :
    Settles k (fun _ => True) (Check.resolveConstructor r typeName args offset) := by
  refine (resolveType r typeName offset).seq fun ty => ?_
  split
  · refine ite (fun _ => refuse _ _) fun _ => ?_
    dsimp only
    split
    · exact pure trivial
    · exact fail _ _
    · exact fail _ _
  · exact fail _ _

theorem resolveName (r : Registry) (name : String) (offset : Nat) :
    Settles k (·.Every Expr.Resolved) (Check.resolveName r name offset) := by
  refine get.bind fun c _ => ?_
  refine ite (fun _ => refuse _ _) fun _ => ?_
  exact (resolveStatic r name [] offset false).bind fun found hfound => pure ⟨hfound, trivial⟩

mutual

theorem expr (r : Registry) (e : Expr) : Settles k (·.Every Expr.Resolved) (Check.expr r e) := by
  cases e with
  | literal m value => exact pure trivial
  | name m name =>
      refine (lookup name).seq fun known => ?_
      split
      · exact (use _ _).seq fun _ => pure trivial
      · exact resolveName r name _
  | static m name args binding =>
      refine (exprs r args).bind fun args hargs => ?_
      exact (resolveStatic r name args m.offset false).bind fun found hfound =>
        pure ⟨hfound, hargs⟩
  | member m target name args binding =>
      refine (expr r target).bind fun target htarget => (exprs r args).bind fun args hargs => ?_
      exact (resolveMember r target.ty name args m.offset false).bind fun found hfound =>
        pure ⟨hfound, htarget, hargs⟩
  | new m typeName args binding =>
      refine (exprs r args).bind fun args hargs => ?_
      exact (resolveConstructor r typeName args m.offset).seq fun found => pure ⟨nofun, hargs⟩
  | binary m op lhs rhs =>
      refine (expr r lhs).bind fun lhs hlhs => (expr r rhs).bind fun rhs hrhs => ?_
      split
      · exact pure ⟨trivial, hlhs, hrhs⟩
      · exact fail _ _
  | unary m op operand =>
      refine (expr r operand).bind fun operand hoperand => ?_
      split
      · exact pure ⟨trivial, hoperand⟩
      · exact fail _ _
  | cast m typeName operand => exact fail _ _

theorem exprs (r : Registry) (es : List Expr) :
    Settles k (Expr.EveryOne Expr.Resolved) (Check.exprs r es) := by
  cases es with
  | nil => exact pure trivial
  | cons e rest =>
      exact (expr r e).bind fun e he => (exprs r rest).bind fun rest hrest => pure ⟨he, hrest⟩

end

theorem condition (r : Registry) (test : Expr) :
    Settles k (·.Every Expr.Resolved) (Check.condition r test) := by
  refine (expr r test).bind fun test htest => ?_
  exact ite (fun _ => refuse _ _) fun _ => pure htest

theorem changeOf (r : Registry) (how : Change) :
    Settles k (fun found : Change × Ty => found.1.Every Expr.Resolved) (Check.change r how) := by
  cases how with
  | compound op value => exact (expr r value).bind fun value hvalue => pure hvalue
  | increment => exact pure trivial
  | decrement => exact pure trivial

theorem varStmt (r : Registry) (v : VarStmt) :
    Settles k (·.Every Expr.Resolved) (Check.varStmt r v) := by
  cases v with
  | declare offset name value =>
      refine (expr r value).bind fun value hvalue => ?_
      refine ite (fun _ => refuse _ _) fun _ => ?_
      exact (write _ _ _).seq fun _ => pure hvalue
  | update offset name how current result =>
      refine (lookup name).seq fun known => ?_
      split
      · exact fail _ _
      · refine (changeOf r how).bind fun found hfound => ?_
        dsimp only
        split
        · exact fail _ _
        · exact (write _ _ _).seq fun _ => pure hfound

theorem iteration (r : Registry) (source : Expr) :
    Settles k (fun found : Iteration × Ty => found.1 ≠ .unresolved) (Check.iteration r source) := by
  unfold Check.iteration
  split
  · exact pure nofun
  · split
    · exact pure nofun
    · exact fail _ _
  · exact fail _ _

theorem assignedProperty (r : Registry) (id : Nat) (name : String) (value : Expr) (offset : Nat) :
    Settles k (fun _ => True) (Check.assignedProperty r id name value offset) := by
  unfold Check.assignedProperty
  split
  · exact fail _ _
  · exact ite (fun _ => fail _ _) fun _ => pure trivial

theorem assignStatic (r : Registry) (mark : Mark) (name : String) (args : List Expr)
    (value : Expr) : Settles k Expr.Assigned (Check.assignStatic r mark name args value) := by
  refine (resolveStatic r name args mark.offset true).bind fun found _ => ?_
  obtain ⟨binding, ty⟩ := found
  cases binding with
  | property id => exact (assignedProperty r id name value _).seq fun _ => pure trivial
  | unresolved => exact refuse _ _
  | method id => exact refuse _ _
  | const value => exact refuse _ _

theorem assignTarget (r : Registry) (target value : Expr) (offset : Nat) :
    Settles k Expr.Assigned (Check.assignTarget r target value offset) := by
  cases target with
  | name m name => exact assignStatic r m name [] value
  | static m name args binding => exact assignStatic r m name args value
  | member m owner name args binding =>
      refine (expr r owner).bind fun owner howner => ?_
      refine (resolveMember r owner.ty name args m.offset true).bind fun found _ => ?_
      obtain ⟨binding, ty⟩ := found
      cases binding with
      | dynamic => exact pure howner
      | property id => exact (assignedProperty r id name value _).seq fun _ => pure howner
      | unresolved => exact refuse _ _
      | method id => exact refuse _ _
  | literal m value => exact fail _ _
  | new m typeName args binding => exact fail _ _
  | binary m op lhs rhs => exact fail _ _
  | unary m op operand => exact fail _ _
  | cast m typeName operand => exact fail _ _

theorem refuseVariable (target : Expr) (problem : String → Diagnostic.Problem) (offset : Nat) :
    Settles k (fun _ => True) (Check.refuseVariable target problem offset) := by
  unfold Check.refuseVariable
  split
  · refine (lookup _).seq fun known => ?_
    exact ite (fun _ => fail _ _) fun _ => pure trivial
  · exact pure trivial

-- Checked statements are settled, and only inside a loop do they leave it early.
def Fine (k : List FrameKind) (s : Stmt) : Prop :=
  s.Settled ∧ (Emit.escapes s = true → FrameKind.loop ∈ k)

def AllFine (k : List FrameKind) (ss : List Stmt) : Prop :=
  Stmt.AllSettled ss ∧ (Emit.anyEscapes ss = true → FrameKind.loop ∈ k)

def BranchesFine (k : List FrameKind) (b : Branches) : Prop :=
  Stmt.BranchesSettled b ∧ (Emit.branchesEscape b = true → FrameKind.loop ∈ k)

theorem AllFine.of_condition {ss : List Stmt} (h : AllFine (.condition :: k) ss) : AllFine k ss :=
  ⟨h.1, fun hescapes => by simpa using h.2 hescapes⟩

mutual

theorem stmt (r : Registry) {k : List FrameKind} (hk : k ≠ []) (s : Stmt) :
    Settles k (Fine k) (Check.stmt r s) := by
  cases s with
  | «using» offset ns => exact fail _ _
  | input offset name typeName declared => exact fail _ _
  | var v => exact (varStmt r v).bind fun v hv => pure ⟨hv, nofun⟩
  | cond offset test body rest =>
      refine (condition r test).bind fun test htest => ?_
      refine framed hk (stmts r (by simp) body) fun body hbody =>
        (branches r hk rest).bind fun rest hrest => pure ?_
      refine ⟨⟨htest, hbody.1, hrest.1⟩, fun hescapes => ?_⟩
      rcases Bool.or_eq_true_iff.mp hescapes with h | h
      · exact hbody.of_condition.2 h
      · exact hrest.2 h
  | whileLoop offset test body =>
      exact loop hk ((condition r test).bind fun test htest =>
        (stmts r (by simp) body).bind fun body hbody => pure ⟨⟨htest, hbody.1⟩, nofun⟩)
  | forLoop offset init test step body =>
      exact (varStmt r init).bind fun init hinit => loop hk ((condition r test).bind
        fun test htest => (stmts r (by simp) body).bind fun body hbody => (varStmt r step).bind
          fun step hstep => pure ⟨⟨hinit, htest, hstep, hbody.1⟩, nofun⟩)
  | eachLoop offset item source body how =>
      exact (expr r source).bind fun source hsource => (iteration r source).bind
        fun found hfound => loop hk ((write _ _ _).seq fun _ => (stmts r (by simp) body).bind
          fun body hbody => pure ⟨⟨hsource, hfound, hbody.1⟩, nofun⟩)
  | countLoop offset count body =>
      refine (expr r count).bind fun count hcount => ?_
      exact ite (fun _ => refuse _ _) fun _ => loop hk ((stmts r (by simp) body).bind
        fun body hbody => pure ⟨⟨hcount, hbody.1⟩, nofun⟩)
  | leave offset =>
      refine get.bind fun c hc => ite (fun _ => refuse _ _) fun hin => pure ⟨trivial, fun _ => ?_⟩
      rw [← hc]
      exact TypeContext.inLoop_iff.mp (by simpa using hin)
  | again offset =>
      refine get.bind fun c hc => ite (fun _ => refuse _ _) fun hin => pure ⟨trivial, fun _ => ?_⟩
      rw [← hc]
      exact TypeContext.inLoop_iff.mp (by simpa using hin)
  | ret offset value =>
      cases value with
      | none => exact pure ⟨nofun, nofun⟩
      | some value =>
          refine (expr r value).bind fun value hvalue => ?_
          refine ite (fun _ => refuse _ _) fun _ => pure ⟨fun _ h => ?_, nofun⟩
          cases h
          exact hvalue
  | exit offset => exact pure ⟨trivial, nofun⟩
  | func offset name params body => exact fail _ _
  | call offset target =>
      exact (refuseVariable _ _ _).seq fun _ => (expr r target).bind fun target htarget =>
        pure ⟨htarget, nofun⟩
  | assign offset target value =>
      exact (refuseVariable _ _ _).seq fun _ => (expr r value).bind fun value hvalue =>
        (assignTarget r target value offset).bind fun target htarget =>
          pure ⟨⟨htarget, hvalue⟩, nofun⟩

theorem stmts (r : Registry) {k : List FrameKind} (hk : k ≠ []) (ss : List Stmt) :
    Settles k (AllFine k) (Check.stmts r ss) := by
  cases ss with
  | nil => exact pure ⟨trivial, nofun⟩
  | cons s rest =>
      refine (stmt r hk s).bind fun s hs => (stmts r hk rest).bind fun rest hrest => pure ?_
      refine ⟨⟨hs.1, hrest.1⟩, fun hescapes => ?_⟩
      rcases Bool.or_eq_true_iff.mp hescapes with h | h
      · exact hs.2 h
      · exact hrest.2 h

theorem branches (r : Registry) {k : List FrameKind} (hk : k ≠ []) (b : Branches) :
    Settles k (BranchesFine k) (Check.branches r b) := by
  cases b with
  | done => exact pure ⟨trivial, nofun⟩
  | otherwise body =>
      exact framed hk (stmts r (by simp) body) fun body hbody => pure hbody.of_condition
  | elseIf test body rest =>
      refine (condition r test).bind fun test htest => ?_
      refine framed hk (stmts r (by simp) body) fun body hbody =>
        (branches r hk rest).bind fun rest hrest => pure ?_
      refine ⟨⟨htest, hbody.1, hrest.1⟩, fun hescapes => ?_⟩
      rcases Bool.or_eq_true_iff.mp hescapes with h | h
      · exact hbody.of_condition.2 h
      · exact hrest.2 h

end

theorem inputStmt (r : Registry) (offset : Nat) (name : String) (typeName : Option String) :
    Settles k (fun _ => True) (Check.inputStmt r offset name typeName) := by
  refine get.bind fun c _ => ite (fun _ => refuse _ _) fun _ => ?_
  refine seq (change fun _ => rfl) fun _ => get.bind fun c _ => ?_
  refine ite (fun _ => refuse _ _) fun _ => ?_
  have henter : ∀ ty, Settles k (fun _ => True) (do
      modify fun c => { c with
        ctx := c.ctx.set name ty
        symbols := c.symbols.record name offset ty.mayBeRef true
        inputs := c.inputs ++ [⟨name, ty⟩] }
      return ty : Check Ty) := fun ty =>
    seq (change fun _ => TypeContext.kinds_set name ty) fun _ => pure trivial
  cases typeName with
  | none => exact henter .dynamic
  | some t => exact (resolveType r t offset).seq henter

theorem usingStmt (r : Registry) (offset : Nat) (ns : String) :
    Settles k (fun _ => True) (Check.usingStmt r offset ns) := by
  refine get.bind fun c _ => ite (fun _ => refuse _ _) fun _ => ?_
  refine ite (fun _ => refuse _ _) fun _ => ?_
  exact addImport ns

theorem topStmt (r : Registry) (hk : k ≠ []) (s : Stmt) :
    Settles k (Fine k) (Check.topStmt r s) := by
  have hbody : Settles k (Fine k) (do
      modify fun c => { c with header := .body }
      Check.stmt r s) := seq (change fun _ => rfl) fun _ => stmt r hk s
  cases s with
  | «using» offset ns => exact (usingStmt r offset ns).seq fun _ => pure ⟨trivial, nofun⟩
  | input offset name typeName declared =>
      exact (inputStmt r offset name typeName).seq fun _ => pure ⟨trivial, nofun⟩
  | _ => exact hbody

theorem topStmts (r : Registry) (hk : k ≠ []) (ss : List Stmt) :
    Settles k (AllFine k) (Check.topStmts r ss) := by
  induction ss with
  | nil => exact pure ⟨trivial, nofun⟩
  | cons s rest ih =>
      refine (topStmt r hk s).bind fun s hs => ih.bind fun rest hrest => pure ?_
      refine ⟨⟨hs.1, hrest.1⟩, fun hescapes => ?_⟩
      rcases Bool.or_eq_true_iff.mp hescapes with h | h
      · exact hs.2 h
      · exact hrest.2 h

theorem importAll (imports : List String) :
    Settles k (fun _ => True) (Check.importAll imports) := by
  induction imports with
  | nil => exact pure trivial
  | cons ns rest ih => exact (addImport ns).seq fun _ => ih

end Settles

end Check

-- A checked script is settled, and outside of all loops nothing leaves a loop.
theorem Script.settled_of_check {r : Registry} {imports : List String} {script checked : Script}
    {analysis : Analysis} (h : script.check r imports = .ok (checked, analysis)) :
    Stmt.AllSettled checked ∧ Emit.anyEscapes checked = false := by
  unfold Script.check at h
  cases hrun : (Check.script r imports script).run {} with
  | error d =>
      rw [hrun] at h
      cases h
  | ok result =>
      rw [hrun] at h
      cases h
      have hall : Check.Settles [.global] (Check.Settles.AllFine [.global])
          (Check.script r imports script) :=
        (Check.Settles.importAll imports).seq fun _ => Check.Settles.topStmts r (by simp) script
      obtain ⟨-, hsettled, hescapes⟩ := hall _ _ _ rfl hrun
      exact ⟨hsettled, Bool.eq_false_iff.mpr fun h => by simpa using hescapes h⟩

end HostScript
