import HostScript.Compile.Basic
import HostScript.Host.Builder
import HostScript.Proofs.Stateful

namespace HostScript

-- Two checkers that differ in the order of their imports only.
structure Checker.Reordered (c d : Checker) : Prop where
  ctx : c.ctx = d.ctx
  symbols : c.symbols = d.symbols
  imports : c.imports.Perm d.imports
  inputs : c.inputs = d.inputs
  writes : c.writes = d.writes
  header : c.header = d.header

-- What a type name may mean does not depend on the order in which namespaces are searched.
theorem Registry.resolveType_perm {r : Registry} {imports imports' : List String}
    (h : imports.Perm imports') (name : String) :
    (r.resolveType imports name).Perm (r.resolveType imports' name) := by
  unfold resolveType
  split
  · exact .refl _
  · dsimp only
    split
    · exact .refl _
    · exact (h.flatMap_right _).map _

namespace Check

variable {α β : Type} {r : Registry}

namespace Candidates

-- The same candidates, in some order.
structure Reordered (found found' : Candidates) : Prop where
  methods : found.methods.Perm found'.methods
  properties : found.properties.Perm found'.properties
  consts : found.consts.Perm found'.consts

variable {found found' : Candidates}

theorem Reordered.count_eq (h : found.Reordered found') : found.count = found'.count := by
  simp only [count, h.methods.length_eq, h.properties.length_eq, h.consts.length_eq]

-- A single candidate is the same one on both sides.
theorem Reordered.eq (h : found.Reordered found') (hcount : found.count ≤ 1) : found = found' := by
  have hshort : ∀ {γ : Type} {xs ys : List γ}, xs.Perm ys → xs.length ≤ 1 → xs = ys := by
    intro γ xs ys hperm hlength
    match xs with
    | [] => exact hperm.nil_eq
    | [x] => exact (List.singleton_perm.mp hperm)
    | _ :: _ :: _ => simp at hlength
  unfold count at hcount
  obtain ⟨methods, properties, consts⟩ := found
  obtain ⟨methods', properties', consts'⟩ := found'
  dsimp only at hcount
  congr 1
  · exact hshort h.methods (by omega)
  · exact hshort h.properties (by omega)
  · exact hshort h.consts (by omega)

end Candidates

theorem staticCandidates_reordered {imports imports' : List String} (h : imports.Perm imports')
    (r : Registry) (name : String) :
    (staticCandidates r imports name).Reordered (staticCandidates r imports' name) := by
  unfold staticCandidates
  cases splitQualified name with
  | mk ns short =>
      cases ns with
      | some ns => exact ⟨.refl _, .refl _, .refl _⟩
      | none => exact ⟨h.flatMap_right _, h.flatMap_right _, h.flatMap_right _⟩

-- Two checks that go the same way: they find the same problem, or give the same answer and leave
-- their imports in different orders again.
def Alongside (x y : Check α) : Prop :=
  ∀ c d, c.Reordered d →
    (∃ a c' d', x c = .ok (a, c') ∧ y d = .ok (a, d') ∧ c'.Reordered d') ∨
    ∃ problem, x c = .error problem ∧ y d = .error problem

-- A check that does not depend on the order of the imports.
def Unordered (x : Check α) : Prop :=
  Alongside x x

theorem Alongside.bind {x y : Check α} {f g : α → Check β} (hx : Alongside x y)
    (hf : ∀ a, Alongside (f a) (g a)) : Alongside (x >>= f) (y >>= g) := by
  intro c d h
  simp only [Bind.bind, StateT.bind, Except.bind]
  rcases hx c d h with ⟨a, c', d', hc, hd, h'⟩ | ⟨problem, hc, hd⟩
  · simp only [hc, hd]
    exact hf a c' d' h'
  · simp only [hc, hd]
    exact .inr ⟨problem, rfl, rfl⟩

namespace Unordered

theorem pure (a : α) : Unordered (Pure.pure a : Check α) :=
  fun c d h => .inl ⟨a, c, d, rfl, rfl, h⟩

theorem fail (problem : Diagnostic.Problem) (offset : Nat) :
    Unordered (Check.fail problem offset : Check α) :=
  fun _ _ _ => .inr ⟨_, rfl, rfl⟩

theorem bind {x : Check α} {f : α → Check β} (hx : Unordered x) (hf : ∀ a, Unordered (f a)) :
    Unordered (x >>= f) :=
  Alongside.bind hx hf

theorem refuse (problem : Diagnostic.Problem) (offset : Nat) {f : α → Check β} :
    Unordered (Check.fail problem offset >>= f) :=
  fun _ _ _ => .inr ⟨_, rfl, rfl⟩

theorem ite {c : Prop} [Decidable c] {x y : Check α} (hx : Unordered x) (hy : Unordered y) :
    Unordered (if c then x else y) := by
  by_cases h : c
  · rw [if_pos h]
    exact hx
  · rw [if_neg h]
    exact hy

theorem change {f : Checker → Checker} (h : ∀ c d, c.Reordered d → (f c).Reordered (f d)) :
    Unordered (modify f : Check Unit) :=
  fun c d hcd => .inl ⟨(), f c, f d, rfl, rfl, h c d hcd⟩

-- What is read of the state need not be the same on both sides, but what follows has to be.
theorem get {f : Checker → Check β} (h : ∀ c d, c.Reordered d → Alongside (f c) (f d)) :
    Unordered (MonadState.get >>= f) :=
  fun c d hcd => h c d hcd c d hcd

theorem lookup (name : String) : Unordered (Check.lookup name) := by
  refine get fun c d h => ?_
  rw [h.ctx]
  exact pure _

theorem use (name : String) (offset : Nat) : Unordered (Check.use name offset) :=
  change fun _ _ h => { h with symbols := by rw [h.symbols] }

theorem write (name : String) (ty : Ty) (offset : Nat) : Unordered (Check.write name ty offset) :=
  change fun _ _ h => { h with
    ctx := by rw [h.ctx]
    symbols := by rw [h.symbols]
    writes := by rw [h.writes] }

theorem pushFrame (kind : FrameKind) : Unordered (Check.pushFrame kind) :=
  change fun _ _ h => { h with ctx := by rw [h.ctx] }

theorem popFrame : Unordered Check.popFrame :=
  change fun _ _ h => { h with ctx := by rw [h.ctx] }

theorem enterLoop : Unordered Check.enterLoop :=
  change fun _ _ h => { h with
    ctx := by rw [h.ctx]
    writes := by rw [h.writes] }

theorem takeWrites : Unordered Check.takeWrites := by
  intro c d h
  refine .inl ⟨c.writes.headD [], { c with writes := c.writes.tail },
    { d with writes := d.writes.tail }, rfl, ?_, { h with writes := by rw [h.writes] }⟩
  rw [h.writes]
  rfl

theorem loop {pass : Check α} (h : Unordered pass) : Unordered (Check.loop pass) := by
  refine get fun c d hcd => ?_
  rw [hcd.ctx]
  refine enterLoop.bind fun _ => h.bind fun first => takeWrites.bind fun writes => ?_
  refine ite (popFrame.bind fun _ => pure first) ?_
  refine bind (change fun _ _ h => { h with ctx := rfl }) fun _ => enterLoop.bind fun _ => ?_
  refine bind (change fun _ _ h => { h with ctx := by rw [h.ctx] }) fun _ => ?_
  exact h.bind fun second => takeWrites.bind fun _ => popFrame.bind fun _ => pure second

theorem resolveType (r : Registry) (name : String) (offset : Nat) :
    Unordered (Check.resolveType r name offset) := by
  refine get fun c d hcd => ?_
  have hperm := r.resolveType_perm hcd.imports name
  match hfound : r.resolveType c.imports name with
  | [] =>
      rw [hfound] at hperm
      rw [← hperm.nil_eq]
      exact fail _ _
  | [ty] =>
      rw [hfound] at hperm
      rw [← List.singleton_perm.mp hperm]
      exact pure ty
  | _ :: _ :: _ =>
      match hfound' : r.resolveType d.imports name with
      | _ :: _ :: _ => exact fail _ _
      | [ty] => simpa [hfound, hfound'] using hperm.length_eq
      | [] => simpa [hfound, hfound'] using hperm.length_eq

theorem checkArgsFrom (r : Registry) (name : String) (index : Nat) (params : List Ty)
    (args : List Expr) : Unordered (Check.checkArgsFrom r name index params args) := by
  induction params generalizing index args with
  | nil => exact pure ()
  | cons param params ih =>
      cases args with
      | nil => exact pure ()
      | cons arg args =>
          unfold Check.checkArgsFrom
          exact ite (refuse _ _) (ih (index + 1) args)

theorem checkArgs (r : Registry) (name : String) (params : List Ty) (args : List Expr)
    (offset : Nat) : Unordered (Check.checkArgs r name params args offset) := by
  unfold Check.checkArgs
  exact ite (refuse _ _) (checkArgsFrom r name 1 params args)

theorem settleProperty (p : PropertyDef) (name : String) (args : List Expr) (offset : Nat)
    (assigned : Bool) : Unordered (Check.settleProperty p name args offset assigned) := by
  unfold Check.settleProperty
  exact ite (refuse _ _) (ite (fail _ _) (pure ()))

-- Only a single candidate is accepted, so that none is preferred for its place.
theorem resolveStatic (r : Registry) (name : String) (args : List Expr) (offset : Nat)
    (assigned : Bool) : Unordered (Check.resolveStatic r name args offset assigned) := by
  refine get fun c d hcd => ?_
  have hfound := staticCandidates_reordered hcd.imports r name
  dsimp only
  by_cases hmany : (staticCandidates r c.imports name).count > 1
  · have hsome : (staticCandidates r c.imports name).count ≠ 0 := by omega
    simp only [← hfound.count_eq, if_neg hsome, if_pos hmany]
    exact (refuse _ _)
  · rw [← hfound.eq (by omega)]
    refine ite (refuse _ _) (ite (refuse _ _) ?_)
    split
    · exact (checkArgs r name _ args offset).bind fun _ => pure _
    · exact (settleProperty _ name args offset assigned).bind fun _ => pure _
    · exact ite (refuse _ _) (pure _)
    · exact fail _ _

theorem resolveMember (r : Registry) (target : Ty) (name : String) (args : List Expr)
    (offset : Nat) (assigned : Bool) :
    Unordered (Check.resolveMember r target name args offset assigned) := by
  unfold Check.resolveMember
  split
  · exact pure _
  · split
    · exact fail _ _
    · exact (checkArgs r name _ args offset).bind fun _ => pure _
    · exact (settleProperty _ name args offset assigned).bind fun _ => pure _
    · exact fail _ _
  · exact fail _ _

theorem resolveConstructor (r : Registry) (typeName : String) (args : List Expr) (offset : Nat) :
    Unordered (Check.resolveConstructor r typeName args offset) := by
  refine (resolveType r typeName offset).bind fun ty => ?_
  split
  · refine ite (refuse _ _) ?_
    dsimp only
    split
    · exact pure _
    · exact fail _ _
    · exact fail _ _
  · exact fail _ _

theorem resolveName (r : Registry) (name : String) (offset : Nat) :
    Unordered (Check.resolveName r name offset) := by
  refine get fun c d hcd => ?_
  rw [(staticCandidates_reordered hcd.imports r name).count_eq]
  refine ite (refuse _ _) ?_
  exact (resolveStatic r name [] offset false).bind fun found => pure _

mutual

theorem expr (r : Registry) (e : Expr) : Unordered (Check.expr r e) := by
  cases e with
  | literal m value => exact pure _
  | name m name =>
      refine (lookup name).bind fun known => ?_
      split
      · exact (use _ _).bind fun _ => pure _
      · exact resolveName r name _
  | static m name args binding =>
      refine (exprs r args).bind fun args => ?_
      exact (resolveStatic r name args m.offset false).bind fun found => pure _
  | member m target name args binding =>
      refine (expr r target).bind fun target => (exprs r args).bind fun args => ?_
      exact (resolveMember r target.ty name args m.offset false).bind fun found => pure _
  | new m typeName args binding =>
      refine (exprs r args).bind fun args => ?_
      exact (resolveConstructor r typeName args m.offset).bind fun found => pure _
  | binary m op lhs rhs =>
      refine (expr r lhs).bind fun lhs => (expr r rhs).bind fun rhs => ?_
      split
      · exact pure _
      · exact fail _ _
  | unary m op operand =>
      refine (expr r operand).bind fun operand => ?_
      split
      · exact pure _
      · exact fail _ _
  | cast m typeName operand => exact fail _ _

theorem exprs (r : Registry) (es : List Expr) : Unordered (Check.exprs r es) := by
  cases es with
  | nil => exact pure _
  | cons e rest => exact (expr r e).bind fun e => (exprs r rest).bind fun rest => pure _

end

theorem condition (r : Registry) (test : Expr) : Unordered (Check.condition r test) :=
  (expr r test).bind fun _ => ite (refuse _ _) (pure _)

theorem changeOf (r : Registry) (how : Change) : Unordered (Check.change r how) := by
  cases how with
  | compound op value => exact (expr r value).bind fun value => pure _
  | increment => exact pure _
  | decrement => exact pure _

theorem varStmt (r : Registry) (v : VarStmt) : Unordered (Check.varStmt r v) := by
  cases v with
  | declare offset name value =>
      refine (expr r value).bind fun value => ite (refuse _ _) ?_
      exact (write _ _ _).bind fun _ => pure _
  | update offset name how current result =>
      refine (lookup name).bind fun known => ?_
      split
      · exact fail _ _
      · refine (changeOf r how).bind fun found => ?_
        dsimp only
        split
        · exact fail _ _
        · exact (write _ _ _).bind fun _ => pure _

theorem iteration (r : Registry) (source : Expr) : Unordered (Check.iteration r source) := by
  unfold Check.iteration
  split
  · exact pure _
  · split
    · exact pure _
    · exact fail _ _
  · exact fail _ _

theorem assignedProperty (r : Registry) (id : Nat) (name : String) (value : Expr) (offset : Nat) :
    Unordered (Check.assignedProperty r id name value offset) := by
  unfold Check.assignedProperty
  split
  · exact fail _ _
  · exact ite (fail _ _) (pure ())

theorem assignStatic (r : Registry) (mark : Mark) (name : String) (args : List Expr)
    (value : Expr) : Unordered (Check.assignStatic r mark name args value) := by
  refine (resolveStatic r name args mark.offset true).bind fun found => ?_
  obtain ⟨binding, ty⟩ := found
  cases binding with
  | property id => exact (assignedProperty r id name value _).bind fun _ => pure _
  | _ => exact refuse _ _

theorem assignTarget (r : Registry) (target value : Expr) (offset : Nat) :
    Unordered (Check.assignTarget r target value offset) := by
  cases target with
  | name m name => exact assignStatic r m name [] value
  | static m name args binding => exact assignStatic r m name args value
  | member m owner name args binding =>
      refine (expr r owner).bind fun owner => ?_
      refine (resolveMember r owner.ty name args m.offset true).bind fun found => ?_
      obtain ⟨binding, ty⟩ := found
      cases binding with
      | dynamic => exact pure _
      | property id => exact (assignedProperty r id name value _).bind fun _ => pure _
      | _ => exact refuse _ _
  | _ => exact fail _ _

theorem refuseVariable (target : Expr) (problem : String → Diagnostic.Problem) (offset : Nat) :
    Unordered (Check.refuseVariable target problem offset) := by
  unfold Check.refuseVariable
  split
  · exact (lookup _).bind fun known => ite (fail _ _) (pure ())
  · exact pure ()

theorem insideLoop {offset : Nat} {problem : Diagnostic.Problem} {s : Stmt} :
    Unordered (do
      if !(← MonadState.get).ctx.inLoop then Check.fail problem offset
      return s : Check Stmt) := by
  refine get fun c d hcd => ?_
  rw [hcd.ctx]
  exact ite (refuse _ _) (pure s)

mutual

theorem stmt (r : Registry) (s : Stmt) : Unordered (Check.stmt r s) := by
  cases s with
  | «using» offset ns => exact fail _ _
  | input offset name typeName declared => exact fail _ _
  | var v => exact (varStmt r v).bind fun v => pure _
  | cond offset test body rest =>
      refine (condition r test).bind fun test => (pushFrame _).bind fun _ => ?_
      refine (stmts r body).bind fun body => popFrame.bind fun _ => ?_
      exact (branches r rest).bind fun rest => pure _
  | whileLoop offset test body =>
      exact loop ((condition r test).bind fun test => (stmts r body).bind fun body => pure _)
  | forLoop offset init test step body =>
      refine (varStmt r init).bind fun init => loop ((condition r test).bind fun test => ?_)
      exact (stmts r body).bind fun body => (varStmt r step).bind fun step => pure _
  | eachLoop offset item source body how =>
      refine (expr r source).bind fun source => (iteration r source).bind fun found => ?_
      exact loop ((write _ _ _).bind fun _ => (stmts r body).bind fun body => pure _)
  | countLoop offset count body =>
      refine (expr r count).bind fun count => ite (refuse _ _) ?_
      exact loop ((stmts r body).bind fun body => pure _)
  | leave offset => exact insideLoop
  | again offset => exact insideLoop
  | ret offset value =>
      cases value with
      | none => exact pure _
      | some value => exact (expr r value).bind fun value => ite (refuse _ _) (pure _)
  | exit offset => exact pure _
  | func offset name params body => exact fail _ _
  | call offset target =>
      exact (refuseVariable _ _ _).bind fun _ => (expr r target).bind fun target => pure _
  | assign offset target value =>
      refine (refuseVariable _ _ _).bind fun _ => (expr r value).bind fun value => ?_
      exact (assignTarget r target value offset).bind fun target => pure _

theorem stmts (r : Registry) (ss : List Stmt) : Unordered (Check.stmts r ss) := by
  cases ss with
  | nil => exact pure _
  | cons s rest => exact (stmt r s).bind fun s => (stmts r rest).bind fun rest => pure _

theorem branches (r : Registry) (b : Branches) : Unordered (Check.branches r b) := by
  cases b with
  | done => exact pure _
  | otherwise body =>
      refine (pushFrame _).bind fun _ => (stmts r body).bind fun body => ?_
      exact popFrame.bind fun _ => pure _
  | elseIf test body rest =>
      refine (condition r test).bind fun test => (pushFrame _).bind fun _ => ?_
      refine (stmts r body).bind fun body => popFrame.bind fun _ => ?_
      exact (branches r rest).bind fun rest => pure _

end

-- A namespace is imported on both sides or on neither.
theorem addImport (ns : String) : Unordered (Check.addImport ns) := by
  refine change fun c d h => ?_
  have hcontains : c.imports.contains (Text.lower ns) = d.imports.contains (Text.lower ns) := by
    simp only [List.contains_eq_mem, h.imports.mem_iff]
  dsimp only
  rw [hcontains]
  split
  · exact h
  · exact { h with imports := h.imports.append_right _ }

theorem usingStmt (r : Registry) (offset : Nat) (ns : String) :
    Unordered (Check.usingStmt r offset ns) := by
  refine get fun c d hcd => ?_
  rw [hcd.header]
  exact ite (refuse _ _) (ite (refuse _ _) (addImport ns))

theorem inputStmt (r : Registry) (offset : Nat) (name : String) (typeName : Option String) :
    Unordered (Check.inputStmt r offset name typeName) := by
  have henter : ∀ ty, Unordered (do
      modify fun c => { c with
        ctx := c.ctx.set name ty
        symbols := c.symbols.record name offset ty.mayBeRef true
        inputs := c.inputs ++ [⟨name, ty⟩] }
      return ty : Check Ty) := fun ty =>
    bind (change fun _ _ h => { h with
      ctx := by rw [h.ctx]
      symbols := by rw [h.symbols]
      inputs := by rw [h.inputs] }) fun _ => pure ty
  refine get fun c d hcd => ?_
  rw [hcd.header]
  refine ite (refuse _ _) ?_
  refine bind (change fun _ _ h => { h with header := rfl }) fun _ => get fun c d hcd => ?_
  rw [hcd.inputs]
  refine ite (refuse _ _) ?_
  cases typeName with
  | none => exact henter .dynamic
  | some t => exact (resolveType r t offset).bind henter

theorem topStmt (r : Registry) (s : Stmt) : Unordered (Check.topStmt r s) := by
  have hbody : Unordered (do
      modify fun c => { c with header := .body }
      Check.stmt r s) :=
    bind (change fun _ _ h => { h with header := rfl }) fun _ => stmt r s
  cases s with
  | «using» offset ns => exact (usingStmt r offset ns).bind fun _ => pure _
  | input offset name typeName declared =>
      exact (inputStmt r offset name typeName).bind fun _ => pure _
  | _ => exact hbody

theorem topStmts (r : Registry) (ss : List Stmt) : Unordered (Check.topStmts r ss) := by
  induction ss with
  | nil => exact pure _
  | cons s rest ih => exact (topStmt r s).bind fun s => ih.bind fun rest => pure _

end Unordered

-- A namespace goes behind those that are imported already, unless it is one of them.
def imported (known : List String) (ns : String) : List String :=
  if known.contains (Text.lower ns) then known else known ++ [Text.lower ns]

theorem mem_imported {known : List String} {ns x : String} :
    x ∈ imported known ns ↔ x ∈ known ∨ x = Text.lower ns := by
  unfold imported
  split
  · rename_i hknown
    have hmem : Text.lower ns ∈ known := by simpa using hknown
    exact ⟨.inl, fun h => h.elim id fun heq => heq ▸ hmem⟩
  · simp

theorem nodup_imported {known : List String} (h : known.Nodup) (ns : String) :
    (imported known ns).Nodup := by
  unfold imported
  split
  · exact h
  · rename_i hnew
    have hnotin : Text.lower ns ∉ known := by simpa using hnew
    exact h.append (List.nodup_singleton _) (by simpa using hnotin)

theorem importAll_run (imports : List String) (c : Checker) :
    Check.importAll imports c =
      .ok ((), { c with imports := imports.foldl imported c.imports }) := by
  induction imports generalizing c with
  | nil => rfl
  | cons ns rest ih =>
      have hadd : Check.addImport ns c = .ok ((), { c with imports := imported c.imports ns }) := by
        unfold imported
        refine modify_ok.mpr ?_
        dsimp only
        split <;> rfl
      exact bind_ok.mpr ⟨_, _, hadd, ih _⟩

theorem mem_foldl_imported {imports known : List String} {x : String} :
    x ∈ imports.foldl imported known ↔ x ∈ known ∨ x ∈ imports.map Text.lower := by
  induction imports generalizing known with
  | nil => simp
  | cons ns rest ih =>
      rw [List.foldl_cons, ih, mem_imported, List.map_cons, List.mem_cons, or_assoc]

theorem nodup_foldl_imported (imports : List String) {known : List String} (h : known.Nodup) :
    (imports.foldl imported known).Nodup := by
  induction imports generalizing known with
  | nil => exact h
  | cons ns rest ih => exact ih (nodup_imported h ns)

-- Lists of the same namespaces lead to the same imports, in some order.
theorem importAll_alongside {imports imports' : List String}
    (h : ∀ ns, ns ∈ imports.map Text.lower ↔ ns ∈ imports'.map Text.lower) :
    ∃ c d : Checker, Check.importAll imports {} = .ok ((), c) ∧
      Check.importAll imports' {} = .ok ((), d) ∧ c.Reordered d := by
  refine ⟨_, _, importAll_run imports {}, importAll_run imports' {}, rfl, rfl, ?_, rfl, rfl, rfl⟩
  refine (List.perm_ext_iff_of_nodup (nodup_foldl_imported _ List.nodup_nil)
    (nodup_foldl_imported _ List.nodup_nil)).mpr fun ns => ?_
  rw [mem_foldl_imported, mem_foldl_imported, h]

end Check

namespace CompiledScript

-- What a source text compiles to, or the problem that is found in it, depends on the namespaces that
-- are imported, but neither on their order nor on repetitions.
theorem compile_reordered (r : Registry) (options : CompileOptions) (source : String)
    {imports imports' : List String}
    (h : ∀ ns, ns ∈ imports.map Text.lower ↔ ns ∈ imports'.map Text.lower) :
    compile r { options with imports } source =
      compile r { options with imports := imports' } source := by
  obtain ⟨c, d, hc, hd, hcd⟩ := Check.importAll_alongside h
  simp only [compile, Script.analyze]
  cases Script.parse source with
  | error problem => rfl
  | ok parsed =>
      have hrun : ∀ {given : List String} {e : Checker},
          Check.importAll given {} = .ok ((), e) →
          (Check.script r given parsed).run {} = Check.topStmts r parsed e := by
        intro given e hgiven
        simp only [Check.script, StateT.run, bind, StateT.bind, hgiven, Except.bind]
      simp only [bind, Except.bind, Script.check, hrun hc, hrun hd]
      rcases Check.Unordered.topStmts r parsed c d hcd with
        ⟨checked, c', d', hc', hd', h'⟩ | ⟨problem, hc', hd'⟩
      · simp only [hc', hd', Except.map, h'.inputs, h'.symbols, generate]
      · simp only [hc', hd', Except.map]

-- A name that two namespaces have.
def poles : Registry :=
  (Registry.empty.addConst "north" "pole" (.long 1)).addConst "south" "pole" (.long 2)

theorem poles_reordered : (∀ ns, ns ∈ ["north", "South"].map Text.lower ↔
      ns ∈ ["SOUTH", "North", "south"].map Text.lower) ∧
    compile poles { imports := ["north", "South"] } "var [x] = [pole]" =
      compile poles { imports := ["SOUTH", "North", "south"] } "var [x] = [pole]" := by
  have h : ∀ ns, ns ∈ ["north", "South"].map Text.lower ↔
      ns ∈ ["SOUTH", "North", "south"].map Text.lower := by
    have hleft : ["north", "South"].map Text.lower = ["north", "south"] := by decide +kernel
    have hright : ["SOUTH", "North", "south"].map Text.lower = ["south", "north", "south"] := by
      decide +kernel
    intro ns
    rw [hleft, hright]
    simp only [List.mem_cons, List.not_mem_nil]
    tauto
  exact ⟨h, compile_reordered poles {} "var [x] = [pole]" h⟩

end CompiledScript

end HostScript
