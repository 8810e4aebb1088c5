import HostScript.Proofs.Host.Built
import HostScript.Proofs.Stateful
import HostScript.Proofs.Typing.Judgement

namespace HostScript

namespace Check

variable {α β : Type} {r : Registry} {Γ : TypeContext}

-- A part of a script without imports and inputs only adds to the table of variables.
structure Leads (c c' : Checker) : Prop where
  symbols : c.symbols.Grows c'.symbols
  inputs : c'.inputs = c.inputs
  header : c'.header = c.header

theorem Leads.refl (c : Checker) : Leads c c :=
  ⟨.refl _, rfl, rfl⟩

theorem Leads.trans {c c₁ c' : Checker} (h : Leads c c₁) (h' : Leads c₁ c') : Leads c c' :=
  ⟨h.symbols.trans h'.symbols, h'.inputs.trans h.inputs, h'.header.trans h.header⟩

-- Checking that starts with what is known in `Γ`. What is said of the answer holds for all later
-- tables of variables.
def Types (Γ : TypeContext) (Q : SymbolTable → α → TypeContext → Prop) (x : Check α) : Prop :=
  ∀ c a c', c.ctx = Γ → x c = .ok (a, c') →
    Leads c c' ∧ ∀ t, c'.symbols.Grows t → Q t a c'.ctx

-- Checking that changes nothing about what is known.
def Reads (Γ : TypeContext) (Q : α → Prop) (x : Check α) : Prop :=
  Types Γ (fun _ a Γ' => Γ' = Γ ∧ Q a) x

namespace Types

variable {Q : SymbolTable → α → TypeContext → Prop} {R : SymbolTable → β → TypeContext → Prop}

theorem pure {a : α} (h : ∀ t, Q t a Γ) : Types Γ Q (Pure.pure a : Check α) := by
  intro c b c' hc hrun
  cases pure_ok.mp hrun
  exact ⟨.refl _, fun t _ => hc ▸ h t⟩

theorem fail (problem : Diagnostic.Problem) (offset : Nat) :
    Types Γ Q (Check.fail problem offset : Check α) :=
  fun _ _ _ _ hrun => (throw_ok.mp hrun).elim

theorem bind {x : Check α} {f : α → Check β} (hx : Types Γ Q x)
    (hf : ∀ a Γ₁, Types Γ₁ (fun t b Γ₂ => Q t a Γ₁ → R t b Γ₂) (f a)) : Types Γ R (x >>= f) := by
  intro c b c' hc hrun
  obtain ⟨a, c₁, hfirst, hrest⟩ := bind_ok.mp hrun
  obtain ⟨hleads, hq⟩ := hx c a c₁ hc hfirst
  obtain ⟨hleads', hr⟩ := hf a c₁.ctx c₁ b c' rfl hrest
  exact ⟨hleads.trans hleads', fun t ht => hr t ht (hq t (hleads'.symbols.trans ht))⟩

-- What is done first leaves what is known as it is.
theorem keep {P : α → Prop} {x : Check α} {f : α → Check β} (hx : Reads Γ P x)
    (hf : ∀ a, P a → Types Γ R (f a)) : Types Γ R (x >>= f) := by
  intro c b c' hc hrun
  obtain ⟨a, c₁, hfirst, hrest⟩ := bind_ok.mp hrun
  obtain ⟨hleads, hq⟩ := hx c a c₁ hc hfirst
  obtain ⟨hctx, ha⟩ := hq c₁.symbols (.refl _)
  obtain ⟨hleads', hr⟩ := hf a ha c₁ b c' hctx hrest
  exact ⟨hleads.trans hleads', hr⟩

theorem refuse (problem : Diagnostic.Problem) (offset : Nat) {f : α → Check β} :
    Types Γ R (Check.fail problem offset >>= f) := by
  intro c b c' _ hrun
  obtain ⟨a, c₁, hfirst, -⟩ := bind_ok.mp hrun
  exact (throw_ok.mp hfirst).elim

theorem ite {c : Prop} [Decidable c] {x y : Check α} (hx : c → Types Γ Q x) (hy : ¬c → Types Γ Q y) :
    Types Γ Q (if c then x else y) := by
  by_cases h : c
  · rw [if_pos h]
    exact hx h
  · rw [if_neg h]
    exact hy h

theorem write (name : String) (ty : Ty) (offset : Nat) :
    Types Γ (fun t _ Γ' => Γ' = Γ.set name ty ∧ (ty.mayBeRef = true → t.Holds name))
      (Check.write name ty offset) := by
  intro c a c' hc hrun
  cases modify_ok.mp hrun
  refine ⟨⟨SymbolTable.grows_record, rfl, rfl⟩, fun t ht => ⟨by rw [hc], fun hty => ht name ?_⟩⟩
  rw [hty]
  exact SymbolTable.holds_record

end Types

namespace Reads

variable {Q : α → Prop} {R : β → Prop}

theorem pure {a : α} (h : Q a) : Reads Γ Q (Pure.pure a : Check α) :=
  Types.pure fun _ => ⟨rfl, h⟩

theorem fail (problem : Diagnostic.Problem) (offset : Nat) :
    Reads Γ Q (Check.fail problem offset : Check α) :=
  Types.fail problem offset

theorem bind {x : Check α} {f : α → Check β} (hx : Reads Γ Q x) (hf : ∀ a, Q a → Reads Γ R (f a)) :
    Reads Γ R (x >>= f) :=
  Types.keep hx hf

theorem seq {x : Check α} {f : α → Check β} (hx : Reads Γ (fun _ => True) x)
    (hf : ∀ a, Reads Γ R (f a)) : Reads Γ R (x >>= f) :=
  hx.bind fun a _ => hf a

theorem refuse (problem : Diagnostic.Problem) (offset : Nat) {f : α → Check β} :
    Reads Γ R (Check.fail problem offset >>= f) :=
  Types.refuse problem offset

theorem ite {c : Prop} [Decidable c] {x y : Check α} (hx : c → Reads Γ Q x) (hy : ¬c → Reads Γ Q y) :
    Reads Γ Q (if c then x else y) :=
  Types.ite hx hy

theorem get : Reads Γ (fun c => c.ctx = Γ) (MonadState.get : Check Checker) := by
  intro c a c' hc hrun
  cases get_ok.mp hrun
  exact ⟨.refl _, fun _ _ => ⟨hc, hc⟩⟩

theorem lookup (name : String) : Reads Γ (fun known => known = Γ.lookup name) (Check.lookup name) :=
  get.bind fun c hc => pure (by rw [hc])

theorem use (name : String) (offset : Nat) : Reads Γ (fun _ => True) (Check.use name offset) := by
  intro c a c' hc hrun
  cases modify_ok.mp hrun
  exact ⟨⟨SymbolTable.grows_record, rfl, rfl⟩, fun _ _ => ⟨hc, trivial⟩⟩

theorem resolveType (r : Registry) (name : String) (offset : Nat) :
    Reads Γ (fun _ => True) (Check.resolveType r name offset) := by
  refine get.bind fun c _ => ?_
  split
  · exact pure trivial
  · exact fail _ _
  · exact fail _ _

theorem checkArgsFrom (r : Registry) (name : String) (index : Nat) (params : List Ty)
    (args : List Expr) : Reads Γ (fun _ => True) (Check.checkArgsFrom r name index params args) := by
  induction params generalizing index args with
  | nil => exact pure trivial
  | cons param params ih =>
      cases args with
      | nil => exact pure trivial
      | cons arg args =>
          unfold Check.checkArgsFrom
          exact ite (fun _ => refuse _ _) fun _ => ih (index + 1) args

theorem checkArgs (r : Registry) (name : String) (params : List Ty) (args : List Expr)
    (offset : Nat) : Reads Γ (fun _ => True) (Check.checkArgs r name params args offset) :=
  ite (fun _ => refuse _ _) fun _ => checkArgsFrom r name 1 params args

theorem settleProperty (p : PropertyDef) (name : String) (args : List Expr) (offset : Nat)
    (assigned : Bool) : Reads Γ (fun _ => True) (Check.settleProperty p name args offset assigned) :=
  ite (fun _ => refuse _ _) fun _ => ite (fun _ => fail _ _) fun _ => pure trivial

theorem resolveStatic (hr : r.Numbered) (name : String) (args : List Expr) (offset : Nat)
    (assigned : Bool) :
    Reads Γ (fun found : StaticBinding × Ty => found.1.HasType r found.2)
      (Check.resolveStatic r name args offset assigned) := by
  refine get.bind fun c _ => ?_
  refine ite (fun _ => refuse _ _) fun _ => ?_
  refine ite (fun _ => refuse _ _) fun _ => ?_
  split
  · rename_i d _ hfound
    obtain ⟨ns, -, hmem⟩ := List.mem_flatMap.mp (hfound ▸ List.mem_cons_self :
      d ∈ (staticCandidates r c.imports name).methods)
    have hd := (hr.methods.find (List.mem_filter.mp hmem).1).1
    refine (checkArgs r name d.params args offset).seq fun _ => pure fun d' hd' => ?_
    cases hd.symm.trans hd'
    rfl
  · rename_i d _ _ hfound
    obtain ⟨ns, -, hmem⟩ := List.mem_flatMap.mp (hfound ▸ List.mem_cons_self :
      d ∈ (staticCandidates r c.imports name).properties)
    have hd := (hr.properties.find (List.mem_filter.mp hmem).1).1
    refine (settleProperty d name args offset assigned).seq fun _ => pure fun d' hd' => ?_
    cases hd.symm.trans hd'
    rfl
  · exact ite (fun _ => refuse _ _) fun _ => pure rfl
  · exact fail _ _

theorem resolveMember (hr : r.Numbered) (target : Ty) (name : String) (args : List Expr)
    (offset : Nat) (assigned : Bool) :
    Reads Γ (fun found : MemberBinding × Ty => found.1.HasType r found.2)
      (Check.resolveMember r target name args offset assigned) := by
  unfold Check.resolveMember
  split
  · exact pure rfl
  · rename_i id
    split
    · exact fail _ _
    · rename_i d hfound _
      have hmem : d ∈ r.instanceMethods id name := by simp [hfound]
      have hd := (hr.methods.find (List.mem_filter.mp hmem).1).1
      refine (checkArgs r name d.params args offset).seq fun _ => pure fun d' hd' => ?_
      cases hd.symm.trans hd'
      rfl
    · rename_i d _ hfound
      have hmem : d ∈ r.instanceProperties id name := by simp [hfound]
      have hd := (hr.properties.find (List.mem_filter.mp hmem).1).1
      refine (settleProperty d name args offset assigned).seq fun _ => pure fun d' hd' => ?_
      cases hd.symm.trans hd'
      rfl
    · exact fail _ _
  · exact fail _ _

theorem resolveConstructor (r : Registry) (typeName : String) (args : List Expr) (offset : Nat) :
    Reads Γ (fun found : Nat × Ty => ∃ id, found.2 = .object id)
      (Check.resolveConstructor r typeName args offset) := by
  refine (resolveType r typeName offset).seq fun ty => ?_
  split
  · rename_i id
    refine ite (fun _ => refuse _ _) fun _ => ?_
    dsimp only
    split
    · exact pure ⟨id, rfl⟩
    · exact fail _ _
    · exact fail _ _
  · exact fail _ _

theorem resolveName (hr : r.Numbered) (name : String) (offset : Nat) :
    Reads Γ (·.Every (Expr.Consistent r Γ)) (Check.resolveName r name offset) := by
  refine get.bind fun c _ => ?_
  refine ite (fun _ => refuse _ _) fun _ => ?_
  exact (resolveStatic hr name [] offset false).bind fun found hfound => pure ⟨hfound, trivial⟩

mutual

theorem expr (hr : r.Numbered) (e : Expr) :
    Reads Γ (·.Every (Expr.Consistent r Γ)) (Check.expr r e) := by
  cases e with
  | literal m value => exact pure rfl
  | name m name =>
      refine (lookup name).bind fun known hknown => ?_
      split
      · exact (use _ _).seq fun _ => pure hknown.symm
      · exact resolveName hr name _
  | static m name args binding =>
      refine (exprs hr args).bind fun args hargs => ?_
      exact (resolveStatic hr name args m.offset false).bind fun found hfound => pure ⟨hfound, hargs⟩
  | member m target name args binding =>
      refine (expr hr target).bind fun target htarget => (exprs hr args).bind fun args hargs => ?_
      exact (resolveMember hr target.ty name args m.offset false).bind fun found hfound =>
        pure ⟨hfound, htarget, hargs⟩
  | new m typeName args binding =>
      refine (exprs hr args).bind fun args hargs => ?_
      exact (resolveConstructor r typeName args m.offset).bind fun found hfound =>
        pure ⟨hfound, hargs⟩
  | binary m op lhs rhs =>
      refine (expr hr lhs).bind fun lhs hlhs => (expr hr rhs).bind fun rhs hrhs => ?_
      split
      · rename_i ty hty
        exact pure ⟨hty, hlhs, hrhs⟩
      · exact fail _ _
  | unary m op operand =>
      refine (expr hr operand).bind fun operand hoperand => ?_
      split
      · rename_i ty hty
        exact pure ⟨hty, hoperand⟩
      · exact fail _ _
  | cast m typeName operand => exact fail _ _

theorem exprs (hr : r.Numbered) (es : List Expr) :
    Reads Γ (Expr.EveryOne (Expr.Consistent r Γ)) (Check.exprs r es) := by
  cases es with
  | nil => exact pure trivial
  | cons e rest =>
      exact (expr hr e).bind fun e he => (exprs hr rest).bind fun rest hrest => pure ⟨he, hrest⟩

end

theorem condition (hr : r.Numbered) (test : Expr) :
    Reads Γ (fun e => e.Every (Expr.Consistent r Γ) ∧ e.ty.mayBeBool = true)
      (Check.condition r test) := by
  refine (expr hr test).bind fun test htest => ?_
  refine ite (fun _ => refuse _ _) fun hbool => pure ⟨htest, by simpa using hbool⟩

theorem changeOf (hr : r.Numbered) (how : Change) :
    Reads Γ (fun found : Change × Ty => found.1.Every (Expr.Consistent r Γ) ∧ found.1.ty = found.2)
      (Check.change r how) := by
  cases how with
  | compound op value =>
      exact (expr hr value).bind fun value hvalue => pure ⟨hvalue, rfl⟩
  | increment => exact pure ⟨trivial, rfl⟩
  | decrement => exact pure ⟨trivial, rfl⟩

theorem iteration (r : Registry) (source : Expr) :
    Reads Γ (fun found : Iteration × Ty => found.1.Walks r found.2 source.ty)
      (Check.iteration r source) := by
  unfold Check.iteration
  split
  · rename_i hty
    rw [hty]
    exact pure ⟨rfl, rfl⟩
  · rename_i id hty
    rw [hty]
    split
    · rename_i it hit
      refine pure ⟨it, hit, rfl, fun d hd => ?_⟩
      rw [hd]
      rfl
    · exact fail _ _
  · exact fail _ _

theorem assignedProperty (r : Registry) (id : Nat) (name : String) (value : Expr) (offset : Nat) :
    Reads Γ (fun _ => True) (Check.assignedProperty r id name value offset) := by
  unfold Check.assignedProperty
  split
  · exact fail _ _
  · exact ite (fun _ => fail _ _) fun _ => pure trivial

theorem assignStatic (hr : r.Numbered) (mark : Mark) (name : String) (args : List Expr)
    (value : Expr) :
    Reads Γ (·.TargetConsistent r Γ) (Check.assignStatic r mark name args value) := by
  refine (resolveStatic hr name args mark.offset true).bind fun found _ => ?_
  obtain ⟨binding, ty⟩ := found
  cases binding with
  | property id => exact (assignedProperty r id name value _).seq fun _ => pure trivial
  | unresolved => exact refuse _ _
  | method id => exact refuse _ _
  | const value => exact refuse _ _

theorem assignTarget (hr : r.Numbered) (target value : Expr) (offset : Nat) :
    Reads Γ (·.TargetConsistent r Γ) (Check.assignTarget r target value offset) := by
  cases target with
  | name m name => exact assignStatic hr m name [] value
  | static m name args binding => exact assignStatic hr m name args value
  | member m owner name args binding =>
      refine (expr hr owner).bind fun owner howner => ?_
      refine (resolveMember hr owner.ty name args m.offset true).bind fun found _ => ?_
      obtain ⟨binding, ty⟩ := found
      cases binding with
      | dynamic => exact pure howner
      | property id => exact (assignedProperty r id name value _).seq fun _ => pure howner
      | unresolved => exact refuse _ _
      | method id => exact refuse _ _
  | literal m value => exact fail _ _
  | new m typeName args binding => exact fail _ _
  | binary m op lhs rhs => exact fail _ _
  | unary m op operand => exact fail _ _
  | cast m typeName operand => exact fail _ _

theorem refuseVariable (target : Expr) (problem : String → Diagnostic.Problem) (offset : Nat) :
    Reads Γ (fun _ => True) (Check.refuseVariable target problem offset) := by
  unfold Check.refuseVariable
  split
  · exact (lookup _).bind fun _ _ => ite (fun _ => fail _ _) fun _ => pure trivial
  · exact pure trivial

end Reads

namespace Types

variable {Q : SymbolTable → α → TypeContext → Prop} {R : SymbolTable → β → TypeContext → Prop}

theorem varStmt (hr : r.Numbered) (v : VarStmt) :
    Types Γ (fun t v Γ' => v.Typed r t Γ Γ') (Check.varStmt r v) := by
  cases v with
  | declare offset name value =>
      refine keep (Reads.expr hr value) fun value hvalue => ?_
      refine ite (fun _ => refuse _ _) fun hvoid => ?_
      refine (write name value.ty offset).bind fun _ Γ₁ => pure ?_
      rintro t ⟨rfl, hholds⟩
      exact .declare hvalue hvoid hholds
  | update offset name how current result =>
      refine keep (Reads.lookup name) fun known hknown => ?_
      split
      · exact fail _ _
      · refine keep (Reads.changeOf hr how) fun found hfound => ?_
        obtain ⟨how, rhs⟩ := found
        obtain ⟨hevery, hty⟩ := hfound
        dsimp only at hevery hty ⊢
        subst hty
        split
        · exact fail _ _
        · rename_i result hresult
          refine (write name result offset).bind fun _ Γ₁ => pure ?_
          rintro t ⟨rfl, hholds⟩
          exact .update hknown.symm hevery hresult hholds

-- A block that is entered and left again.
theorem framed {kind : FrameKind} {x : Check α} {f : α → Check β}
    (hx : Types (Γ.push kind) Q x)
    (hf : ∀ a Γ₁, Types Γ₁.pop (fun t b Γ₂ => Q t a Γ₁ → R t b Γ₂) (f a)) :
    Types Γ R (do
      Check.pushFrame kind
      let a ← x
      Check.popFrame
      f a) := by
  intro c b c' hc hrun
  obtain ⟨_, c₁, hpush, hrun⟩ := bind_ok.mp hrun
  cases modify_ok.mp hpush
  obtain ⟨a, c₂, hinner, hrun⟩ := bind_ok.mp hrun
  obtain ⟨_, c₃, hpop, hrun⟩ := bind_ok.mp hrun
  cases modify_ok.mp hpop
  obtain ⟨hleads, hq⟩ := hx _ a c₂ (by rw [hc]) hinner
  obtain ⟨hleads', hr⟩ := hf a c₂.ctx _ b c' rfl hrun
  refine ⟨⟨hleads.symbols.trans hleads'.symbols, hleads'.inputs.trans hleads.inputs,
    hleads'.header.trans hleads.header⟩, fun t ht => hr t ht (hq t (hleads'.symbols.trans ht))⟩

-- The part that a loop repeats is checked with something known about the variables, whether it is
-- checked once or twice.
theorem loop {pass : Check α} (h : ∀ Γ₁, Types Γ₁ (fun t a Γ₂ => Q t a Γ₂.pop) pass) :
    Types Γ Q (Check.loop pass) := by
  intro c b c' hc hrun
  obtain ⟨_, _, hget, hrun⟩ := bind_ok.mp hrun
  cases get_ok.mp hget
  obtain ⟨_, _, henter, hrun⟩ := bind_ok.mp hrun
  cases modify_ok.mp henter
  obtain ⟨first, c₁, hpass, hrun⟩ := bind_ok.mp hrun
  obtain ⟨hleads, hq⟩ := h _ _ first c₁ rfl hpass
  obtain ⟨writes, c₂, htake, hrun⟩ := bind_ok.mp hrun
  obtain ⟨_, _, hget, htake⟩ := bind_ok.mp htake
  cases get_ok.mp hget
  obtain ⟨_, _, hset, htake⟩ := bind_ok.mp htake
  cases set_ok.mp hset
  cases pure_ok.mp htake
  split at hrun
  · obtain ⟨_, _, hpop, hrun⟩ := bind_ok.mp hrun
    cases modify_ok.mp hpop
    cases pure_ok.mp hrun
    exact ⟨⟨hleads.symbols, hleads.inputs, hleads.header⟩, hq⟩
  · obtain ⟨_, _, hback, hrun⟩ := bind_ok.mp hrun
    cases modify_ok.mp hback
    obtain ⟨_, _, henter, hrun⟩ := bind_ok.mp hrun
    cases modify_ok.mp henter
    obtain ⟨_, _, hforget, hrun⟩ := bind_ok.mp hrun
    cases modify_ok.mp hforget
    obtain ⟨second, c₃, hpass, hrun⟩ := bind_ok.mp hrun
    obtain ⟨hleads', hq'⟩ := h _ _ second c₃ rfl hpass
    obtain ⟨_, c₄, htake, hrun⟩ := bind_ok.mp hrun
    obtain ⟨_, _, hget, htake⟩ := bind_ok.mp htake
    cases get_ok.mp hget
    obtain ⟨_, _, hset, htake⟩ := bind_ok.mp htake
    cases set_ok.mp hset
    cases pure_ok.mp htake
    obtain ⟨_, _, hpop, hrun⟩ := bind_ok.mp hrun
    cases modify_ok.mp hpop
    cases pure_ok.mp hrun
    exact ⟨⟨hleads.symbols.trans hleads'.symbols, hleads'.inputs.trans hleads.inputs,
      hleads'.header.trans hleads.header⟩, hq'⟩

mutual

theorem stmt (hr : r.Numbered) {Γ : TypeContext} (s : Stmt) :
    Types Γ (fun t s Γ' => s.Typed r t Γ Γ') (Check.stmt r s) := by
  cases s with
  | «using» offset ns => exact fail _ _
  | input offset name typeName declared => exact fail _ _
  | var v => exact (varStmt hr v).bind fun v Γ' => pure fun t hv => .var hv
  | cond offset test body rest =>
      refine keep (Reads.condition hr test) fun test htest => ?_
      refine framed (stmts hr body) fun body Γ₁ => ?_
      exact (branches hr rest).bind fun rest Γ₂ => pure fun t hrest hbody =>
        .cond htest.1 htest.2 hbody hrest
  | whileLoop offset test body =>
      refine loop fun Γ₁ => keep (Reads.condition hr test) fun test htest => ?_
      exact (stmts hr body).bind fun body Γ₂ => pure fun t hbody =>
        .whileLoop htest.1 htest.2 hbody
  | forLoop offset init test step body =>
      refine (varStmt hr init).bind fun init Γ₀ => loop fun Γ₁ =>
        keep (Reads.condition hr test) fun test htest => ?_
      exact (stmts hr body).bind fun body Γ₂ => (varStmt hr step).bind fun step Γ₃ =>
        pure fun t hstep hbody hinit => .forLoop hinit htest.1 htest.2 hbody hstep
  | eachLoop offset item source body how =>
      refine keep (Reads.expr hr source) fun source hsource =>
        keep (Reads.iteration r source) fun found hfound => loop fun Γ₁ => ?_
      refine (write item found.2 offset).bind fun _ Γ₂ => (stmts hr body).bind fun body Γ₃ =>
        pure ?_
      rintro t hbody ⟨rfl, hholds⟩
      exact .eachLoop hsource hfound hholds hbody
  | countLoop offset count body =>
      refine keep (Reads.expr hr count) fun count hcount => ?_
      refine ite (fun _ => refuse _ _) fun hnumber => loop fun Γ₁ => ?_
      exact (stmts hr body).bind fun body Γ₂ => pure fun t hbody =>
        .countLoop hcount (by simpa using hnumber) hbody
  | leave offset =>
      refine keep Reads.get fun c _ => ?_
      exact ite (fun _ => refuse _ _) fun _ => pure fun _ => .leave
  | again offset =>
      refine keep Reads.get fun c _ => ?_
      exact ite (fun _ => refuse _ _) fun _ => pure fun _ => .again
  | ret offset value =>
      cases value with
      | none => exact pure fun _ => .ret fun _ h => nomatch h
      | some value =>
          refine keep (Reads.expr hr value) fun value hvalue => ?_
          refine ite (fun _ => refuse _ _) fun _ => pure fun _ => .ret fun e he => ?_
          cases he
          exact hvalue
  | exit offset => exact pure fun _ => .exit
  | func offset name params body => exact fail _ _
  | call offset target =>
      exact keep (Reads.refuseVariable _ _ _) fun _ _ =>
        keep (Reads.expr hr target) fun target htarget => pure fun _ => .call htarget
  | assign offset target value =>
      exact keep (Reads.refuseVariable _ _ _) fun _ _ =>
        keep (Reads.expr hr value) fun value hvalue =>
          keep (Reads.assignTarget hr target value offset) fun target htarget =>
            pure fun _ => .assign htarget hvalue

theorem stmts (hr : r.Numbered) {Γ : TypeContext} (ss : List Stmt) :
    Types Γ (fun t ss Γ' => Stmt.AllTyped r t Γ ss Γ') (Check.stmts r ss) := by
  cases ss with
  | nil => exact pure fun _ => .nil
  | cons s rest =>
      exact (stmt hr s).bind fun s Γ₁ => (stmts hr rest).bind fun rest Γ₂ =>
        pure fun t hrest hs => .cons hs hrest

theorem branches (hr : r.Numbered) {Γ : TypeContext} (b : Branches) :
    Types Γ (fun t b Γ' => Stmt.BranchesTyped r t Γ b Γ') (Check.branches r b) := by
  cases b with
  | done => exact pure fun _ => .done
  | otherwise body =>
      exact framed (stmts hr body) fun body Γ₁ => pure fun t hbody => .otherwise hbody
  | elseIf test body rest =>
      refine keep (Reads.condition hr test) fun test htest => ?_
      refine framed (stmts hr body) fun body Γ₁ => ?_
      exact (branches hr rest).bind fun rest Γ₂ => pure fun t hrest hbody =>
        .elseIf htest.1 htest.2 hbody hrest

end

-- A statement outside all blocks that is neither an import nor an input starts the body.
theorem topStmt (hr : r.Numbered) {s s' : Stmt} (hinput : s.input? = none)
    (husing : ∀ offset ns, s ≠ .using offset ns) {c c' : Checker}
    (hrun : Check.topStmt r s c = .ok (s', c')) :
    Leads { c with header := .body } c' ∧ ∀ t, c'.symbols.Grows t → s'.Typed r t c.ctx c'.ctx := by
  have hstmt : (do
      modify fun c => { c with header := .body }
      Check.stmt r s : Check Stmt) c = .ok (s', c') := by
    cases s with
    | «using» offset ns => exact absurd rfl (husing offset ns)
    | input offset name typeName declared => cases hinput
    | _ => exact hrun
  obtain ⟨_, _, hmodify, hrun⟩ := bind_ok.mp hstmt
  cases modify_ok.mp hmodify
  exact stmt hr s _ s' c' rfl hrun

theorem addImport_ok {ns : String} {c c' : Checker} {u : Unit}
    (h : Check.addImport ns c = .ok (u, c')) : c'.ctx = c.ctx ∧ Leads c c' := by
  cases modify_ok.mp h
  dsimp only
  split <;> exact ⟨rfl, .refl _, rfl, rfl⟩

theorem usingStmt_ok {offset : Nat} {ns : String} {c c' : Checker} {u : Unit}
    (h : Check.usingStmt r offset ns c = .ok (u, c')) :
    c.header = .imports ∧ c'.ctx = c.ctx ∧ Leads c c' := by
  obtain ⟨_, _, hget, h⟩ := bind_ok.mp h
  cases get_ok.mp hget
  split at h
  · obtain ⟨_, _, hfail, -⟩ := bind_ok.mp h
    exact (throw_ok.mp hfail).elim
  · rename_i hheader
    split at h
    · obtain ⟨_, _, hfail, -⟩ := bind_ok.mp h
      exact (throw_ok.mp hfail).elim
    · exact ⟨not_not.mp hheader, addImport_ok h⟩

-- What an input adds.
structure Enters (name : String) (ty : Ty) (c c' : Checker) : Prop where
  ctx : c'.ctx = c.ctx.set name ty
  symbols : c.symbols.Grows c'.symbols
  holds : ty.mayBeRef = true → c'.symbols.Holds name
  inputs : c'.inputs = c.inputs ++ [⟨name, ty⟩]
  fresh : ∀ v ∈ c.inputs, v.name ≠ name

theorem inputStmt_ok {offset : Nat} {name : String} {typeName : Option String} {ty : Ty}
    {c c' : Checker} (h : Check.inputStmt r offset name typeName c = .ok (ty, c')) :
    c.header ≠ .body ∧ Enters name ty c c' := by
  obtain ⟨_, _, hget, h⟩ := bind_ok.mp h
  cases get_ok.mp hget
  split at h
  · obtain ⟨_, _, hfail, -⟩ := bind_ok.mp h
    exact (throw_ok.mp hfail).elim
  rename_i hheader
  refine ⟨hheader, ?_⟩
  obtain ⟨_, _, hmodify, h⟩ := bind_ok.mp h
  cases modify_ok.mp hmodify
  obtain ⟨_, _, hget, h⟩ := bind_ok.mp h
  cases get_ok.mp hget
  split at h
  · obtain ⟨_, _, hfail, -⟩ := bind_ok.mp h
    exact (throw_ok.mp hfail).elim
  rename_i hfresh
  have hfresh : ∀ v ∈ c.inputs, v.name ≠ name := by simpa using hfresh
  have henter : ∀ {ty'} {c₁ : Checker}, c₁.ctx = c.ctx → c.symbols.Grows c₁.symbols →
      c₁.inputs = c.inputs → (do
        modify fun c => { c with
          ctx := c.ctx.set name ty'
          symbols := c.symbols.record name offset ty'.mayBeRef true
          inputs := c.inputs ++ [⟨name, ty'⟩] }
        return ty' : Check Ty) c₁ = .ok (ty, c') → Enters name ty c c' := by
    intro ty' c₁ hctx hgrows hinputs hrun
    obtain ⟨_, _, hmodify, hrun⟩ := bind_ok.mp hrun
    cases modify_ok.mp hmodify
    cases pure_ok.mp hrun
    refine ⟨by rw [hctx], hgrows.trans SymbolTable.grows_record, fun hty => ?_, by rw [hinputs], hfresh⟩
    rw [hty]
    exact SymbolTable.holds_record
  cases typeName with
  | none => exact @henter .dynamic { c with header := .inputs } rfl (.refl _) rfl h
  | some t =>
      obtain ⟨ty', c₁, htype, h⟩ := bind_ok.mp h
      obtain ⟨hleads, hreads⟩ := Reads.resolveType r t offset _ ty' c₁ rfl htype
      exact henter (hreads c₁.symbols (.refl _)).1 hleads.symbols hleads.inputs h

-- What checking a whole script leads to: its inputs are noted under different names.
structure Notes (r : Registry) (c c' : Checker) (script : Script) : Prop where
  symbols : c.symbols.Grows c'.symbols
  inputs : c'.inputs = c.inputs ++ script.inputs
  distinct : (c.inputs.map (·.name)).Nodup → (c'.inputs.map (·.name)).Nodup
  typed : ∀ t, c'.symbols.Grows t → script.Typed r t c.ctx c'.ctx

-- Behind the header there are only statements.
theorem body (hr : r.Numbered) (ss : List Stmt) {c c' : Checker} {ss' : List Stmt}
    (hheader : c.header = .body) (hrun : Check.topStmts r ss c = .ok (ss', c')) :
    Leads c c' ∧ ∀ t, c'.symbols.Grows t → Stmt.AllTyped r t c.ctx ss' c'.ctx := by
  induction ss generalizing c ss' with
  | nil =>
      cases pure_ok.mp hrun
      exact ⟨.refl _, fun _ _ => .nil⟩
  | cons s rest ih =>
      obtain ⟨s', c₁, hfirst, hrun⟩ := bind_ok.mp hrun
      obtain ⟨rest', c₂, hrest, hrun⟩ := bind_ok.mp hrun
      cases pure_ok.mp hrun
      have hinput : s.input? = none := by
        cases s with
        | input offset name typeName declared =>
            obtain ⟨_, _, hinput, -⟩ := bind_ok.mp hfirst
            exact absurd hheader (inputStmt_ok hinput).1
        | _ => rfl
      have husing : ∀ offset ns, s ≠ .using offset ns := by
        rintro offset ns rfl
        obtain ⟨_, _, husing, -⟩ := bind_ok.mp hfirst
        rw [(usingStmt_ok husing).1] at hheader
        cases hheader
      obtain ⟨hleads, hs⟩ := topStmt hr hinput husing hfirst
      obtain ⟨hleads', hrest⟩ := ih hleads.header hrest
      refine ⟨⟨hleads.symbols.trans hleads'.symbols, hleads'.inputs.trans hleads.inputs,
        hleads'.header.trans (hleads.header.trans hheader.symm)⟩, fun t ht => ?_⟩
      exact .cons (hs t (hleads'.symbols.trans ht)) (hrest t ht)

theorem topStmts (hr : r.Numbered) (ss : List Stmt) {c c' : Checker} {ss' : List Stmt}
    (hrun : Check.topStmts r ss c = .ok (ss', c')) : Notes r c c' ss' := by
  induction ss generalizing c ss' with
  | nil =>
      cases pure_ok.mp hrun
      exact ⟨.refl _, (List.append_nil _).symm, id, fun _ _ => .body .nil⟩
  | cons s rest ih =>
      obtain ⟨s', c₁, hfirst, hrun⟩ := bind_ok.mp hrun
      obtain ⟨rest', c₂, hrest, hrun⟩ := bind_ok.mp hrun
      cases pure_ok.mp hrun
      by_cases hinput : s.input? = none
      · by_cases husing : ∀ offset ns, s ≠ .using offset ns
        · obtain ⟨hleads, hs⟩ := topStmt hr hinput husing hfirst
          obtain ⟨hleads', hrest⟩ := body hr rest hleads.header hrest
          have hall : ∀ t, c'.symbols.Grows t → Stmt.AllTyped r t c.ctx (s' :: rest') c'.ctx :=
            fun t ht => .cons (hs t (hleads'.symbols.trans ht)) (hrest t ht)
          have hinputs : c'.inputs = c.inputs := hleads'.inputs.trans hleads.inputs
          refine ⟨hleads.symbols.trans hleads'.symbols, ?_, fun hnodup => hinputs ▸ hnodup,
            fun t ht => .body (hall t ht)⟩
          rw [hinputs, (hall _ (.refl _)).inputs_eq, List.append_nil]
        · obtain ⟨offset, husing⟩ := not_forall.mp husing
          obtain ⟨ns, husing⟩ := not_forall.mp husing
          obtain rfl := not_not.mp husing
          obtain ⟨_, _, husing, hfirst⟩ := bind_ok.mp hfirst
          cases pure_ok.mp hfirst
          obtain ⟨-, hctx, hleads⟩ := usingStmt_ok husing
          have hnotes := ih hrest
          refine ⟨hleads.symbols.trans hnotes.symbols, ?_, fun hnodup => hnotes.distinct ?_,
            fun t ht => .using (hctx ▸ hnotes.typed t ht)⟩
          · rw [hnotes.inputs, hleads.inputs]
            rfl
          · rwa [hleads.inputs]
      · cases s with
        | input offset name typeName declared =>
            obtain ⟨ty, c₃, hentered, hfirst⟩ := bind_ok.mp hfirst
            cases pure_ok.mp hfirst
            obtain ⟨-, henters⟩ := inputStmt_ok hentered
            have hnotes := ih hrest
            refine ⟨henters.symbols.trans hnotes.symbols, ?_, fun hnodup => hnotes.distinct ?_,
              fun t ht => .input (fun hty => ?_) (henters.ctx ▸ hnotes.typed t ht)⟩
            · rw [hnotes.inputs, henters.inputs, List.append_assoc]
              rfl
            · rw [henters.inputs, List.map_append, List.nodup_append]
              refine ⟨hnodup, List.nodup_singleton _, ?_⟩
              intro x hx y hy
              obtain ⟨v, hv, rfl⟩ := List.mem_map.mp hx
              obtain rfl : y = name := by simpa using hy
              exact henters.fresh v hv
            · exact ht name (hnotes.symbols name (henters.holds hty))
        | _ => exact absurd rfl hinput

theorem importAll (imports : List String) {c c' : Checker} {u : Unit}
    (hrun : Check.importAll imports c = .ok (u, c')) : c'.ctx = c.ctx ∧ Leads c c' := by
  induction imports generalizing c with
  | nil =>
      cases pure_ok.mp hrun
      exact ⟨rfl, .refl _⟩
  | cons ns rest ih =>
      obtain ⟨_, c₁, hfirst, hrun⟩ := bind_ok.mp hrun
      obtain ⟨hctx, hleads⟩ := addImport_ok hfirst
      obtain ⟨hctx', hleads'⟩ := ih hrun
      exact ⟨hctx'.trans hctx, hleads.trans hleads'⟩

end Types

end Check

-- A checked script goes with what is recorded in it and about it.
theorem Script.typed_of_check {r : Registry} {imports : List String} {script checked : Script}
    {analysis : Analysis} (hr : r.Numbered)
    (h : script.check r imports = .ok (checked, analysis)) :
    (∃ Γ, checked.Typed r analysis.symbols .initial Γ) ∧ analysis.inputs = checked.inputs ∧
      (checked.inputs.map (·.name)).Nodup := by
  unfold Script.check at h
  cases hrun : (Check.script r imports script).run {} with
  | error d =>
      rw [hrun] at h
      cases h
  | ok result =>
      rw [hrun] at h
      cases h
      obtain ⟨_, c₁, himports, hrun⟩ := bind_ok.mp hrun
      obtain ⟨hctx, hleads⟩ := Check.Types.importAll imports himports
      have hnotes := Check.Types.topStmts hr script hrun
      have hinputs' : result.2.inputs = result.1.inputs := by
        rw [hnotes.inputs, hleads.inputs]
        rfl
      refine ⟨⟨result.2.ctx, ?_⟩, hinputs', hinputs' ▸ hnotes.distinct ?_⟩
      · have htyped := hnotes.typed _ (.refl _)
        rwa [hctx] at htyped
      · rw [hleads.inputs]
        exact List.nodup_nil

end HostScript
