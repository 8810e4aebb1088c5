import HostScript.Proofs.Typing.Frames
import HostScript.Proofs.Typing.Linked

namespace HostScript

namespace Ty

-- Whether every value of one type is also one of another, as far as values are told apart.
def conformsTo : Ty → Ty → Bool
  | _, .dynamic => true
  | .null, .void | .null, .null | .null, .string | .null, .object _ => true
  | .void, .void | .void, .null | .void, .string | .void, .object _ => true
  | .bool, .bool => true
  | .long, .long | .long, .double | .double, .long | .double, .double => true
  | .string, .string => true
  | .object _, .object _ => true
  | _, _ => false

-- The same where only texts and objects are told apart from the rest.
def refersTo (a b : Ty) : Bool :=
  !a.mayBeRef || b.mayBeRef

-- The same where only whole numbers are told apart from the rest.
def wholeTo (a b : Ty) : Bool :=
  b ≠ .long || a = .long

-- A type for the values of two others, the smaller of the two sides of a comparison giving way.
def join (le : Ty → Ty → Bool) (a b : Ty) : Ty :=
  if le a b then b else if le b a then a else .dynamic

-- A type for the values of another one and for everything that may be written to a variable.
def widen (le : Ty → Ty → Bool) (name : String) (ty : Ty) : List (String × Ty) → Ty
  | [] => ty
  | w :: rest => widen le name (if w.1 = name then ty.join le w.2 else ty) rest

end Ty

-- What is known of the value of each variable.
abbrev Facts := String → Ty

namespace Facts

def set (K : Facts) (name : String) (ty : Ty) : Facts :=
  fun x => if x = name then ty else K x

def join (le : Ty → Ty → Bool) (K K' : Facts) : Facts :=
  fun x => (K x).join le (K' x)

-- What is still known if any of some writes may happen, in whatever order and however often.
def widen (le : Ty → Ty → Bool) (K : Facts) (writes : List (String × Ty)) : Facts :=
  fun x => (K x).widen le x writes

-- Inputs are of their declared types, and all other variables start without a value.
def start (inputs : List InputVar) : Facts :=
  fun x => ((inputs.find? (·.name = x)).map (·.ty)).getD .null

theorem start_eq {inputs : List InputVar} (hnodup : (inputs.map (·.name)).Nodup) {v : InputVar}
    (hv : v ∈ inputs) : start inputs v.name = v.ty := by
  have hfind : inputs.find? (·.name = v.name) = some v := by
    cases hfound : inputs.find? (·.name = v.name) with
    | none => simpa using List.find?_eq_none.mp hfound v hv
    | some w =>
        have hname : w.name = v.name := by simpa using List.find?_some hfound
        exact congrArg some
          (List.inj_on_of_nodup_map hnodup (List.mem_of_find?_eq_some hfound) hv hname)
  simp only [start, hfind, Option.map_some, Option.getD_some]

end Facts

-- The variable that a statement gives a value, and the type that is recorded for it.
def VarStmt.write : VarStmt → String × Ty
  | .declare _ name value => (name, value.ty)
  | .update _ name _ _ result => (name, result)

namespace Iteration

-- The types of the items and of their number, as far as they are declared. A number of items that is
-- looked up by name is checked.
def itemTy (r : Registry) : Iteration → Ty
  | .members _ getItem => ((r.methods[getItem]?).map (·.returns)).getD .dynamic
  | _ => .dynamic

def countTy (r : Registry) : Iteration → Ty
  | .members count _ => ((r.properties[count]?).map (·.ty)).getD .dynamic
  | _ => .double

variable {r : Registry} {how : Iteration} {itemTy ty : Ty}

theorem Walks.itemTy_eq (h : how.Walks r itemTy ty) (hlinked : how.Linked r) :
    how.itemTy r = itemTy := by
  cases ty with
  | dynamic =>
      obtain ⟨rfl, rfl⟩ := h
      rfl
  | object id =>
      obtain ⟨it, -, rfl, hty⟩ := h
      obtain ⟨-, d, hd, -⟩ := hlinked.2
      simp [Iteration.itemTy, hd, hty d hd]
  | _ => exact h.elim

end Iteration

-- The type that is recorded for a use of a variable is borne out by what is known of it.
def Expr.BorneOut (le : Ty → Ty → Bool) (K : Facts) : Expr → Prop
  | .name m x => le (K x) m.ty = true
  | _ => True

instance (le : Ty → Ty → Bool) (K : Facts) : DecidablePred (Expr.BorneOut le K)
  | .name m x => inferInstanceAs (Decidable (le (K x) m.ty = true))
  | .literal _ _ | .static _ _ _ _ | .member _ _ _ _ _ | .new _ _ _ _ | .binary _ _ _ _
  | .unary _ _ _ | .cast _ _ _ => .isTrue trivial

-- A target of an assignment is not evaluated, only what it belongs to.
def Expr.TargetBorneOut (le : Ty → Ty → Bool) (K : Facts) : Expr → Prop
  | .member _ owner _ _ _ => owner.Every (BorneOut le K)
  | _ => True

def VarStmt.BorneOut (le : Ty → Ty → Bool) (K : Facts) : VarStmt → Prop
  | .declare _ _ value => value.Every (Expr.BorneOut le K)
  | .update _ name how current _ => le (K name) current = true ∧ how.Every (Expr.BorneOut le K)

namespace Stmt

section

variable (r : Registry)

mutual

-- Everything that is written inside a statement.
def writes : Stmt → List (String × Ty)
  | .var v => [v.write]
  | .cond _ _ body rest => allWrites body ++ branchesWrites rest
  | .whileLoop _ _ body | .countLoop _ _ body => allWrites body
  | .forLoop _ init _ step body => init.write :: step.write :: allWrites body
  | .eachLoop _ item _ body how => (item, how.itemTy r) :: allWrites body
  | _ => []

def allWrites : List Stmt → List (String × Ty)
  | [] => []
  | s :: rest => s.writes ++ allWrites rest

def branchesWrites : Branches → List (String × Ty)
  | .done => []
  | .otherwise body => allWrites body
  | .elseIf _ body rest => allWrites body ++ branchesWrites rest

end

end

section

variable (le : Ty → Ty → Bool) (r : Registry)

mutual

-- What is known behind a statement. Behind a loop, as at the start of each of its rounds, that is what
-- holds whichever of its writes have happened.
def after (K : Facts) : Stmt → Facts
  | .var v => K.set v.write.1 v.write.2
  | .cond _ _ body rest => (allAfter K body).join le (branchesAfter K rest)
  | .whileLoop _ _ body | .countLoop _ _ body => K.widen le (allWrites r body)
  | .forLoop _ init _ step body =>
    (K.set init.write.1 init.write.2).widen le (step.write :: allWrites r body)
  | .eachLoop _ item _ body how => K.widen le ((item, how.itemTy r) :: allWrites r body)
  | _ => K

def allAfter (K : Facts) : List Stmt → Facts
  | [] => K
  | s :: rest => allAfter (after K s) rest

def branchesAfter (K : Facts) : Branches → Facts
  | .done => K
  | .otherwise body => allAfter K body
  | .elseIf _ body rest => (allAfter K body).join le (branchesAfter K rest)

end

mutual

-- All types that are recorded for uses of variables are borne out by the types that are recorded for
-- what is written.
def BorneOut (K : Facts) : Stmt → Prop
  | .var v => v.BorneOut le K
  | .cond _ test body rest =>
    test.Every (Expr.BorneOut le K) ∧ AllBorneOut K body ∧ BranchesBorneOut K rest
  | .whileLoop offset test body =>
    test.Every (Expr.BorneOut le (after le r K (.whileLoop offset test body))) ∧
      AllBorneOut (after le r K (.whileLoop offset test body)) body
  | .forLoop offset init test step body =>
    init.BorneOut le K ∧
      test.Every (Expr.BorneOut le (after le r K (.forLoop offset init test step body))) ∧
      step.BorneOut le (after le r K (.forLoop offset init test step body)) ∧
      AllBorneOut (after le r K (.forLoop offset init test step body)) body
  | .eachLoop offset item source body how =>
    source.Every (Expr.BorneOut le K) ∧ le (how.countTy r) .double = true ∧
      AllBorneOut ((after le r K (.eachLoop offset item source body how)).set item (how.itemTy r)) body
  | .countLoop offset count body =>
    count.Every (Expr.BorneOut le K) ∧ AllBorneOut (after le r K (.countLoop offset count body)) body
  | .ret _ value => ∀ e, value = some e → e.Every (Expr.BorneOut le K)
  | .call _ target => target.Every (Expr.BorneOut le K)
  | .assign _ target value => target.TargetBorneOut le K ∧ value.Every (Expr.BorneOut le K)
  | _ => True

def AllBorneOut (K : Facts) : List Stmt → Prop
  | [] => True
  | s :: rest => BorneOut K s ∧ AllBorneOut (after le r K s) rest

def BranchesBorneOut (K : Facts) : Branches → Prop
  | .done => True
  | .otherwise body => AllBorneOut K body
  | .elseIf test body rest =>
    test.Every (Expr.BorneOut le K) ∧ AllBorneOut K body ∧ BranchesBorneOut K rest

end

end

section

variable (le : Ty → Ty → Bool) (r : Registry)

instance (K : Facts) : (target : Expr) → Decidable (target.TargetBorneOut le K)
  | .member _ owner _ _ _ => inferInstanceAs (Decidable (owner.Every (Expr.BorneOut le K)))
  | .name _ _ | .literal _ _ | .static _ _ _ _ | .new _ _ _ _ | .binary _ _ _ _ | .unary _ _ _
  | .cast _ _ _ => .isTrue trivial

instance (K : Facts) : (v : VarStmt) → Decidable (v.BorneOut le K)
  | .declare _ _ value => inferInstanceAs (Decidable (value.Every (Expr.BorneOut le K)))
  | .update _ name (.compound _ value) current _ =>
    inferInstanceAs (Decidable (le (K name) current = true ∧ value.Every (Expr.BorneOut le K)))
  | .update _ name .increment current _ | .update _ name .decrement current _ =>
    inferInstanceAs (Decidable (le (K name) current = true ∧ True))

mutual

def decBorneOut (K : Facts) : (s : Stmt) → Decidable (s.BorneOut le r K)
  | .var v => inferInstanceAs (Decidable (v.BorneOut le K))
  | .cond _ test body rest =>
    have := decAllBorneOut K body
    have := decBranchesBorneOut K rest
    inferInstanceAs (Decidable
      (test.Every (Expr.BorneOut le K) ∧ AllBorneOut le r K body ∧ BranchesBorneOut le r K rest))
  | .whileLoop offset test body =>
    have := decAllBorneOut (after le r K (.whileLoop offset test body)) body
    inferInstanceAs (Decidable (
      test.Every (Expr.BorneOut le (after le r K (.whileLoop offset test body))) ∧
        AllBorneOut le r (after le r K (.whileLoop offset test body)) body))
  | .forLoop offset init test step body =>
    have := decAllBorneOut (after le r K (.forLoop offset init test step body)) body
    inferInstanceAs (Decidable (init.BorneOut le K ∧
      test.Every (Expr.BorneOut le (after le r K (.forLoop offset init test step body))) ∧
      step.BorneOut le (after le r K (.forLoop offset init test step body)) ∧
        AllBorneOut le r (after le r K (.forLoop offset init test step body)) body))
  | .eachLoop offset item source body how =>
    have := decAllBorneOut
      ((after le r K (.eachLoop offset item source body how)).set item (how.itemTy r)) body
    inferInstanceAs (Decidable (source.Every (Expr.BorneOut le K) ∧ le (how.countTy r) .double = true ∧
      AllBorneOut le r
        ((after le r K (.eachLoop offset item source body how)).set item (how.itemTy r)) body))
  | .countLoop offset count body =>
    have := decAllBorneOut (after le r K (.countLoop offset count body)) body
    inferInstanceAs (Decidable (count.Every (Expr.BorneOut le K) ∧
      AllBorneOut le r (after le r K (.countLoop offset count body)) body))
  | .ret _ none => .isTrue nofun
  | .ret _ (some e) =>
    decidable_of_iff (e.Every (Expr.BorneOut le K))
      ⟨fun h _ he => Option.some.inj he ▸ h, fun h => h e rfl⟩
  | .call _ target => inferInstanceAs (Decidable (target.Every (Expr.BorneOut le K)))
  | .assign _ target value =>
    inferInstanceAs (Decidable (target.TargetBorneOut le K ∧ value.Every (Expr.BorneOut le K)))
  | .using _ _ | .input _ _ _ _ | .leave _ | .again _ | .exit _ | .func _ _ _ _ => .isTrue trivial

def decAllBorneOut (K : Facts) : (ss : List Stmt) → Decidable (AllBorneOut le r K ss)
  | [] => .isTrue trivial
  | s :: rest =>
    have := decBorneOut K s
    have := decAllBorneOut (after le r K s) rest
    inferInstanceAs (Decidable (s.BorneOut le r K ∧ AllBorneOut le r (after le r K s) rest))

def decBranchesBorneOut (K : Facts) : (b : Branches) → Decidable (BranchesBorneOut le r K b)
  | .done => .isTrue trivial
  | .otherwise body => decAllBorneOut K body
  | .elseIf test body rest =>
    have := decAllBorneOut K body
    have := decBranchesBorneOut K rest
    inferInstanceAs (Decidable
      (test.Every (Expr.BorneOut le K) ∧ AllBorneOut le r K body ∧ BranchesBorneOut le r K rest))

end

instance (K : Facts) (ss : List Stmt) : Decidable (AllBorneOut le r K ss) := decAllBorneOut le r K ss

end

end Stmt

-- Where all values are of all types, everything is borne out.
section Always

variable {le : Ty → Ty → Bool}

theorem Expr.borneOut_of_always (h : ∀ t u, le t u = true) (K : Facts) (e : Expr) : e.BorneOut le K := by
  cases e with
  | name m x => exact h _ _
  | _ => trivial

theorem Expr.every_borneOut (h : ∀ t u, le t u = true) (K : Facts) (e : Expr) : e.Every (BorneOut le K) :=
  every_of_always (borneOut_of_always h K) e

theorem VarStmt.borneOut_of_always (h : ∀ t u, le t u = true) (K : Facts) (v : VarStmt) :
    v.BorneOut le K := by
  cases v with
  | declare offset name value => exact Expr.every_borneOut h K value
  | update offset name how current result =>
      refine ⟨h _ _, ?_⟩
      cases how with
      | compound op value => exact Expr.every_borneOut h K value
      | increment => trivial
      | decrement => trivial

mutual

theorem Stmt.borneOut_of_always (h : ∀ t u, le t u = true) (r : Registry) (K : Facts) (s : Stmt) :
    s.BorneOut le r K := by
  cases s with
  | var v => exact VarStmt.borneOut_of_always h K v
  | cond offset test body rest =>
      exact ⟨Expr.every_borneOut h K test, Stmt.allBorneOut_of_always h r K body,
        Stmt.branchesBorneOut_of_always h r K rest⟩
  | whileLoop offset test body =>
      exact ⟨Expr.every_borneOut h _ test, Stmt.allBorneOut_of_always h r _ body⟩
  | forLoop offset init test step body =>
      exact ⟨VarStmt.borneOut_of_always h K init, Expr.every_borneOut h _ test,
        VarStmt.borneOut_of_always h _ step, Stmt.allBorneOut_of_always h r _ body⟩
  | eachLoop offset item source body how =>
      exact ⟨Expr.every_borneOut h K source, h _ _, Stmt.allBorneOut_of_always h r _ body⟩
  | countLoop offset count body =>
      exact ⟨Expr.every_borneOut h K count, Stmt.allBorneOut_of_always h r _ body⟩
  | ret offset value => exact fun e _ => Expr.every_borneOut h K e
  | call offset target => exact Expr.every_borneOut h K target
  | assign offset target value =>
      refine ⟨?_, Expr.every_borneOut h K value⟩
      cases target with
      | member m owner name args binding => exact Expr.every_borneOut h K owner
      | _ => trivial
  | _ => trivial

theorem Stmt.allBorneOut_of_always (h : ∀ t u, le t u = true) (r : Registry) (K : Facts)
    (ss : List Stmt) : Stmt.AllBorneOut le r K ss := by
  cases ss with
  | nil => trivial
  | cons s rest => exact ⟨Stmt.borneOut_of_always h r K s, Stmt.allBorneOut_of_always h r _ rest⟩

theorem Stmt.branchesBorneOut_of_always (h : ∀ t u, le t u = true) (r : Registry) (K : Facts)
    (b : Branches) : Stmt.BranchesBorneOut le r K b := by
  cases b with
  | done => trivial
  | otherwise body => exact Stmt.allBorneOut_of_always h r K body
  | elseIf test body rest =>
      exact ⟨Expr.every_borneOut h K test, Stmt.allBorneOut_of_always h r K body,
        Stmt.branchesBorneOut_of_always h r K rest⟩

end

end Always

-- A way to compare types under which two types that do not compare have only `dynamic` above both.
structure Ty.Orders (le : Ty → Ty → Bool) : Prop where
  refl : ∀ t, le t t = true
  dynamic : ∀ t, le t .dynamic = true
  apart : ∀ t u v, le t v = true → le u v = true → le t u = false → le u t = false →
    le .dynamic v = true

namespace Ty

-- Whatever the values of two types are, those of both together are.
theorem Orders.join {le : Ty → Ty → Bool} (hle : Orders le) {t u v : Ty} (ht : le t v = true)
    (hu : le u v = true) : le (t.join le u) v = true := by
  unfold Ty.join
  split
  · exact hu
  · split
    · exact ht
    · exact hle.apart t u v ht hu (by simpa using ‹¬le t u = true›) (by simpa using ‹¬le u t = true›)

theorem orders_conformsTo : Orders conformsTo where
  refl t := by cases t <;> rfl
  dynamic t := by cases t <;> rfl
  apart t u v ht hu htu hut := by
    -- Two types that have nothing in common are only both part of `dynamic`.
    cases v with
    | dynamic => rfl
    | _ => cases t <;> first | (cases ht; done) | (cases u <;> simp_all [conformsTo])

theorem orders_wholeTo : Orders wholeTo where
  refl t := by simp [wholeTo]
  dynamic t := by simp [wholeTo]
  apart t u v ht hu htu hut := by
    simp only [wholeTo, Bool.or_eq_false_iff, decide_eq_false_iff_not, not_not] at htu hut
    exact absurd htu.1 hut.2

end Ty

-- Everything that is known in a context is also told by the facts.
def Facts.Refines (le : Ty → Ty → Bool) (K : Facts) (Γ : TypeContext) : Prop :=
  ∀ name ty, Γ.lookup name = some ty → le (K name) ty = true

section

variable {le : Ty → Ty → Bool}

namespace Facts.Refines

variable {K K' : Facts} {Γ Γ₁ : TypeContext} {name : String} {ty : Ty}

theorem set (hle : Ty.Orders le) (h : K.Refines le Γ) :
    (K.set name ty).Refines le (Γ.set name ty) := by
  intro x t hx
  rcases TypeContext.lookup_set hx with ⟨rfl, rfl⟩ | ⟨hne, hold⟩
  · simp [Facts.set, hle.refl]
  · simpa [Facts.set, hne] using h x t hold

-- A variable that was known already.
theorem learn (h : K.Refines le Γ) (hname : le (K name) ty = true) :
    K.Refines le (Γ.set name ty) := by
  intro x t hx
  rcases TypeContext.lookup_set hx with ⟨rfl, rfl⟩ | ⟨-, hold⟩
  · exact hname
  · exact h x t hold

theorem push (h : K.Refines le Γ) (kind : FrameKind) : K.Refines le (Γ.push kind) :=
  fun x t hx => h x t ((TypeContext.lookup_push kind).symm.trans hx)

theorem join (hle : Ty.Orders le) (h : K.Refines le Γ) (h' : K'.Refines le Γ) :
    (K.join le K').Refines le Γ :=
  fun x t hx => hle.join (h x t hx) (h' x t hx)

-- Behind a branch that was run.
theorem leave (hle : Ty.Orders le) (hΓ : Γ.frames ≠ []) (hbeside : (Γ.push .condition).Beside Γ₁)
    (h : K.Refines le Γ₁) : K.Refines le Γ₁.pop := by
  obtain ⟨f, hframes, -, hpop⟩ := TypeContext.exists_pop hΓ hbeside
  intro x t hx
  rw [hpop] at hx
  rcases TypeContext.lookup_merge hx with rfl | ⟨hold, hsame⟩
  · exact hle.dynamic _
  · refine h x t ?_
    rw [TypeContext.lookup_cons hframes]
    cases hbinding : f.bindings.lookup x with
    | none => exact hold
    | some u =>
        obtain ⟨l₁, l₂, hl, -⟩ := List.lookup_eq_some_iff.mp hbinding
        exact congrArg some (hsame (x, u) (by simp [hl]) rfl)

-- Behind a branch that was not run.
theorem skip (hle : Ty.Orders le) (hΓ : Γ.frames ≠ []) (hbeside : (Γ.push .condition).Beside Γ₁)
    (h : K.Refines le Γ) : K.Refines le Γ₁.pop := by
  obtain ⟨f, -, -, hpop⟩ := TypeContext.exists_pop hΓ hbeside
  intro x t hx
  rw [hpop] at hx
  rcases TypeContext.lookup_merge hx with rfl | ⟨hold, -⟩
  · exact hle.dynamic _
  · exact h x t hold

theorem borneOut (h : K.Refines le Γ) {e : Expr} (he : e.Every (Expr.Consistent r Γ)) :
    e.Every (Expr.BorneOut le K) := by
  refine he.imp fun e he => ?_
  cases e with
  | name m x => exact h x m.ty he
  | _ => trivial

end Facts.Refines

-- Without loops, the types that are recorded for the uses of variables are borne out: that is what is
-- known of them in the context.
section LoopFree

variable {K : Facts}

theorem VarStmt.Typed.borneOut {Γ Γ' : TypeContext} {v : VarStmt} (hle : Ty.Orders le)
    (h : v.Typed r t Γ Γ') (hK : K.Refines le Γ) :
    v.BorneOut le K ∧ (K.set v.write.1 v.write.2).Refines le Γ' := by
  cases h with
  | declare hvalue => exact ⟨hK.borneOut hvalue, hK.set hle⟩
  | @update offset name how current result hcurrent hhow =>
      refine ⟨⟨hK name current hcurrent, ?_⟩, hK.set hle⟩
      cases how with
      | compound op value => exact hK.borneOut hhow
      | increment => trivial
      | decrement => trivial

namespace Stmt

-- Branches that are not run at all leave what is known of the variables true.
theorem BranchesTyped.refines {Γ Γ' : TypeContext} (hle : Ty.Orders le) (b : Branches)
    (h : BranchesTyped r t Γ b Γ') (hfree : BranchesLoopFree b) (hΓ : Γ.frames ≠ [])
    (hK : K.Refines le Γ) : K.Refines le Γ' := by
  cases b with
  | done =>
      cases h
      exact hK
  | otherwise body =>
      cases h with
      | otherwise hbody => exact hK.skip hle hΓ (hbody.beside hfree TypeContext.push_ne_nil)
  | elseIf test body rest =>
      cases h with
      | elseIf _ _ hbody hrest =>
          have hbeside := hbody.beside hfree.1 TypeContext.push_ne_nil
          exact BranchesTyped.refines hle rest hrest hfree.2 (TypeContext.beside_pop hΓ hbeside).nonempty
            (hK.skip hle hΓ hbeside)

mutual

theorem Typed.borneOut {K : Facts} {Γ Γ' : TypeContext} {s : Stmt} (hle : Ty.Orders le)
    (h : s.Typed r t Γ Γ') (hfree : s.LoopFree) (hΓ : Γ.frames ≠ []) (hK : K.Refines le Γ) :
    s.BorneOut le r K ∧ (s.after le r K).Refines le Γ' := by
  cases h with
  | var hv => exact hv.borneOut hle hK
  | cond htest _ hbody hrest =>
      have hbeside := hbody.beside hfree.1 TypeContext.push_ne_nil
      have hbehind := (TypeContext.beside_pop hΓ hbeside).nonempty
      obtain ⟨hbody', hK₁⟩ := hbody.borneOut hle hfree.1 TypeContext.push_ne_nil (hK.push _)
      obtain ⟨hrest', hK₂⟩ := hrest.borneOut hle hfree.2 hbehind (hK.skip hle hΓ hbeside)
      have hK₁' := BranchesTyped.refines hle _ hrest hfree.2 hbehind (hK₁.leave hle hΓ hbeside)
      exact ⟨⟨hK.borneOut htest, hbody', hrest'⟩, hK₁'.join hle hK₂⟩
  | ret hvalue => exact ⟨fun e he => hK.borneOut (hvalue e he), hK⟩
  | call htarget => exact ⟨hK.borneOut htarget, hK⟩
  | @assign _ offset target value htarget hvalue =>
      refine ⟨⟨?_, hK.borneOut hvalue⟩, hK⟩
      cases target with
      | member m owner name args binding => exact hK.borneOut htarget
      | _ => trivial
  | whileLoop => exact hfree.elim
  | forLoop => exact hfree.elim
  | eachLoop => exact hfree.elim
  | countLoop => exact hfree.elim
  | _ => exact ⟨trivial, hK⟩

theorem AllTyped.borneOut {K : Facts} {Γ Γ' : TypeContext} {ss : List Stmt}
    (hle : Ty.Orders le) (h : AllTyped r t Γ ss Γ') (hfree : AllLoopFree ss) (hΓ : Γ.frames ≠ [])
    (hK : K.Refines le Γ) :
    AllBorneOut le r K ss ∧ (allAfter le r K ss).Refines le Γ' := by
  cases h with
  | nil => exact ⟨trivial, hK⟩
  | cons hs hrest =>
      obtain ⟨hs', hK₁⟩ := hs.borneOut hle hfree.1 hΓ hK
      obtain ⟨hrest', hK₂⟩ := hrest.borneOut hle hfree.2 (hs.beside hfree.1 hΓ).nonempty hK₁
      exact ⟨⟨hs', hrest'⟩, hK₂⟩

theorem BranchesTyped.borneOut {K : Facts} {Γ Γ' : TypeContext} {b : Branches}
    (hle : Ty.Orders le) (h : BranchesTyped r t Γ b Γ') (hfree : BranchesLoopFree b)
    (hΓ : Γ.frames ≠ []) (hK : K.Refines le Γ) :
    BranchesBorneOut le r K b ∧ (branchesAfter le r K b).Refines le Γ' := by
  cases h with
  | done => exact ⟨trivial, hK⟩
  | otherwise hbody =>
      obtain ⟨hbody', hK₁⟩ := hbody.borneOut hle hfree TypeContext.push_ne_nil (hK.push _)
      exact ⟨hbody', hK₁.leave hle hΓ (hbody.beside hfree TypeContext.push_ne_nil)⟩
  | elseIf htest _ hbody hrest =>
      have hbeside := hbody.beside hfree.1 TypeContext.push_ne_nil
      have hbehind := (TypeContext.beside_pop hΓ hbeside).nonempty
      obtain ⟨hbody', hK₁⟩ := hbody.borneOut hle hfree.1 TypeContext.push_ne_nil (hK.push _)
      obtain ⟨hrest', hK₂⟩ := hrest.borneOut hle hfree.2 hbehind (hK.skip hle hΓ hbeside)
      have hK₁' := BranchesTyped.refines hle _ hrest hfree.2 hbehind (hK₁.leave hle hΓ hbeside)
      exact ⟨⟨hK.borneOut htest, hbody', hrest'⟩, hK₁'.join hle hK₂⟩

end

end Stmt

theorem Script.Typed.borneOut {Γ Γ' : TypeContext} {script : Script} (hle : Ty.Orders le)
    (h : script.Typed r t Γ Γ') (hfree : Stmt.AllLoopFree script) (hΓ : Γ.frames ≠ [])
    (hinputs : ∀ v ∈ script.inputs, le (K v.name) v.ty = true) (hK : K.Refines le Γ) :
    Stmt.AllBorneOut le r K script ∧ (Stmt.allAfter le r K script).Refines le Γ' := by
  induction h with
  | «using» hrest ih =>
      obtain ⟨hborne, hK'⟩ := ih hfree.2 hΓ hinputs hK
      exact ⟨⟨trivial, hborne⟩, hK'⟩
  | input hholds hrest ih =>
      obtain ⟨hone, hall⟩ := List.forall_mem_cons.mp hinputs
      obtain ⟨hborne, hK'⟩ := ih hfree.2 (TypeContext.beside_set hΓ).nonempty hall (hK.learn hone)
      exact ⟨⟨trivial, hborne⟩, hK'⟩
  | body hbody => exact hbody.borneOut hle hfree hΓ hK

end LoopFree

end

end HostScript
