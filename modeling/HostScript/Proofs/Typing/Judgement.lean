import HostScript.Compile.Basic
import HostScript.Proofs.Script.Every

namespace HostScript

namespace SymbolTable

-- A variable that was entered and may hold a text or an object.
def Holds (t : SymbolTable) (name : String) : Prop :=
  ∃ s, t.get? name = some s ∧ s.mayHoldRef = true

-- What a later table still says.
def Grows (t t' : SymbolTable) : Prop :=
  ∀ name, t.Holds name → t'.Holds name

variable {t t' t'' : SymbolTable} {name : String}

theorem Grows.refl (t : SymbolTable) : t.Grows t :=
  fun _ h => h

theorem Grows.trans (h : t.Grows t') (h' : t'.Grows t'') : t.Grows t'' :=
  fun name hname => h' name (h name hname)

theorem Holds.mayHoldRef (h : t.Holds name) : t.mayHoldRef name = true := by
  obtain ⟨s, hs, hflag⟩ := h
  rw [SymbolTable.mayHoldRef, hs]
  exact hflag

section

variable {offset : Nat} {holdsRef isInput : Bool}

-- A use is noted for its own variable, which is entered if it was not there.
theorem get?_record (x : String) : (t.record name offset holdsRef isInput).get? x =
    ((t.get? x).or (if x = name then some { name := name } else none)).map fun s =>
      if s.name = name then
        { s with usages := s.usages ++ [offset], mayHoldRef := s.mayHoldRef || holdsRef,
                 isInput := s.isInput || isInput }
      else s := by
  have hknown : (if (t.get? name).isSome then t.symbols else t.symbols ++ [{ name := name }]).find?
      (·.name = x) = (t.get? x).or (if x = name then some { name := name } else none) := by
    split
    · rename_i hsome
      by_cases hx : x = name
      · obtain ⟨s, hs⟩ := Option.isSome_iff_exists.mp hsome
        subst hx
        rw [hs]
        exact hs
      · rw [if_neg hx, Option.or_none]
        rfl
    · rw [List.find?_append, List.find?_singleton]
      simp [eq_comm, SymbolTable.get?]
  simp only [SymbolTable.get?, record, List.find?_map] at hknown ⊢
  rw [← hknown]
  congr 2
  funext s
  simp only [Function.comp]
  split <;> rfl

theorem grows_record : t.Grows (t.record name offset holdsRef isInput) := by
  rintro x ⟨s, hs, hflag⟩
  refine ⟨_, by rw [get?_record, hs]; rfl, ?_⟩
  dsimp only
  split
  · simp [hflag]
  · exact hflag

theorem holds_record : (t.record name offset true isInput).Holds name := by
  have hentry : ∃ s, (t.get? name).or (some { name := name }) = some s ∧ s.name = name := by
    cases h : t.get? name with
    | none => exact ⟨_, rfl, rfl⟩
    | some s => exact ⟨s, rfl, by simpa using List.find?_some h⟩
  obtain ⟨s, hs, hname⟩ := hentry
  refine ⟨_, by rw [get?_record, if_pos rfl, hs]; rfl, ?_⟩
  simp [hname]

end

end SymbolTable

def StaticBinding.HasType (r : Registry) (ty : Ty) : StaticBinding → Prop
  | .method id => ∀ d, r.methods[id]? = some d → d.returns = ty
  | .property id => ∀ d, r.properties[id]? = some d → d.ty = ty
  | .const value => value.ty = ty
  | .unresolved => True

def MemberBinding.HasType (r : Registry) (ty : Ty) : MemberBinding → Prop
  | .method id => ∀ d, r.methods[id]? = some d → d.returns = ty
  | .property id => ∀ d, r.properties[id]? = some d → d.ty = ty
  | .dynamic => ty = .dynamic
  | .unresolved => True

-- How a source of a type is walked, and the type that is known of its items.
def Iteration.Walks (r : Registry) (itemTy : Ty) (how : Iteration) : Ty → Prop
  | .dynamic => how = .dynamic ∧ itemTy = .dynamic
  | .object id => ∃ it, r.types[id]?.bind (·.iteration) = some it ∧
      how = .members it.count it.getItem ∧ ∀ d, r.methods[it.getItem]? = some d → d.returns = itemTy
  | _ => False

-- The type that is recorded for an expression goes with those of its parts, with what is known of
-- the variables, and with what the registry declares.
def Expr.Consistent (r : Registry) (Γ : TypeContext) : Expr → Prop
  | .name m x => Γ.lookup x = some m.ty
  | .literal m value => m.ty = value.ty
  | .static m _ _ binding => binding.HasType r m.ty
  | .member m _ _ _ binding => binding.HasType r m.ty
  | .new m _ _ _ => ∃ id, m.ty = .object id
  | .binary m op lhs rhs => op.result? lhs.ty rhs.ty = some m.ty
  | .unary m op operand => op.result? operand.ty = some m.ty
  | .cast _ _ _ => True

def Expr.TargetConsistent (r : Registry) (Γ : TypeContext) : Expr → Prop
  | .member _ owner _ _ _ => owner.Every (Consistent r Γ)
  | _ => True

-- What is known of the variables before and after a statement, and that each one which may get a
-- text or an object is marked.
inductive VarStmt.Typed (r : Registry) (t : SymbolTable) (Γ : TypeContext) :
    VarStmt → TypeContext → Prop
  | declare {offset : Nat} {name : String} {value : Expr} :
      value.Every (Expr.Consistent r Γ) → value.ty ≠ .void →
      (value.ty.mayBeRef = true → t.Holds name) →
      Typed r t Γ (.declare offset name value) (Γ.set name value.ty)
  | update {offset : Nat} {name : String} {how : Change} {current result : Ty} :
      Γ.lookup name = some current → how.Every (Expr.Consistent r Γ) →
      (BinaryOp.arith how.op).result? current how.ty = some result →
      (result.mayBeRef = true → t.Holds name) →
      Typed r t Γ (.update offset name how current result) (Γ.set name result)

mutual

inductive Stmt.Typed (r : Registry) (t : SymbolTable) : TypeContext → Stmt → TypeContext → Prop
  | var {Γ Γ' : TypeContext} {v : VarStmt} : v.Typed r t Γ Γ' → Typed r t Γ (.var v) Γ'
  | cond {Γ Γ₁ Γ₂ : TypeContext} {offset : Nat} {test : Expr} {body : List Stmt} {rest : Branches} :
      test.Every (Expr.Consistent r Γ) → test.ty.mayBeBool = true →
      AllTyped r t (Γ.push .condition) body Γ₁ → BranchesTyped r t Γ₁.pop rest Γ₂ →
      Typed r t Γ (.cond offset test body rest) Γ₂
  | whileLoop {Γ Γ₁ Γ₂ : TypeContext} {offset : Nat} {test : Expr} {body : List Stmt} :
      test.Every (Expr.Consistent r Γ₁) → test.ty.mayBeBool = true → AllTyped r t Γ₁ body Γ₂ →
      Typed r t Γ (.whileLoop offset test body) Γ₂.pop
  | forLoop {Γ Γ₀ Γ₁ Γ₂ Γ₃ : TypeContext} {offset : Nat} {init step : VarStmt} {test : Expr}
      {body : List Stmt} :
      init.Typed r t Γ Γ₀ → test.Every (Expr.Consistent r Γ₁) → test.ty.mayBeBool = true →
      AllTyped r t Γ₁ body Γ₂ → step.Typed r t Γ₂ Γ₃ →
      Typed r t Γ (.forLoop offset init test step body) Γ₃.pop
  | eachLoop {Γ Γ₁ Γ₂ : TypeContext} {offset : Nat} {item : String} {source : Expr}
      {body : List Stmt} {how : Iteration} {itemTy : Ty} :
      source.Every (Expr.Consistent r Γ) → how.Walks r itemTy source.ty →
      (itemTy.mayBeRef = true → t.Holds item) → AllTyped r t (Γ₁.set item itemTy) body Γ₂ →
      Typed r t Γ (.eachLoop offset item source body how) Γ₂.pop
  | countLoop {Γ Γ₁ Γ₂ : TypeContext} {offset : Nat} {count : Expr} {body : List Stmt} :
      count.Every (Expr.Consistent r Γ) → count.ty.mayBeNumber = true → AllTyped r t Γ₁ body Γ₂ →
      Typed r t Γ (.countLoop offset count body) Γ₂.pop
  | leave {Γ : TypeContext} {offset : Nat} : Typed r t Γ (.leave offset) Γ
  | again {Γ : TypeContext} {offset : Nat} : Typed r t Γ (.again offset) Γ
  | ret {Γ : TypeContext} {offset : Nat} {value : Option Expr} :
      (∀ e, value = some e → e.Every (Expr.Consistent r Γ)) → Typed r t Γ (.ret offset value) Γ
  | exit {Γ : TypeContext} {offset : Nat} : Typed r t Γ (.exit offset) Γ
  | call {Γ : TypeContext} {offset : Nat} {target : Expr} :
      target.Every (Expr.Consistent r Γ) → Typed r t Γ (.call offset target) Γ
  | assign {Γ : TypeContext} {offset : Nat} {target value : Expr} :
      target.TargetConsistent r Γ → value.Every (Expr.Consistent r Γ) →
      Typed r t Γ (.assign offset target value) Γ

inductive Stmt.AllTyped (r : Registry) (t : SymbolTable) :
    TypeContext → List Stmt → TypeContext → Prop
  | nil {Γ : TypeContext} : AllTyped r t Γ [] Γ
  | cons {Γ Γ₁ Γ₂ : TypeContext} {s : Stmt} {rest : List Stmt} :
      Typed r t Γ s Γ₁ → AllTyped r t Γ₁ rest Γ₂ → AllTyped r t Γ (s :: rest) Γ₂

inductive Stmt.BranchesTyped (r : Registry) (t : SymbolTable) :
    TypeContext → Branches → TypeContext → Prop
  | done {Γ : TypeContext} : BranchesTyped r t Γ .done Γ
  | otherwise {Γ Γ₁ : TypeContext} {body : List Stmt} :
      AllTyped r t (Γ.push .condition) body Γ₁ → BranchesTyped r t Γ (.otherwise body) Γ₁.pop
  | elseIf {Γ Γ₁ Γ₂ : TypeContext} {test : Expr} {body : List Stmt} {rest : Branches} :
      test.Every (Expr.Consistent r Γ) → test.ty.mayBeBool = true →
      AllTyped r t (Γ.push .condition) body Γ₁ → BranchesTyped r t Γ₁.pop rest Γ₂ →
      BranchesTyped r t Γ (.elseIf test body rest) Γ₂

end

namespace Stmt

mutual

-- All statements inside a statement.
def within : Stmt → List Stmt
  | .cond _ _ body rest => allWithin body ++ branchesWithin rest
  | .whileLoop _ _ body | .forLoop _ _ _ _ body | .eachLoop _ _ _ body _ | .countLoop _ _ body
  | .func _ _ _ body => allWithin body
  | _ => []

def allWithin : List Stmt → List Stmt
  | [] => []
  | s :: rest => s :: (s.within ++ allWithin rest)

def branchesWithin : Branches → List Stmt
  | .done => []
  | .otherwise body => allWithin body
  | .elseIf _ body rest => allWithin body ++ branchesWithin rest

end

variable {r : Registry} {t : SymbolTable}

mutual

-- Every statement inside was checked in some context.
theorem Typed.within {Γ Γ' : TypeContext} {s x : Stmt} (h : s.Typed r t Γ Γ') (hx : x ∈ s.within) :
    ∃ Γ₁ Γ₂, x.Typed r t Γ₁ Γ₂ := by
  cases h with
  | cond _ _ hbody hrest =>
      rcases List.mem_append.mp hx with hx | hx
      · exact hbody.within hx
      · exact hrest.within hx
  | whileLoop _ _ hbody => exact hbody.within hx
  | forLoop _ _ _ hbody _ => exact hbody.within hx
  | eachLoop _ _ _ hbody => exact hbody.within hx
  | countLoop _ _ hbody => exact hbody.within hx
  | _ => exact (List.not_mem_nil hx).elim

theorem AllTyped.within {Γ Γ' : TypeContext} {ss : List Stmt} {x : Stmt} (h : AllTyped r t Γ ss Γ')
    (hx : x ∈ allWithin ss) : ∃ Γ₁ Γ₂, x.Typed r t Γ₁ Γ₂ := by
  cases h with
  | nil => exact (List.not_mem_nil hx).elim
  | cons hs hrest =>
      rcases List.mem_cons.mp hx with rfl | hx
      · exact ⟨_, _, hs⟩
      · rcases List.mem_append.mp hx with hx | hx
        · exact hs.within hx
        · exact hrest.within hx

theorem BranchesTyped.within {Γ Γ' : TypeContext} {b : Branches} {x : Stmt}
    (h : BranchesTyped r t Γ b Γ') (hx : x ∈ branchesWithin b) : ∃ Γ₁ Γ₂, x.Typed r t Γ₁ Γ₂ := by
  cases h with
  | done => exact (List.not_mem_nil hx).elim
  | otherwise hbody => exact hbody.within hx
  | elseIf _ _ hbody hrest =>
      rcases List.mem_append.mp hx with hx | hx
      · exact hbody.within hx
      · exact hrest.within hx

end

end Stmt

-- A whole script: imports and inputs come before everything else.
inductive Script.Typed (r : Registry) (t : SymbolTable) : TypeContext → Script → TypeContext → Prop
  | using {Γ Γ' : TypeContext} {offset : Nat} {ns : String} {rest : Script} :
      Typed r t Γ rest Γ' → Typed r t Γ (.using offset ns :: rest) Γ'
  | input {Γ Γ' : TypeContext} {offset : Nat} {name : String} {typeName : Option String} {ty : Ty}
      {rest : Script} : (ty.mayBeRef = true → t.Holds name) →
      Typed r t (Γ.set name ty) rest Γ' → Typed r t Γ (.input offset name typeName ty :: rest) Γ'
  | body {Γ Γ' : TypeContext} {ss : List Stmt} : Stmt.AllTyped r t Γ ss Γ' → Typed r t Γ ss Γ'

def Stmt.input? : Stmt → Option InputVar
  | .input _ name _ ty => some ⟨name, ty⟩
  | _ => none

-- The inputs that a script declares, in order.
def Script.inputs (s : Script) : List InputVar :=
  s.filterMap (·.input?)

variable {r : Registry} {t : SymbolTable} {Γ Γ' : TypeContext}

-- The first part of a script was checked by itself.
theorem Stmt.AllTyped.of_append {first rest : List Stmt} (h : AllTyped r t Γ (first ++ rest) Γ') :
    ∃ Γ₁, AllTyped r t Γ first Γ₁ := by
  induction first generalizing Γ with
  | nil => exact ⟨Γ, .nil⟩
  | cons s first ih =>
      cases h with
      | cons hs hrest =>
          obtain ⟨Γ₁, hfirst⟩ := ih hrest
          exact ⟨Γ₁, .cons hs hfirst⟩

theorem Script.Typed.of_append {first rest : Script} (h : Script.Typed r t Γ (first ++ rest) Γ') :
    ∃ Γ₁, first.Typed r t Γ Γ₁ := by
  induction first generalizing Γ with
  | nil => exact ⟨Γ, .body .nil⟩
  | cons s first ih =>
      cases h with
      | «using» hrest =>
          obtain ⟨Γ₁, hfirst⟩ := ih hrest
          exact ⟨Γ₁, .using hfirst⟩
      | input hholds hrest =>
          obtain ⟨Γ₁, hfirst⟩ := ih hrest
          exact ⟨Γ₁, .input hholds hfirst⟩
      | body hbody =>
          obtain ⟨Γ₁, hfirst⟩ := Stmt.AllTyped.of_append hbody
          exact ⟨Γ₁, .body hfirst⟩

theorem Stmt.Typed.input?_eq {s : Stmt} (h : s.Typed r t Γ Γ') : s.input? = none := by
  cases h <;> rfl

theorem Stmt.AllTyped.inputs_eq {ss : List Stmt} (h : AllTyped r t Γ ss Γ') :
    Script.inputs ss = [] := by
  induction ss generalizing Γ with
  | nil => rfl
  | cons s rest ih =>
      cases h with
      | cons hs hrest => exact (List.filterMap_cons_none hs.input?_eq).trans (ih hrest)

-- A loop over items was checked with the source of its items, and its variable is marked if the items
-- may be texts or objects.
theorem Script.Typed.eachLoop {script : Script} (h : script.Typed r t Γ Γ') {offset : Nat}
    {item : String} {source : Expr} {body : List Stmt} {how : Iteration}
    (hmem : .eachLoop offset item source body how ∈ Stmt.allWithin script) :
    ∃ itemTy, how.Walks r itemTy source.ty ∧ (itemTy.mayBeRef = true → t.Holds item) := by
  induction h with
  | «using» hrest ih =>
      rcases List.mem_cons.mp hmem with hnot | hmem
      · cases hnot
      · exact ih hmem
  | input hholds hrest ih =>
      rcases List.mem_cons.mp hmem with hnot | hmem
      · cases hnot
      · exact ih hmem
  | body hbody =>
      obtain ⟨_, _, hloop⟩ := hbody.within hmem
      cases hloop with
      | eachLoop _ hwalks hholds _ => exact ⟨_, hwalks, hholds⟩

-- An input that may be a text or an object is marked.
theorem Script.Typed.holds {script : Script} (h : script.Typed r t Γ Γ') {v : InputVar}
    (hv : v ∈ script.inputs) (hty : v.ty.mayBeRef = true) : t.Holds v.name := by
  induction h with
  | «using» hrest ih => exact ih hv
  | input hholds hrest ih =>
      rcases List.mem_cons.mp hv with rfl | hv
      · exact hholds hty
      · exact ih hv
  | body hbody =>
      rw [hbody.inputs_eq] at hv
      exact (List.not_mem_nil hv).elim

end HostScript
