import HostScript.Proofs.Compile.Output
import HostScript.Proofs.Machine.Vetting

namespace HostScript

-- What is passed to a member: for each value the type that is declared for it, and the type that is
-- known of it.
abbrev Passed := List (Ty × Ty)

-- The types of arguments with those of their parameters.
def passedTo (params : List Ty) (args : List Expr) : Passed :=
  params.zip (args.map (·.ty))

namespace Registry

def methodParams (r : Registry) (id : Nat) : List Ty :=
  (r.methods[id]?.map (·.params)).getD []

def constructorParams (r : Registry) (id : Nat) : List Ty :=
  (r.constructors[id]?.map (·.params)).getD []

def propertyTy (r : Registry) (id : Nat) : Ty :=
  (r.properties[id]?.map (·.ty)).getD .dynamic

end Registry

namespace Expr

mutual

-- Where in the code of an expression, which starts at `p`, values are passed to members that are
-- picked by their numbers, and what is passed there.
def sites (r : Registry) (p : Nat) : Expr → List (Nat × Passed)
  | .static _ _ args (.method id) =>
    let params := r.methodParams id
    sitesAll r p args ++ [(p + widthAll r args + guardsWidth params args, passedTo params args)]
  | .member _ target _ args binding =>
    match binding with
    | .method id =>
      let params := r.methodParams id
      let start := p + target.width r
      target.sites r p ++ sitesAll r start args ++
        [(start + widthAll r args + guardsWidth params args, passedTo params args)]
    | .dynamic => target.sites r p ++ sitesAll r (p + target.width r) args
    | _ => target.sites r p
  | .new _ _ args (some id) =>
    let params := r.constructorParams id
    sitesAll r p args ++ [(p + widthAll r args + guardsWidth params args, passedTo params args)]
  | .binary _ op lhs rhs =>
    let start := p + lhs.width r
    lhs.sites r p ++ rhs.sites r (if op = .and ∨ op = .or then start + 5 else start)
  | .unary _ op operand =>
    match Emit.folded? op operand with
    | some _ => []
    | none => operand.sites r p
  | _ => []

def sitesAll (r : Registry) (p : Nat) : List Expr → List (Nat × Passed)
  | [] => []
  | e :: rest => e.sites r p ++ sitesAll r (p + e.width r) rest

end

end Expr

def Change.sites (r : Registry) (p : Nat) : Change → List (Nat × Passed)
  | .compound _ value => value.sites r p
  | .increment | .decrement => []

def VarStmt.sites (r : Registry) (p : Nat) : VarStmt → List (Nat × Passed)
  | .declare _ _ value => value.sites r p
  | .update _ _ how _ _ => how.sites r (p + 2)

-- An item is asked for with the number of the round.
def Iteration.sites (r : Registry) (p : Nat) : Iteration → List (Nat × Passed)
  | .members _ getItem => [(p + 4, (r.methodParams getItem).zip [.long])]
  | _ => []

namespace Stmt

-- A value that is assigned is passed to the property.
def assignSites (r : Registry) (p : Nat) (target value : Expr) : List (Nat × Passed) :=
  match target with
  | .static _ _ _ (.property id) =>
    let declared := r.propertyTy id
    value.sites r p ++
      [(p + value.width r + checkWidth declared value.ty, [(declared, value.ty)])]
  | .member _ owner _ _ (.property id) =>
    let declared := r.propertyTy id
    let start := p + owner.width r
    owner.sites r p ++ value.sites r start ++
      [(start + value.width r + checkWidth declared value.ty, [(declared, value.ty)])]
  | .member _ owner _ _ .dynamic => owner.sites r p ++ value.sites r (p + owner.width r)
  | _ => []

def countSites (r : Registry) (level p : Nat) (count : Expr) (body : List Stmt) :
    List (Nat × Passed) :=
  if level ≥ 1 && !Emit.anyEscapes body && (Emit.literalCount? count).isSome then []
  else count.sites r p

mutual

-- The same for a statement.
def sites (r : Registry) (level p : Nat) : Stmt → List (Nat × Passed)
  | .var v => v.sites r p
  | .cond _ test body rest =>
    let start := p + test.width r + 5
    test.sites r p ++ sitesAll r level start body ++
      sitesBranches r level (start + widthAll r level body + 5) rest
  | .whileLoop _ test body => test.sites r p ++ sitesAll r level (p + test.width r + 5) body
  | .forLoop _ init test step body =>
    let top := p + init.width r
    let start := top + test.width r + 5
    init.sites r p ++ test.sites r top ++ sitesAll r level start body ++
      step.sites r (start + widthAll r level body)
  | .eachLoop _ _ source body how =>
    let start := p + eachStart r source how
    source.sites r p ++ (how.sites r (start - how.itemWidth) ++ sitesAll r level start body)
  | .countLoop _ count body =>
    countSites r level p count body ++ sitesAll r level (p + countStart r level count body) body
  | .ret _ (some value) => value.sites r p
  | .call _ target => target.sites r p
  | .assign _ target value => assignSites r p target value
  | _ => []

def sitesAll (r : Registry) (level p : Nat) : List Stmt → List (Nat × Passed)
  | [] => []
  | s :: rest => s.sites r level p ++ sitesAll r level (p + s.width r level) rest

def sitesBranches (r : Registry) (level p : Nat) : Branches → List (Nat × Passed)
  | .done => []
  | .otherwise body => sitesAll r level p body
  | .elseIf test body rest =>
    let start := p + test.width r + 5
    test.sites r p ++ sitesAll r level start body ++
      sitesBranches r level (start + widthAll r level body + 5) rest

end

end Stmt

open CompiledScript

variable {L : Layout} {p q : Nat} {params : List Ty} {args : List Expr} {above : Nat}

-- Checks in a row do not undo each other.
theorem GuardsCode.keeps {ty : Ty} {depth : Nat} (h : GuardsCode L params args above p q)
    (hvets : L.script.Vets ty depth p) : L.script.Vets ty depth q := by
  induction h with
  | params => exact hvets
  | args => exact hvets
  | needed _ hat _ ih => exact ih (hvets.later hat rfl)
  | skipped _ _ ih => exact ih hvets

-- Every argument that needs a check is checked at its depth, as far as that can be written down.
theorem GuardsCode.vets (h : GuardsCode L params args above p q) (hp : L.script.Whole 0 p) {k : Nat}
    {param : Ty} {arg : Expr} (hparam : params[k]? = some param) (harg : args[k]? = some arg)
    (hneeds : Emit.needsGuard param arg.ty = true) :
    L.script.Vets (TypeGuard.checked param) (min (above - k) 255) q := by
  induction h generalizing k with
  | params => simp at hparam
  | args => simp at harg
  | @needed _ _ _ above _ _ _ _ _ hat hrest ih =>
      cases k with
      | zero =>
          cases hparam
          cases harg
          refine hrest.keeps (.here hp hat ?_)
          simp [Instr.check?]
      | succ k =>
          have hlater := ih (hp.append (.one hat trivial)) hparam harg
          rwa [Nat.sub_sub, Nat.add_comm] at hlater
  | @skipped _ _ above _ _ _ _ hskip _ ih =>
      cases k with
      | zero =>
          cases hparam
          cases harg
          rw [hneeds] at hskip
          cases hskip
      | succ k =>
          have hlater := ih hp hparam harg
          rwa [Nat.sub_sub, Nat.add_comm] at hlater

namespace Layout

-- At the place stands an instruction that passes so many values, behind checks of all those of which
-- nothing is known, unless they lie too deep in the stack.
structure Guarded (L : Layout) (site : Nat × Passed) : Prop where
  instr : ∃ i q, L.At site.1 i q ∧ i.passes? L.registry = some site.2.length
  vets : ∀ (k : Nat) param, site.2[k]? = some (param, .dynamic) → param ≠ .dynamic → param ≠ .void →
    site.2.length ≤ k + 256 → L.script.Vets param (site.2.length - 1 - k) site.1

-- The values that the part of the code between two places passes are passed at the given places.
structure Sited (L : Layout) (p q : Nat) (sites : List (Nat × Passed)) : Prop where
  rows : L.script.Rows (fun x i _ => i.passes? L.registry ≠ none → ∃ site ∈ sites, site.1 = x) p q
  guarded : L.script.Whole 0 p → ∀ site ∈ sites, L.Guarded site

namespace Sited

variable {r : Nat} {sites more : List (Nat × Passed)} {i : Instr}

theorem nil : L.Sited p p [] :=
  ⟨.nil, by simp⟩

theorem append (h₁ : L.Sited p q sites) (h₂ : L.Sited q r more) : L.Sited p r (sites ++ more) := by
  refine ⟨(h₁.rows.imp fun x i _ hrow hi => ?_).append (h₂.rows.imp fun x i _ hrow hi => ?_),
    fun hp site hsite => ?_⟩
  · obtain ⟨site, hsite, hx⟩ := hrow hi
    exact ⟨site, List.mem_append_left more hsite, hx⟩
  · obtain ⟨site, hsite, hx⟩ := hrow hi
    exact ⟨site, List.mem_append_right sites hsite, hx⟩
  · rcases List.mem_append.mp hsite with hsite | hsite
    · exact h₁.guarded hp site hsite
    · exact h₂.guarded (hp.append h₁.rows.whole) site hsite

-- Code that passes nothing, in front of other code and behind it.
theorem after (h : L.Sited q r sites) (hfirst : L.Sited p q []) : L.Sited p r sites :=
  hfirst.append h

theorem before (h : L.Sited p q sites) (hlast : L.Sited q r []) : L.Sited p r sites := by
  simpa using h.append hlast

theorem at_last (h : L.Sited p q sites) (hat : L.At q i r) (hi : i.passes? L.registry = none) :
    L.Sited p r sites :=
  h.before ⟨.one hat fun hpasses => absurd hi hpasses, by simp⟩

-- The values of a call, with their checks and the call itself behind them.
theorem passing {passed : Passed} (h : L.Sited p q sites) (hchecks : L.Sited q r [])
    {x : Nat} (hat : L.At r i x) (hi : i.passes? L.registry = some passed.length)
    (hvets : L.script.Whole 0 q → ∀ (k : Nat) param, passed[k]? = some (param, .dynamic) →
      param ≠ .dynamic → param ≠ .void → passed.length ≤ k + 256 →
      L.script.Vets param (passed.length - 1 - k) r) :
    L.Sited p x (sites ++ [(r, passed)]) := by
  refine h.append ⟨(hchecks.rows.imp fun _ _ _ hrow hpasses => ?_).append (.one hat fun _ => ?_),
    fun hq site hsite => ?_⟩
  · obtain ⟨site, hsite, -⟩ := hrow hpasses
    cases hsite
  · exact ⟨_, List.mem_singleton_self _, rfl⟩
  · obtain rfl := List.mem_singleton.mp hsite
    exact ⟨⟨i, x, hat, hi⟩, hvets hq⟩

end Sited

theorem At.sited {i : Instr} (hat : L.At p i q) (hi : i.passes? L.registry = none) :
    L.Sited p q [] :=
  Sited.nil.at_last hat hi

theorem Jump.sited {t : Nat} (hj : L.Jump p q t) : L.Sited p q [] := by
  obtain ⟨target, hat, -⟩ := hj
  exact hat.sited rfl

theorem JumpIf.sited {on : Bool} {t : Nat} (hj : L.JumpIf on p q t) : L.Sited p q [] := by
  obtain ⟨target, hat, -⟩ := hj
  exact hat.sited rfl

theorem Load.sited {name : String} (h : L.Load name p q) : L.Sited p q [] := by
  obtain ⟨n, -, hat⟩ := h
  unfold loadInstr at hat
  split at hat <;> exact hat.sited rfl

theorem Store.sited {name : String} (h : L.Store name p q) : L.Sited p q [] := by
  obtain ⟨n, -, hat⟩ := h
  unfold storeInstr at hat
  split at hat <;> exact hat.sited rfl

theorem At.sited_binary {op : BinaryOp} {numeric : Bool} (hat : L.At p (binaryInstr op numeric) q) :
    L.Sited p q [] := by
  cases op <;> cases numeric <;> exact hat.sited rfl

theorem At.sited_unary {op : UnaryOp} {numeric : Bool} (hat : L.At p (unaryInstr op numeric) q) :
    L.Sited p q [] := by
  cases op <;> cases numeric <;> exact hat.sited rfl

end Layout

theorem LiteralCode.sited {value : Literal} (h : LiteralCode L value p q) : L.Sited p q [] := by
  cases h with
  | null hat => exact hat.sited rfl
  | bool hat => exact hat.sited rfl
  | long hat => exact hat.sited rfl
  | double hat => exact hat.sited rfl
  | string _ hat => exact hat.sited rfl

theorem CheckCode.sited {expected actual : Ty} (h : CheckCode L expected actual p q) :
    L.Sited p q [] := by
  cases h with
  | needed _ hat => exact hat.sited rfl
  | skipped _ => exact .nil

theorem GuardsCode.sited (h : GuardsCode L params args above p q) : L.Sited p q [] := by
  induction h with
  | params => exact .nil
  | args => exact .nil
  | needed _ hat _ ih => exact ih.after (hat.sited rfl)
  | skipped _ _ ih => exact ih

theorem needsGuard_dynamic {param : Ty} (h : param ≠ .dynamic) :
    Emit.needsGuard param .dynamic = true := by
  simp [Emit.needsGuard, h]

theorem TypeGuard.checked_of_ne_void {ty : Ty} (h : ty ≠ .void) : TypeGuard.checked ty = ty := by
  cases ty <;> first | rfl | exact absurd rfl h

theorem passedTo_length (h : params.length = args.length) :
    (passedTo params args).length = args.length := by
  simp [passedTo, h]

-- Arguments behind each other, their checks and the call that takes them.
theorem GuardsCode.call {sites : List (Nat × Passed)} {q₁ q₂ : Nat} {i : Instr}
    (hguards : GuardsCode L params args (args.length - 1) q₁ q₂) (hargs : L.Sited p q₁ sites)
    (hat : L.At q₂ i q) (hcount : params.length = args.length)
    (hi : i.passes? L.registry = some args.length) :
    L.Sited p q (sites ++ [(q₂, passedTo params args)]) := by
  have hlength := passedTo_length hcount
  refine hargs.passing hguards.sited hat (hlength.symm ▸ hi)
    fun hq k param hk hdynamic hvoid hdepth => ?_
  rw [hlength] at hdepth ⊢
  obtain ⟨hparam, harg⟩ := List.getElem?_zip_eq_some.mp hk
  rw [List.getElem?_map, Option.map_eq_some_iff] at harg
  obtain ⟨arg, harg, hty⟩ := harg
  have hvets := hguards.vets hq hparam harg (hty ▸ needsGuard_dynamic hdynamic)
  rwa [TypeGuard.checked_of_ne_void hvoid, Nat.min_eq_left (by omega)] at hvets

-- A value, its check and the assignment that takes it.
theorem CheckCode.assign {sites : List (Nat × Passed)} {declared ty : Ty} {q₁ q₂ : Nat} {i : Instr}
    (hcheck : CheckCode L declared ty q₁ q₂) (hvalue : L.Sited p q₁ sites) (hat : L.At q₂ i q)
    (hi : i.passes? L.registry = some 1) : L.Sited p q (sites ++ [(q₂, [(declared, ty)])]) := by
  refine hvalue.passing hcheck.sited hat hi fun hq k param hk hdynamic hvoid _ => ?_
  cases k with
  | succ k => cases hk
  | zero =>
      cases hk
      cases hcheck with
      | needed _ hguard =>
          rw [TypeGuard.checked_of_ne_void hvoid] at hguard
          exact .here hq hguard rfl
      | skipped hskip =>
          rw [needsGuard_dynamic hdynamic] at hskip
          cases hskip

theorem Registry.TakesMethod.params_length {r : Registry} {id count : Nat}
    (h : r.TakesMethod id count) : (r.methodParams id).length = count := by
  obtain ⟨-, d, hd, hcount⟩ := h
  simp [methodParams, hd, hcount]

theorem Registry.TakesNew.params_length {r : Registry} {id count : Nat}
    (h : r.TakesNew id count) : (r.constructorParams id).length = count := by
  obtain ⟨-, d, hd, hcount⟩ := h
  simp [constructorParams, hd, hcount]

mutual

theorem ExprCode.sited {e : Expr} {p q : Nat} (hcode : ExprCode L e p q)
    (hlinked : e.Linked L.registry) : L.Sited p q (e.sites L.registry p) := by
  cases e with
  | literal m value =>
      cases hcode with
      | literal hlit => exact hlit.sited
  | name m x =>
      cases hcode with
      | name hload => exact hload.sited
  | static m name args binding =>
      cases hcode with
      | const hlit => exact hlit.sited
      | staticProperty hat => exact hat.sited rfl
      | staticMethod hargs hguards hat =>
          obtain ⟨htakes, hlinked⟩ := hlinked
          have hpassed := hguards.call (ExprsCode.sited hargs hlinked) hat htakes.params_length
            (by rw [Instr.passes?, htakes.arity])
          rwa [hguards.width, hargs.width] at hpassed
  | member m target name args binding =>
      obtain ⟨hbinding, htargetLinked, hlinked⟩ := hlinked
      cases hcode with
      | method htarget hargs hguards hat =>
          have hfirst := ExprCode.sited htarget htargetLinked
          have hpassed := hguards.call (hfirst.append (ExprsCode.sited hargs hlinked)) hat
            hbinding.params_length (by rw [Instr.passes?, hbinding.arity])
          rwa [hguards.width, hargs.width, htarget.width] at hpassed
      | property htarget hat => exact (ExprCode.sited htarget htargetLinked).at_last hat rfl
      | read htarget _ hat =>
          exact ((ExprCode.sited htarget htargetLinked).append .nil).at_last hat rfl
      | call _ _ htarget hargs _ hat =>
          have hall := (ExprCode.sited htarget htargetLinked).append (ExprsCode.sited hargs hlinked)
          rw [htarget.width] at hall
          exact hall.at_last hat rfl
  | new m typeName args binding =>
      cases hcode with
      | new hargs hguards hat =>
          obtain ⟨htakes, hlinked⟩ := hlinked
          have htakes := htakes _ rfl
          have hpassed := hguards.call (ExprsCode.sited hargs hlinked) hat htakes.params_length
            (by rw [Instr.passes?, htakes.arity])
          rwa [hguards.width, hargs.width] at hpassed
  | binary m op lhs rhs =>
      obtain ⟨hleft, hright⟩ := hlinked
      cases hcode with
      | and h₁ h₂ h₃ h₄ h₅ h₆ =>
          have hall := (ExprCode.sited h₁ hleft).append ((ExprCode.sited h₃ hright).after h₂.sited)
          rw [h₂.width, h₁.width] at hall
          exact ((hall.before h₄.sited).before h₅.sited).at_last h₆ rfl
      | or h₁ h₂ h₃ h₄ h₅ h₆ =>
          have hall := (ExprCode.sited h₁ hleft).append ((ExprCode.sited h₃ hright).after h₂.sited)
          rw [h₂.width, h₁.width] at hall
          exact ((hall.before h₄.sited).before h₅.sited).at_last h₆ rfl
      | binary hand hor h₁ h₂ hat =>
          have hall := (ExprCode.sited h₁ hleft).append (ExprCode.sited h₂ hright)
          rw [h₁.width] at hall
          simp only [Expr.sites, hand, hor, or_self, if_false]
          exact hall.before hat.sited_binary
  | unary m op operand =>
      cases hcode with
      | folded hvalue hlit =>
          simp only [Expr.sites, hvalue]
          exact hlit.sited
      | unary hnone h₁ hat =>
          simp only [Expr.sites, hnone]
          exact (ExprCode.sited h₁ hlinked).before hat.sited_unary
  | cast m typeName operand => cases hcode

theorem ExprsCode.sited {es : List Expr} {p q : Nat} (hcode : ExprsCode L es p q)
    (hlinked : Expr.AllLinked L.registry es) : L.Sited p q (Expr.sitesAll L.registry p es) := by
  cases es with
  | nil =>
      cases hcode
      exact .nil
  | cons e rest =>
      cases hcode with
      | cons h₁ h₂ =>
          have hall := (ExprCode.sited h₁ hlinked.1).append (ExprsCode.sited h₂ hlinked.2)
          rwa [h₁.width] at hall

end

theorem ChangeCode.sited {how : Change} (hcode : ChangeCode L how p q)
    (hlinked : how.Linked L.registry) : L.Sited p q (how.sites L.registry p) := by
  cases hcode with
  | compound hvalue => exact hvalue.sited hlinked
  | increment hat => exact hat.sited rfl
  | decrement hat => exact hat.sited rfl

theorem VarCode.sited {v : VarStmt} (hcode : VarCode L v p q) (hlinked : v.Linked L.registry) :
    L.Sited p q (v.sites L.registry p) := by
  cases hcode with
  | declare hvalue hstore => exact (hvalue.sited hlinked).before hstore.sited
  | update hload hchange hat hstore =>
      have hbrought := (hchange.sited hlinked).after hload.sited
      rw [hload.width] at hbrought
      exact (hbrought.before hat.sited_binary).before hstore.sited

theorem CountCode.sited {how : Iteration} (hcode : CountCode L how p q) : L.Sited p q [] := by
  cases hcode with
  | members hat => exact hat.sited rfl
  | dynamic _ hread hcheck => exact (hread.sited rfl).at_last hcheck rfl

theorem ItemCode.sited {item : String} {iter index : UInt8} {how : Iteration}
    (hcode : ItemCode L item iter index how p q) (hlinked : how.Linked L.registry) :
    L.Sited p q (how.sites L.registry p) := by
  cases hcode with
  | @members _ q₁ q₂ getItem q₃ _ count h₁ h₂ hcall hstore =>
      have hlength : ((L.registry.methodParams getItem).zip [Ty.long]).length = 1 := by
        simp [hlinked.2.params_length]
      have hpassed := ((h₁.sited rfl).at_last h₂ rfl).passing .nil hcall
        (by rw [Instr.passes?, hlinked.2.arity, hlength]) fun _ k param hk => by
          obtain ⟨-, hindex⟩ := List.getElem?_zip_eq_some.mp hk
          cases k <;> cases hindex
      have hw₁ : _ = _ + 2 := h₁.width
      have hw₂ : _ = _ + 2 := h₂.width
      rw [hw₂, hw₁] at hpassed
      exact hpassed.before hstore.sited
  | dynamic h₁ h₂ _ hcall hstore =>
      exact (((h₁.sited rfl).at_last h₂ rfl).at_last hcall rfl).before hstore.sited

theorem HeadCode.sited {count : Expr} {length : Int32} (hcode : HeadCode L count length p q)
    (hlinked : count.Linked L.registry) :
    L.Sited p q (match Emit.literalCount? count with
      | some _ => []
      | none => count.sites L.registry p) := by
  cases hcode with
  | literal hcount hat =>
      simp only [hcount]
      exact hat.sited rfl
  | computed hcount hvalue hcheck hat =>
      simp only [hcount]
      exact ((hvalue.sited hlinked).before hcheck.sited).at_last hat rfl

-- The rounds of a loop with a hidden counter pass what the item and the body pass.
theorem CountedCode.sited {index limit : UInt8} {I : Nat → Nat → Prop} {body : List Stmt}
    {k k' n : Nat} {items inner : List (Nat × Passed)}
    (h : CountedCode L index limit I k body p q k')
    (hitem : ∀ b, I (p + counterHead) b →
      L.Sited (p + counterHead) b items ∧ b = p + counterHead + n)
    (hbody : ∀ exits b, StmtsCode L exits k body (p + counterHead + n) b k' →
      L.Sited (p + counterHead + n) b inner) : L.Sited p q (items ++ inner) := by
  cases h with
  | @mk _ q₁ _ top t₁ _ t₂ t₃ t₄ _ _ next _ _ t₅ _ n₁ n₂ n₃ n₄ g₁ g₂ g₃ g₄ g₅ g₆ g₇ g₈ g₉ g₁₀ g₁₁
      g₁₂ g₁₃ =>
      have hhead : L.Sited p t₄ [] := (((((g₁.sited rfl).at_last g₂ rfl).at_last g₃ rfl).at_last
        g₄ rfl).at_last g₅ rfl).before g₆.sited
      have htail : L.Sited next q [] := ((((g₉.sited rfl).at_last g₁₀ rfl).at_last g₁₁
        rfl).at_last g₁₂ rfl).before g₁₃.sited
      have hstart : t₄ = p + counterHead := by
        have g₁ : _ = _ + 9 := g₁.width
        have g₂ : _ = _ + 2 := g₂.width
        have g₃ : _ = _ + 2 := g₃.width
        have g₄ : _ = _ + 2 := g₄.width
        have g₅ : _ = _ + 1 := g₅.width
        have g₆ := g₆.width
        simp only [counterHead]
        omega
      obtain rfl := hstart
      obtain ⟨hread, rfl⟩ := hitem _ g₇
      exact ((hread.append (hbody _ _ g₈)).after hhead).before htail

-- What stands in front of the rounds of a loop over items passes what the source passes.
theorem eachHead_sited {source : Expr} {how : Iteration} {iter count : UInt8} {q₁ q₂ q₃ q₄ : Nat}
    (hlinked : source.Linked L.registry) (hsource : ExprCode L source p q₁)
    (hset : L.At q₁ (.setLoc iter) q₂) (hload : L.At q₂ (.loadLoc iter) q₃)
    (hcount : CountCode L how q₃ q₄) (hset' : L.At q₄ (.setLocNoRef count) q) :
    L.Sited p q (source.sites L.registry p) ∧
      q + counterHead + how.itemWidth = p + Stmt.eachStart L.registry source how := by
  refine ⟨((((hsource.sited hlinked).at_last hset rfl).at_last hload rfl).before
    hcount.sited).at_last hset' rfl, ?_⟩
  have h₁ := hsource.width
  have h₂ : _ = _ + 2 := hset.width
  have h₃ : _ = _ + 2 := hload.width
  have h₄ := hcount.width
  have h₅ : _ = _ + 2 := hset'.width
  simp only [Stmt.eachStart]
  omega

-- A test with the jump behind it, and a body with the jump that follows.
theorem branch_sited {e : Expr} {q₁ q₂ q₃ q₄ t u : Nat} {inner : List (Nat × Passed)}
    (htest : ExprCode L e p q₁) (hlinked : e.Linked L.registry) (hjump : L.JumpIf false q₁ q₂ t)
    (hbody : L.Sited q₂ q₃ inner) (hout : L.Jump q₃ q₄ u) :
    L.Sited p q₄ (e.sites L.registry p ++ inner) :=
  ((htest.sited hlinked).append (hbody.after hjump.sited)).before hout.sited

mutual

theorem StmtCode.sited {exits : Option (Nat × Nat)} {k k' : Nat} {s : Stmt} {p q : Nat}
    (hcode : StmtCode L exits k s p q k') (hlinked : s.Linked L.registry) :
    L.Sited p q (s.sites L.registry L.level p) := by
  cases s with
  | «using» offset ns =>
      cases hcode
      exact .nil
  | input offset name typeName declared =>
      cases hcode
      exact .nil
  | var v =>
      cases hcode with
      | var hvar => exact hvar.sited hlinked
  | cond offset e body rest =>
      obtain ⟨he, hb, hr⟩ := hlinked
      cases hcode with
      | cond htest hjump hbody hout hrest =>
          have hall := (branch_sited htest he hjump (StmtsCode.sited hbody hb) hout).append
            (BranchesCode.sited hrest hr)
          rwa [hout.width, hbody.width, hjump.width, htest.width] at hall
  | whileLoop offset e body =>
      obtain ⟨he, hb⟩ := hlinked
      cases hcode with
      | whileLoop htest hjump hbody hback =>
          have hall := branch_sited htest he hjump (StmtsCode.sited hbody hb) hback
          rwa [hjump.width, htest.width] at hall
  | forLoop offset init e step body =>
      obtain ⟨hi, he, hs, hb⟩ := hlinked
      cases hcode with
      | forLoop hinit htest hjump hbody hstep hback =>
          have hround := (htest.sited he).append ((StmtsCode.sited hbody hb).after hjump.sited)
          have hall := ((hinit.sited hi).append hround).append (hstep.sited hs)
          rw [← List.append_assoc, hbody.width, hjump.width, htest.width, hinit.width] at hall
          exact hall.before hback.sited
  | eachLoop offset name source body how =>
      obtain ⟨hh, hs, hb⟩ := hlinked
      cases hcode with
      | eachLoop _ _ _ hsource hset hload hitems hset' hcounted hnull hdrop =>
          obtain ⟨hhead, hstart⟩ := eachHead_sited hs hsource hset hload hitems hset'
          have hrounds := hcounted.sited (fun b hi => ⟨hi.sited hh, hi.width⟩)
            fun _ b hbody => StmtsCode.sited hbody hb
          rw [hstart, Nat.eq_sub_of_add_eq hstart] at hrounds
          exact ((hhead.append hrounds).at_last hnull rfl).at_last hdrop rfl
  | countLoop offset e body =>
      obtain ⟨he, hb⟩ := hlinked
      cases hcode with
      | countLoop hcounts _ _ hcount hcheck hset hcounted =>
          have hway : (decide (L.level ≥ 1) && !Emit.anyEscapes body) = false := hcounts
          have hhead := ((hcount.sited he).before hcheck.sited).at_last hset rfl
          have hrounds := hcounted.sited (n := 0) (fun b hi => by
            obtain rfl := hi
            exact ⟨.nil, rfl⟩) fun _ b hbody => StmtsCode.sited hbody hb
          have hset : _ = _ + 2 := hset.width
          have hall := hhead.append hrounds
          rw [hset, hcheck.width, hcount.width] at hall
          simpa [Stmt.sites, Stmt.countSites, Stmt.countStart, hway, Nat.add_assoc] using hall
      | machineLoop hcounts hhead _ _ _ hbody =>
          have hway : (decide (L.level ≥ 1) && !Emit.anyEscapes body) = true := hcounts
          have hall := (hhead.sited he).append (StmtsCode.sited hbody hb)
          rw [hhead.width] at hall
          simp only [Stmt.sites, Stmt.countSites, Stmt.countStart, hway, Bool.true_and, if_true]
          cases hcount : Emit.literalCount? e with
          | none => simpa [hcount] using hall
          | some n => simpa [hcount] using hall
  | leave offset =>
      cases hcode with
      | leave hjump => exact hjump.sited
  | again offset =>
      cases hcode with
      | again hjump => exact hjump.sited
  | ret offset value =>
      cases hcode with
      | ret hvalue hat => exact (hvalue.sited (hlinked _ rfl)).at_last hat rfl
      | retNull hnull hat => exact (hnull.sited rfl).at_last hat rfl
  | exit offset =>
      cases hcode with
      | exit hat => exact hat.sited rfl
  | func offset name params body => cases hcode
  | call offset target =>
      cases hcode with
      | call htarget hat => exact (htarget.sited hlinked).at_last hat rfl
  | assign offset target value =>
      obtain ⟨ht, hv⟩ := hlinked
      cases hcode with
      | assignStatic hvalue hcheck hat =>
          have hall := hcheck.assign (hvalue.sited hv) hat rfl
          rwa [hcheck.width, hvalue.width] at hall
      | assignProperty howner hvalue hcheck hat =>
          have hall := hcheck.assign ((howner.sited ht.2).append (hvalue.sited hv)) hat rfl
          rwa [hcheck.width, hvalue.width, howner.width] at hall
      | assignDynamic howner hvalue _ hat =>
          have hall := (howner.sited ht.2).append (hvalue.sited hv)
          rw [howner.width] at hall
          exact hall.at_last hat rfl

theorem StmtsCode.sited {exits : Option (Nat × Nat)} {k k' : Nat} {ss : List Stmt} {p q : Nat}
    (hcode : StmtsCode L exits k ss p q k') (hlinked : Stmt.AllLinked L.registry ss) :
    L.Sited p q (Stmt.sitesAll L.registry L.level p ss) := by
  cases ss with
  | nil =>
      cases hcode
      exact .nil
  | cons s rest =>
      cases hcode with
      | cons hs hrest =>
          have hall := (StmtCode.sited hs hlinked.1).append (StmtsCode.sited hrest hlinked.2)
          rwa [hs.width] at hall

theorem BranchesCode.sited {exits : Option (Nat × Nat)} {k k' done : Nat} {b : Branches}
    {p q : Nat} (hcode : BranchesCode L exits k done b p q k')
    (hlinked : Stmt.BranchesLinked L.registry b) :
    L.Sited p q (Stmt.sitesBranches L.registry L.level p b) := by
  cases b with
  | done =>
      cases hcode
      exact .nil
  | otherwise body =>
      cases hcode with
      | otherwise hbody => exact StmtsCode.sited hbody hlinked
  | elseIf e body rest =>
      obtain ⟨he, hb, hr⟩ := hlinked
      cases hcode with
      | elseIf htest hjump hbody hout hrest =>
          have hall := (branch_sited htest he hjump (StmtsCode.sited hbody hb) hout).append
            (BranchesCode.sited hrest hr)
          rwa [hout.width, hbody.width, hjump.width, htest.width] at hall

end

-- Everything that a script passes to members that it picks by their numbers is passed where its
-- source says.
theorem Layout.Carries.sited {inputs : List InputVar} {script : Script}
    (hcarries : L.Carries inputs script) (hlinked : Stmt.AllLinked L.registry script) :
    L.Sited 0 L.script.code.size (Stmt.sitesAll L.registry L.level 0 script) := by
  obtain ⟨q, k, hcode, hexit⟩ := hcarries.code
  exact (hcode.sited hlinked).at_last hexit rfl

namespace CompiledScript

variable {r : Registry} {options : CompileOptions} {source : String} {s : CompiledScript}

-- The same for a source text.
def sites (r : Registry) (options : CompileOptions) (source : String) : List (Nat × Passed) :=
  match Script.analyze r options.imports source with
  | .ok (checked, _) => Stmt.sitesAll r options.level 0 checked
  | .error _ => []

theorem Stages.sited {parsed checked : Script} {analysis : Analysis} {L : Layout}
    (h : Stages r options source s parsed checked analysis L) :
    L.Sited 0 s.code.size (sites r options source) := by
  have hsited := h.carries.sited (h.registry ▸ h.sound.linked)
  rw [h.script, h.registry, h.level] at hsited
  simpa only [sites, h.analyze] using hsited

-- Whenever a run calls a member that its code picks by a number, it does so at a place where the
-- source passes values to it. Each value of which nothing is known there has the type that is
-- declared for it, if at most 255 values are passed behind it.
theorem passed_values_admitted [HostHooks] (hr : r.Built)
    (hcompile : compile r options source = .ok s) (m₀ : Machine) (inputs : List (String × Value))
    (count : Nat) {m : Machine} (hrun : m₀.firstSteps ⟨r, s⟩ inputs count = (.outOfFuel, m)) :
    (∀ i q, s.fetch m.pc = .ok (i, q) → i.passes? r ≠ none →
      ∃ site ∈ sites r options source, site.1 = m.pc) ∧
    ∀ passed, (m.pc, passed) ∈ sites r options source → ∀ call ∈ m.stepCalls ⟨r, s⟩,
      ∀ (k : Nat) param, passed[k]? = some (param, .dynamic) → param ≠ .dynamic → param ≠ .void →
        passed.length ≤ k + 256 →
          ∃ v, call.args[k]? = some v ∧ param.admits (r.typeOf v) = true := by
  obtain ⟨parsed, checked, analysis, L, hstages⟩ := exists_stages hr hcompile
  have hsited := hstages.sited
  have hscript := hstages.script
  have hregistry := hstages.registry
  have hsteady : s.Steady 0 s.code.size := hscript ▸ hstages.carries.steady
  have hvetted := @Machine.firstSteps_vetted ⟨r, s⟩ _ hsteady m₀ inputs count
  rw [hrun] at hvetted
  have hvetted : m.Vetted ⟨r, s⟩ := hvetted
  refine ⟨fun i q hat hi => ?_, fun passed hsite call hcall k param hk hdynamic hvoid hdepth => ?_⟩
  · obtain ⟨j, q', hat', hrow, -⟩ :=
      hsited.rows.find (hscript ▸ hvetted.pc) (lt_size_of_fetch hat)
    rw [hscript] at hat'
    cases Except.ok.inj (hat.symm.trans hat')
    exact hrow (hregistry ▸ hi)
  · obtain ⟨⟨i, q, hat, hi⟩, hvets⟩ := hsited.guarded .nil (m.pc, passed) hsite
    rw [Layout.At, hscript] at hat
    rw [hregistry] at hi
    have hchecked := hvets k param hk hdynamic hvoid hdepth
    rw [hscript] at hchecked
    have hlt : k < passed.length := (List.getElem?_eq_some_iff.mp hk).choose
    exact (Machine.passes_of_stepCalls hat hi hcall).admits hlt (hvetted.holds _ _ hchecked)

-- A host that takes texts and says something without a type, and a script that hands back what it
-- says.
def parrot : Registry :=
  (Registry.addMethod
    (Registry.addMethod .empty "app" "word" none [] .dynamic fun _ _ _ => pure (.text "a")).2
    "app" "tell" none [.string] .void fun _ _ _ => pure .null).2

def echoing : String :=
  "tell [word]"

theorem parrot_built : parrot.Built :=
  .method _ _ _ _ _ _ (.method _ _ _ _ _ _ .empty (by decide)) (by decide)

theorem echoing_admits : ∃ s m call, compile parrot { imports := ["app"] } echoing = .ok s ∧
    (Machine.new {} {}).firstSteps ⟨parrot, s⟩ [] 2 = (.outOfFuel, m) ∧
    call ∈ m.stepCalls ⟨parrot, s⟩ ∧
    ∃ v, call.args[0]? = some v ∧ Ty.string.admits (parrot.typeOf v) = true := by
  have hstate : (compile parrot { imports := ["app"] } echoing).toOption.map (fun s =>
      let result := (Machine.new {} {}).firstSteps ⟨parrot, s⟩ [] 2
      (result.1 matches .outOfFuel, result.2.pc, (result.2.stepCalls ⟨parrot, s⟩).length)) =
      some (true, 10, 1) := by
    decide +kernel
  have hsites : sites parrot { imports := ["app"] } echoing =
      [(0, []), (10, [(.string, .dynamic)])] := by
    decide +kernel
  cases hcompile : compile parrot { imports := ["app"] } echoing with
  | error d =>
      rw [hcompile] at hstate
      cases hstate
  | ok s =>
      rw [hcompile] at hstate
      cases hrun : (Machine.new {} {}).firstSteps ⟨parrot, s⟩ [] 2 with
      | mk outcome m =>
          simp only [Except.toOption, Option.map_some, hrun, Option.some.injEq,
            Prod.mk.injEq] at hstate
          obtain ⟨houtcome, hpc, hcalls⟩ := hstate
          cases outcome with
          | finished => cases houtcome
          | failed f => cases houtcome
          | outOfFuel =>
              obtain ⟨call, hcall⟩ := List.length_eq_one_iff.mp hcalls
              have hmem : call ∈ m.stepCalls ⟨parrot, s⟩ := by simp [hcall]
              have hsite : (m.pc, [(Ty.string, Ty.dynamic)]) ∈
                  sites parrot { imports := ["app"] } echoing := by simp [hsites, hpc]
              have hall := (passed_values_admitted parrot_built hcompile _ _ 2 hrun).2 _ hsite
              exact ⟨s, m, call, rfl, hrun, hmem,
                hall call hmem 0 .string rfl (by decide) (by decide) (by decide)⟩

end CompiledScript

end HostScript
