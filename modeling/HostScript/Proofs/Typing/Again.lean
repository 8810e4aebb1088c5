import HostScript.Proofs.Typing.Imports
import HostScript.Proofs.Typing.Scope

namespace HostScript

-- Two checkers that have the same imports, stand in the same blocks and know the same variables,
-- with whatever types.
structure Checker.SameNames (c d : Checker) : Prop where
  nonempty : c.ctx.kinds ≠ []
  imports : c.imports = d.imports
  kinds : c.ctx.kinds = d.ctx.kinds
  binds : ∀ x, c.ctx.Binds x ↔ d.ctx.Binds x

namespace Checker.SameNames

variable {c d c' d' : Checker} {names : List String}

theorem refl (h : c.ctx.kinds ≠ []) : c.SameNames c :=
  ⟨h, rfl, rfl, fun _ => Iff.rfl⟩

theorem nonempty' (h : c.SameNames d) : d.ctx.kinds ≠ [] :=
  h.kinds ▸ h.nonempty

theorem unknown {name : String} (h : c.SameNames d) (hname : c.ctx.lookup name = none) :
    d.ctx.lookup name = none :=
  TypeContext.not_binds fun hbound => by
    simpa [TypeContext.Binds, hname] using (h.binds name).mpr hbound

-- They go on to know the same variables.
theorem leads (h : c.SameNames d) (hc : c.Leads names c') (hd : d.Leads names d') :
    c'.SameNames d' where
  nonempty := hc.kinds_ne_nil h.nonempty
  imports := hc.imports.trans (h.imports.trans hd.imports.symm)
  kinds := hc.kinds.trans (h.kinds.trans hd.kinds.symm)
  binds x := by rw [hc.binds, hd.binds, h.binds]

theorem push (kind : FrameKind) (h : c.SameNames d) :
    SameNames { c with ctx := c.ctx.push kind } { d with ctx := d.ctx.push kind } where
  nonempty := by simp
  imports := h.imports
  kinds := by simp [h.kinds]
  binds x := by simp only [TypeContext.binds_push, h.binds]

theorem starts {c₀ d₀ : Checker} (h : c.SameNames d) (hc : Check.Starts c c₀)
    (hd : Check.Starts d d₀) : c₀.SameNames d₀ where
  nonempty := by simp [hc.kinds]
  imports := hc.imports.trans (h.imports.trans hd.imports.symm)
  kinds := by rw [hc.kinds, hd.kinds, h.kinds]
  binds x := by rw [hc.binds, hd.binds, h.binds]

end Checker.SameNames

namespace Check

open Checker (SameNames)

variable {α β : Type} {P : Nat → Prop} {Q : α → Prop} {names : List String} {r : Registry}
  {c d c' d' : Checker}

theorem bind_congr {x x' : Check α} {f f' : α → Check β} (hx : x' d = x d)
    (hf : ∀ a d₁, x d = .ok (a, d₁) → f' a d₁ = f a d₁) : (x' >>= f') d = (x >>= f) d := by
  simp only [Bind.bind, StateT.bind, Except.bind, hx]
  cases hresult : x d with
  | error problem => rfl
  | ok p => exact hf p.1 p.2 hresult

theorem lookup_ok {name : String} {known : Option Ty} :
    lookup name c = .ok (known, c') ↔ known = c.ctx.lookup name ∧ c' = c := by
  simp only [lookup, bind_ok, get_ok, pure_ok, Prod.mk.injEq]
  constructor
  · rintro ⟨_, _, ⟨rfl, rfl⟩, hknown, rfl⟩
    exact ⟨hknown, rfl⟩
  · rintro ⟨rfl, rfl⟩
    exact ⟨_, _, ⟨rfl, rfl⟩, rfl, rfl⟩

theorem Goes.same {x y : Check α} {a b : α} (hx : Goes P names Q x) (hy : Goes P names Q y)
    (h : c.SameNames d) (hc : x c = .ok (a, c')) (hd : y d = .ok (b, d')) : c'.SameNames d' :=
  h.leads ((hx c h.nonempty).1 a c' hc).1 ((hy d h.nonempty').1 b d' hd).1

theorem Goes.imports {pass : Check α} (hx : Goes P names Q pass) :
    ∀ c₁ a c₂, Starts c c₁ → pass c₁ = .ok (a, c₂) → c₂.imports = c₁.imports :=
  fun c₁ a c₂ h₁ hrun => ((hx c₁ (by simp [h₁.kinds])).1 a c₂ hrun).1.imports

-- A loop is checked like another one if their passes are, wherever the same variables are known.
theorem Goes.loop_again {pass pass' : Check α} {c₀ : Checker} (hx : Goes P names Q pass)
    (h : c.SameNames d) (hc : Starts c c₀)
    (hpass : ∀ d₀, c₀.SameNames d₀ → pass' d₀ = pass d₀) :
    Check.loop pass' d = Check.loop pass d :=
  loop_congr hx.imports fun _ hd => hpass _ (h.starts hc hd)

-- Problems may be found anywhere.
theorem expr_goes (r : Registry) (e : Expr) :
    Goes (fun _ => True) [] (·.Placed fun _ => True) (expr r e) :=
  .expr r (Expr.every_of_always (fun _ => trivial) e)

theorem varStmt_goes (r : Registry) (v : VarStmt) :
    Goes (fun _ => True) [v.name] (·.Placed fun _ => True) (varStmt r v) :=
  .varStmt r (v.placed_of_always fun _ => trivial)

theorem iteration_goes (r : Registry) (source : Expr) :
    Goes (fun _ => True) [] (fun _ => True) (iteration r source) :=
  .iteration r (Expr.every_of_always (fun _ => trivial) source)

theorem stmt_goes (r : Registry) (s : Stmt) :
    Goes (fun _ => True) s.written (·.Placed fun _ => True) (stmt r s) :=
  .stmt r (s.placed_of_always fun _ => trivial)

theorem stmts_goes (r : Registry) (ss : List Stmt) :
    Goes (fun _ => True) (Stmt.writtenAll ss) (Stmt.AllPlaced fun _ => True) (stmts r ss) :=
  .stmts r (Stmt.allPlaced_of_always (fun _ => trivial) ss)

-- A name that is no variable is looked for like a static member without arguments.
theorem resolveName_found {name : String} {offset : Nat}
    (hfound : (staticCandidates r c.imports name).count ≠ 0) :
    resolveName r name offset c = (do
      let (binding, ty) ← resolveStatic r name [] offset false
      return .static ⟨offset, ty⟩ name [] binding : Check Expr) c := by
  simp only [resolveName, Bind.bind, StateT.bind, get, getThe, MonadStateOf.get, StateT.get, Pure.pure,
    Except.pure, Except.bind, if_neg hfound]

theorem expr_static_nil {m : Mark} {name : String} {binding : StaticBinding} :
    expr r (.static m name [] binding) = (do
      let (binding, ty) ← resolveStatic r name [] m.offset false
      return .static ⟨m.offset, ty⟩ name [] binding) := by
  simp only [expr, exprs, pure_bind]

theorem resolveName_again {name : String} {offset : Nat} {e : Expr}
    (hc : resolveName r name offset c = .ok (e, c')) (h : c.SameNames d) :
    ∃ ty binding, e = .static ⟨offset, ty⟩ name [] binding ∧
      resolveName r name offset d = expr r e d := by
  obtain ⟨_, _, hget, hc⟩ := bind_ok.mp hc
  cases get_ok.mp hget
  split at hc
  · obtain ⟨_, _, hfail, -⟩ := bind_ok.mp hc
    exact (throw_ok.mp hfail).elim
  · rename_i hfound
    obtain ⟨⟨binding, ty⟩, c₁, -, hc⟩ := bind_ok.mp hc
    cases pure_ok.mp hc
    rw [h.imports] at hfound
    refine ⟨ty, binding, rfl, ?_⟩
    rw [resolveName_found hfound, expr_static_nil]

mutual

-- An expression that was checked is checked again with the same result, wherever the same variables
-- are known.
theorem expr_again {c c' d : Checker} {e e' : Expr} (hc : expr r e c = .ok (e', c'))
    (h : c.SameNames d) : expr r e' d = expr r e d := by
  cases e with
  | literal m value =>
      cases pure_ok.mp hc
      rfl
  | name m name =>
      obtain ⟨known, _, hlookup, hc⟩ := bind_ok.mp hc
      obtain ⟨hknown, rfl⟩ := lookup_ok.mp hlookup
      cases known with
      | some ty =>
          obtain ⟨_, _, -, hc⟩ := bind_ok.mp hc
          cases pure_ok.mp hc
          rfl
      | none =>
          obtain ⟨-, -, -, hagain⟩ := resolveName_again hc h
          have hunknown : lookup name d = .ok (none, d) :=
            lookup_ok.mpr ⟨(h.unknown hknown.symm).symm, rfl⟩
          have hname : expr r (.name m name) d = resolveName r name m.offset d := by
            simp only [expr, Bind.bind, StateT.bind, Except.bind, hunknown]
          rw [hname, hagain]
  | static m name args binding =>
      obtain ⟨args', c₁, hargs, hc⟩ := bind_ok.mp hc
      obtain ⟨found, c₂, -, hc⟩ := bind_ok.mp hc
      cases pure_ok.mp hc
      exact bind_congr (exprs_again hargs h) fun _ _ _ => rfl
  | member m target name args binding =>
      obtain ⟨target', c₁, htarget, hc⟩ := bind_ok.mp hc
      obtain ⟨args', c₂, hargs, hc⟩ := bind_ok.mp hc
      obtain ⟨found, c₃, -, hc⟩ := bind_ok.mp hc
      cases pure_ok.mp hc
      refine bind_congr (expr_again htarget h) fun _ _ hd => ?_
      have h₁ := (expr_goes r target).same (expr_goes r target) h htarget hd
      exact bind_congr (exprs_again hargs h₁) fun _ _ _ => rfl
  | new m typeName args binding =>
      obtain ⟨args', c₁, hargs, hc⟩ := bind_ok.mp hc
      obtain ⟨found, c₂, -, hc⟩ := bind_ok.mp hc
      cases pure_ok.mp hc
      exact bind_congr (exprs_again hargs h) fun _ _ _ => rfl
  | binary m op lhs rhs =>
      obtain ⟨lhs', c₁, hlhs, hc⟩ := bind_ok.mp hc
      obtain ⟨rhs', c₂, hrhs, hc⟩ := bind_ok.mp hc
      cases hresult : op.result? lhs'.ty rhs'.ty with
      | some ty =>
          simp only [hresult] at hc
          cases pure_ok.mp hc
          refine bind_congr (expr_again hlhs h) fun _ _ hd => ?_
          have h₁ := (expr_goes r lhs).same (expr_goes r lhs) h hlhs hd
          exact bind_congr (expr_again hrhs h₁) fun _ _ _ => rfl
      | none =>
          simp only [hresult] at hc
          exact (throw_ok.mp hc).elim
  | unary m op operand =>
      obtain ⟨operand', c₁, hoperand, hc⟩ := bind_ok.mp hc
      cases hresult : op.result? operand'.ty with
      | some ty =>
          simp only [hresult] at hc
          cases pure_ok.mp hc
          exact bind_congr (expr_again hoperand h) fun _ _ _ => rfl
      | none =>
          simp only [hresult] at hc
          exact (throw_ok.mp hc).elim
  | cast m typeName operand => exact (throw_ok.mp hc).elim

theorem exprs_again {c c' d : Checker} {es es' : List Expr} (hc : exprs r es c = .ok (es', c'))
    (h : c.SameNames d) : exprs r es' d = exprs r es d := by
  cases es with
  | nil =>
      cases pure_ok.mp hc
      rfl
  | cons e rest =>
      obtain ⟨e', c₁, he, hc⟩ := bind_ok.mp hc
      obtain ⟨rest', c₂, hrest, hc⟩ := bind_ok.mp hc
      cases pure_ok.mp hc
      refine bind_congr (expr_again he h) fun _ _ hd => ?_
      have h₁ := (expr_goes r e).same (expr_goes r e) h he hd
      exact bind_congr (exprs_again hrest h₁) fun _ _ _ => rfl

end

-- What goes on behind a problem is never reached.
theorem of_refused {b : β} {cond : Prop} [Decidable cond] {problem : Diagnostic.Problem}
    {offset : Nat} {f : PUnit → Check β}
    (hc : (if cond then fail problem offset >>= f else f ⟨⟩) c = .ok (b, c')) :
    f ⟨⟩ c = .ok (b, c') := by
  split at hc
  · obtain ⟨_, _, hfail, -⟩ := bind_ok.mp hc
    exact (throw_ok.mp hfail).elim
  · exact hc

theorem condition_ok {test test' : Expr} (hc : condition r test c = .ok (test', c')) :
    expr r test c = .ok (test', c') := by
  obtain ⟨found, c₁, htest, hc⟩ := bind_ok.mp hc
  cases pure_ok.mp (of_refused (f := fun _ => pure found) hc)
  exact htest

theorem condition_again {test test' : Expr} (hc : condition r test c = .ok (test', c'))
    (h : c.SameNames d) : condition r test' d = condition r test d :=
  bind_congr (expr_again (condition_ok hc) h) fun _ _ _ => rfl

theorem condition_goes (r : Registry) (test : Expr) :
    Goes (fun _ => True) [] (·.Placed fun _ => True) (condition r test) :=
  .condition r (Expr.every_of_always (fun _ => trivial) test)

theorem change_again {how how' : Change} {ty : Ty} (hc : change r how c = .ok ((how', ty), c'))
    (h : c.SameNames d) : change r how' d = change r how d := by
  cases how with
  | compound op value =>
      obtain ⟨value', c₁, hvalue, hc⟩ := bind_ok.mp hc
      cases pure_ok.mp hc
      exact bind_congr (expr_again hvalue h) fun _ _ _ => rfl
  | increment =>
      cases pure_ok.mp hc
      rfl
  | decrement =>
      cases pure_ok.mp hc
      rfl

theorem varStmt_again {v v' : VarStmt} (hc : varStmt r v c = .ok (v', c')) (h : c.SameNames d) :
    varStmt r v' d = varStmt r v d := by
  cases v with
  | declare offset name value =>
      obtain ⟨value', c₁, hvalue, hc⟩ := bind_ok.mp hc
      obtain ⟨_, c₂, -, hc⟩ := bind_ok.mp (of_refused hc)
      cases pure_ok.mp hc
      exact bind_congr (expr_again hvalue h) fun _ _ _ => rfl
  | update offset name how current result =>
      obtain ⟨known, _, hlookup, hc⟩ := bind_ok.mp hc
      obtain ⟨-, rfl⟩ := lookup_ok.mp hlookup
      cases known with
      | none => exact (throw_ok.mp hc).elim
      | some ty =>
          obtain ⟨⟨how', rhs⟩, c₁, hchange, hc⟩ := bind_ok.mp hc
          cases hresult : (BinaryOp.arith how'.op).result? ty rhs with
          | none =>
              simp only [hresult] at hc
              exact (throw_ok.mp hc).elim
          | some written =>
              simp only [hresult] at hc
              obtain ⟨_, c₂, -, hc⟩ := bind_ok.mp hc
              cases pure_ok.mp hc
              refine bind_congr rfl fun known d₁ hd => ?_
              obtain ⟨-, rfl⟩ := lookup_ok.mp hd
              cases known with
              | none => rfl
              | some ty => exact bind_congr (change_again hchange h) fun _ _ _ => rfl

-- Whatever is assigned, the target is checked again with the same result.
theorem assignTarget_again {target target' value : Expr} {offset : Nat}
    (hc : assignTarget r target value offset c = .ok (target', c')) (h : c.SameNames d)
    (other : Expr) :
    assignTarget r target' other offset d = assignTarget r target other offset d := by
  cases target with
  | name m name =>
      obtain ⟨⟨binding, ty⟩, c₁, -, hc⟩ := bind_ok.mp hc
      cases binding with
      | property id =>
          obtain ⟨_, c₂, -, hc⟩ := bind_ok.mp hc
          cases pure_ok.mp hc
          rfl
      | _ =>
          obtain ⟨_, _, hfail, -⟩ := bind_ok.mp hc
          exact (throw_ok.mp hfail).elim
  | static m name args binding =>
      obtain ⟨⟨binding, ty⟩, c₁, -, hc⟩ := bind_ok.mp hc
      cases binding with
      | property id =>
          obtain ⟨_, c₂, -, hc⟩ := bind_ok.mp hc
          cases pure_ok.mp hc
          rfl
      | _ =>
          obtain ⟨_, _, hfail, -⟩ := bind_ok.mp hc
          exact (throw_ok.mp hfail).elim
  | member m owner name args binding =>
      obtain ⟨owner', c₁, howner, hc⟩ := bind_ok.mp hc
      obtain ⟨⟨binding, ty⟩, c₂, -, hc⟩ := bind_ok.mp hc
      cases binding with
      | dynamic =>
          cases pure_ok.mp hc
          exact bind_congr (expr_again howner h) fun _ _ _ => rfl
      | property id =>
          obtain ⟨_, c₃, -, hc⟩ := bind_ok.mp hc
          cases pure_ok.mp hc
          exact bind_congr (expr_again howner h) fun _ _ _ => rfl
      | _ =>
          obtain ⟨_, _, hfail, -⟩ := bind_ok.mp hc
          exact (throw_ok.mp hfail).elim
  | _ => exact (throw_ok.mp hc).elim

theorem refuseVariable_ok {target : Expr} {problem : String → Diagnostic.Problem} {offset : Nat}
    {u : Unit} : refuseVariable target problem offset c = .ok (u, c') ↔
      (∀ m name, target = .name m name → ¬c.ctx.Binds name) ∧ c' = c := by
  cases target with
  | name m name =>
      have hrefuse : refuseVariable (.name m name) problem offset c =
          if c.ctx.Binds name then .error ⟨problem name, offset⟩ else .ok ((), c) := by
        change (ite (c.ctx.Binds name) _ _ : Check Unit) c = _
        split
        · rfl
        · rfl
      have hnames : (∀ m' x, Expr.name m name = .name m' x → ¬c.ctx.Binds x) ↔ ¬c.ctx.Binds name :=
        ⟨fun h => h m name rfl, fun h _ _ heq => by cases heq; exact h⟩
      rw [hrefuse, hnames]
      by_cases hbound : c.ctx.Binds name
      · rw [if_pos hbound]
        exact ⟨nofun, fun h => absurd hbound h.1⟩
      · rw [if_neg hbound]
        exact ⟨fun h => ⟨hbound, by cases h; rfl⟩, fun h => by rw [h.2]⟩
  | _ => exact pure_ok.trans (by simp)

-- Nothing but a variable is checked to be a variable.
theorem binds_of_name {e : Expr} {m : Mark} {name : String}
    (hc : expr r e c = .ok (.name m name, c')) : ∃ m', e = .name m' name ∧ c.ctx.Binds name := by
  cases e with
  | name m' x =>
      obtain ⟨known, _, hlookup, hc⟩ := bind_ok.mp hc
      obtain ⟨hknown, rfl⟩ := lookup_ok.mp hlookup
      cases known with
      | some ty =>
          obtain ⟨_, _, -, hc⟩ := bind_ok.mp hc
          cases pure_ok.mp hc
          exact ⟨m', rfl, TypeContext.binds_of_lookup hknown.symm⟩
      | none =>
          obtain ⟨_, _, hget, hc⟩ := bind_ok.mp hc
          obtain ⟨_, _, -, hc⟩ := bind_ok.mp (of_refused hc)
          cases pure_ok.mp hc
  | literal m value => cases pure_ok.mp hc
  | static m x args binding =>
      obtain ⟨_, _, -, hc⟩ := bind_ok.mp hc
      obtain ⟨_, _, -, hc⟩ := bind_ok.mp hc
      cases pure_ok.mp hc
  | member m target x args binding =>
      obtain ⟨_, _, -, hc⟩ := bind_ok.mp hc
      obtain ⟨_, _, -, hc⟩ := bind_ok.mp hc
      obtain ⟨_, _, -, hc⟩ := bind_ok.mp hc
      cases pure_ok.mp hc
  | new m typeName args binding =>
      obtain ⟨_, _, -, hc⟩ := bind_ok.mp hc
      obtain ⟨_, _, -, hc⟩ := bind_ok.mp hc
      cases pure_ok.mp hc
  | binary m op lhs rhs =>
      obtain ⟨lhs', _, -, hc⟩ := bind_ok.mp hc
      obtain ⟨rhs', _, -, hc⟩ := bind_ok.mp hc
      cases hresult : op.result? lhs'.ty rhs'.ty with
      | some ty =>
          simp only [hresult] at hc
          cases pure_ok.mp hc
      | none =>
          simp only [hresult] at hc
          exact (throw_ok.mp hc).elim
  | unary m op operand =>
      obtain ⟨operand', _, -, hc⟩ := bind_ok.mp hc
      cases hresult : op.result? operand'.ty with
      | some ty =>
          simp only [hresult] at hc
          cases pure_ok.mp hc
      | none =>
          simp only [hresult] at hc
          exact (throw_ok.mp hc).elim
  | cast m typeName operand => exact (throw_ok.mp hc).elim

theorem assignStatic_ne_name {mark m : Mark} {x name : String} {args : List Expr} {value : Expr} :
    assignStatic r mark x args value c ≠ .ok (.name m name, c') := by
  intro hc
  obtain ⟨⟨binding, ty⟩, _, -, hc⟩ := bind_ok.mp hc
  cases binding with
  | property id =>
      obtain ⟨_, _, -, hc⟩ := bind_ok.mp hc
      cases pure_ok.mp hc
  | _ =>
      obtain ⟨_, _, hfail, -⟩ := bind_ok.mp hc
      exact (throw_ok.mp hfail).elim

theorem assignTarget_ne_name {target value : Expr} {offset : Nat} {m : Mark} {name : String} :
    assignTarget r target value offset c ≠ .ok (.name m name, c') := by
  intro hc
  cases target with
  | name m' x => exact assignStatic_ne_name hc
  | static m' x args binding => exact assignStatic_ne_name hc
  | member m' owner x args binding =>
      obtain ⟨_, _, -, hc⟩ := bind_ok.mp hc
      obtain ⟨⟨binding, ty⟩, _, -, hc⟩ := bind_ok.mp hc
      cases binding with
      | dynamic => cases pure_ok.mp hc
      | property id =>
          obtain ⟨_, _, -, hc⟩ := bind_ok.mp hc
          cases pure_ok.mp hc
      | _ =>
          obtain ⟨_, _, hfail, -⟩ := bind_ok.mp hc
          exact (throw_ok.mp hfail).elim
  | _ => exact (throw_ok.mp hc).elim

-- A target that was no variable is none after it was checked.
theorem refuseVariable_again {target target' : Expr} {problem : String → Diagnostic.Problem}
    {offset : Nat} {u : Unit} (hc : refuseVariable target problem offset c = .ok (u, c'))
    (htarget : ∀ m name, target' = .name m name → ∃ m', target = .name m' name ∧ c.ctx.Binds name)
    (h : c.SameNames d) :
    refuseVariable target' problem offset d = refuseVariable target problem offset d := by
  obtain ⟨hunbound, rfl⟩ := refuseVariable_ok.mp hc
  have hfirst : refuseVariable target problem offset d = .ok ((), d) := by
    refine refuseVariable_ok.mpr ⟨fun m name heq hbound => ?_, rfl⟩
    exact hunbound m name heq ((h.binds name).mpr hbound)
  rw [hfirst]
  refine refuseVariable_ok.mpr ⟨fun m name heq _ => ?_, rfl⟩
  obtain ⟨m', hname, hbound⟩ := htarget m name heq
  exact hunbound m' name hname hbound

-- The same inside a block.
theorem framed_ok {kind : FrameKind} {x : Check α} {f : α → Check β} {b : β}
    (hc : (do
      pushFrame kind
      let a ← x
      popFrame
      f a) c = .ok (b, c')) : ∃ a c₁, x { c with ctx := c.ctx.push kind } = .ok (a, c₁) ∧
        f a { c₁ with ctx := c₁.ctx.pop } = .ok (b, c') := by
  obtain ⟨_, _, hpush, hc⟩ := bind_ok.mp hc
  cases modify_ok.mp hpush
  obtain ⟨a, c₁, hx, hc⟩ := bind_ok.mp hc
  obtain ⟨_, _, hpop, hc⟩ := bind_ok.mp hc
  cases modify_ok.mp hpop
  exact ⟨a, c₁, hx, hc⟩

theorem framed_congr {kind : FrameKind} {x x' : Check α} {f f' : α → Check β}
    (hx : x' { d with ctx := d.ctx.push kind } = x { d with ctx := d.ctx.push kind })
    (hf : ∀ a d₁, x { d with ctx := d.ctx.push kind } = .ok (a, d₁) →
      f' a { d₁ with ctx := d₁.ctx.pop } = f a { d₁ with ctx := d₁.ctx.pop }) :
    (do
      pushFrame kind
      let a ← x'
      popFrame
      f' a) d = (do
      pushFrame kind
      let a ← x
      popFrame
      f a) d := by
  refine bind_congr rfl fun _ _ hpush => ?_
  cases modify_ok.mp hpush
  refine bind_congr hx fun a d₁ hd => bind_congr rfl fun _ _ hpop => ?_
  cases modify_ok.mp hpop
  exact hf a d₁ hd

-- Behind a block, two checkers know the same variables again.
theorem Goes.same_framed {kind : FrameKind} {x : Check α} {a b : α} {c₁ d₁ : Checker}
    (hx : Goes P names Q x) (h : c.SameNames d)
    (hc : x { c with ctx := c.ctx.push kind } = .ok (a, c₁))
    (hd : x { d with ctx := d.ctx.push kind } = .ok (b, d₁)) :
    SameNames { c₁ with ctx := c₁.ctx.pop } { d₁ with ctx := d₁.ctx.pop } :=
  h.leads (((hx _ (by simp)).1 a c₁ hc).1.framed h.nonempty)
    (((hx _ (by simp)).1 b d₁ hd).1.framed h.nonempty')

theorem whilePass_goes (r : Registry) (offset : Nat) (test : Expr) (body : List Stmt) :
    Goes (fun _ => True) (Stmt.writtenAll body) (·.Placed fun _ => True)
      (whilePass r offset test body) :=
  .whilePass r trivial (Expr.every_of_always (fun _ => trivial) test) (stmts_goes r body)

theorem forPass_goes (r : Registry) (offset : Nat) (init : VarStmt) (test : Expr) (step : VarStmt)
    (body : List Stmt) :
    Goes (fun _ => True) (Stmt.writtenAll body ++ [step.name]) (·.Placed fun _ => True)
      (forPass r offset init test step body) :=
  .forPass r trivial (init.placed_of_always fun _ => trivial)
    (Expr.every_of_always (fun _ => trivial) test) (step.placed_of_always fun _ => trivial)
    (stmts_goes r body)

theorem eachPass_goes (r : Registry) (offset : Nat) (item : String) (source : Expr)
    (body : List Stmt) (how : Iteration) (itemTy : Ty) :
    Goes (fun _ => True) (item :: Stmt.writtenAll body) (·.Placed fun _ => True)
      (eachPass r offset item source body how itemTy) :=
  .eachPass r item how itemTy trivial (Expr.every_of_always (fun _ => trivial) source)
    (stmts_goes r body)

theorem countPass_goes (r : Registry) (offset : Nat) (count : Expr) (body : List Stmt) :
    Goes (fun _ => True) (Stmt.writtenAll body) (·.Placed fun _ => True)
      (countPass r offset count body) :=
  .countPass r trivial (Expr.every_of_always (fun _ => trivial) count) (stmts_goes r body)

section Passes

variable {offset : Nat} {body : List Stmt} {s' : Stmt}

-- The body of a loop is checked again with the same result.
def Repeats (r : Registry) (body : List Stmt) : Prop :=
  ∀ {c c' d : Checker} {body' : List Stmt}, stmts r body c = .ok (body', c') → c.SameNames d →
    stmts r body' d = stmts r body d

theorem whilePass_again {test : Expr} (hbody : Repeats r body)
    (hc : whilePass r offset test body c = .ok (s', c')) :
    ∃ test' body', s' = .whileLoop offset test' body' ∧ ∀ d, c.SameNames d →
      whilePass r offset test' body' d = whilePass r offset test body d := by
  obtain ⟨test', c₁, htest, hc⟩ := bind_ok.mp hc
  obtain ⟨body', c₂, hbody', hc⟩ := bind_ok.mp hc
  cases pure_ok.mp hc
  refine ⟨test', body', rfl, fun d h => ?_⟩
  refine bind_congr (condition_again htest h) fun _ _ hd => ?_
  have h₁ := (condition_goes r test).same (condition_goes r test) h htest hd
  exact bind_congr (hbody hbody' h₁) fun _ _ _ => rfl

theorem forPass_again {init step : VarStmt} {test : Expr} (hbody : Repeats r body)
    (hc : forPass r offset init test step body c = .ok (s', c')) :
    ∃ test' step' body', s' = .forLoop offset init test' step' body' ∧ ∀ init d, c.SameNames d →
      forPass r offset init test' step' body' d = forPass r offset init test step body d := by
  obtain ⟨test', c₁, htest, hc⟩ := bind_ok.mp hc
  obtain ⟨body', c₂, hbody', hc⟩ := bind_ok.mp hc
  obtain ⟨step', c₃, hstep, hc⟩ := bind_ok.mp hc
  cases pure_ok.mp hc
  refine ⟨test', step', body', rfl, fun init d h => ?_⟩
  refine bind_congr (condition_again htest h) fun _ _ hd => ?_
  have h₁ := (condition_goes r test).same (condition_goes r test) h htest hd
  refine bind_congr (hbody hbody' h₁) fun _ _ hd => ?_
  have h₂ := (stmts_goes r body).same (stmts_goes r body) h₁ hbody' hd
  exact bind_congr (varStmt_again hstep h₂) fun _ _ _ => rfl

theorem eachPass_again {item : String} {source : Expr} {how : Iteration} {itemTy : Ty}
    (hbody : Repeats r body)
    (hc : eachPass r offset item source body how itemTy c = .ok (s', c')) :
    ∃ body', s' = .eachLoop offset item source body' how ∧ ∀ source how itemTy d, c.SameNames d →
      eachPass r offset item source body' how itemTy d =
        eachPass r offset item source body how itemTy d := by
  obtain ⟨_, c₁, hwrite, hc⟩ := bind_ok.mp hc
  obtain ⟨body', c₂, hbody', hc⟩ := bind_ok.mp hc
  cases pure_ok.mp hc
  refine ⟨body', rfl, fun source how itemTy' d h => ?_⟩
  refine bind_congr rfl fun _ _ hd => ?_
  have h₁ := (Goes.write (P := fun _ => True) item itemTy offset).same (.write item itemTy' offset)
    h hwrite hd
  exact bind_congr (hbody hbody' h₁) fun _ _ _ => rfl

theorem countPass_again {count : Expr} (hbody : Repeats r body)
    (hc : countPass r offset count body c = .ok (s', c')) :
    ∃ body', s' = .countLoop offset count body' ∧ ∀ count d, c.SameNames d →
      countPass r offset count body' d = countPass r offset count body d := by
  obtain ⟨body', c₁, hbody', hc⟩ := bind_ok.mp hc
  cases pure_ok.mp hc
  exact ⟨body', rfl, fun count d h => bind_congr (hbody hbody' h) fun _ _ _ => rfl⟩

end Passes

mutual

-- The same holds of statements.
theorem stmt_again {c c' d : Checker} {s s' : Stmt} (hc : stmt r s c = .ok (s', c'))
    (h : c.SameNames d) : stmt r s' d = stmt r s d := by
  cases s with
  | «using» offset ns => exact (throw_ok.mp hc).elim
  | input offset name typeName declared => exact (throw_ok.mp hc).elim
  | var v =>
      obtain ⟨v', c₁, hv, hc⟩ := bind_ok.mp hc
      cases pure_ok.mp hc
      exact bind_congr (varStmt_again hv h) fun _ _ _ => rfl
  | cond offset test body rest =>
      obtain ⟨test', c₁, htest, hc⟩ := bind_ok.mp hc
      obtain ⟨body', c₂, hbody, hc⟩ := framed_ok hc
      obtain ⟨rest', c₃, hrest, hc⟩ := bind_ok.mp hc
      cases pure_ok.mp hc
      refine bind_congr (condition_again htest h) fun _ _ hd => ?_
      have h₁ := (condition_goes r test).same (condition_goes r test) h htest hd
      refine framed_congr (stmts_again hbody (h₁.push _)) fun _ _ hd => ?_
      have h₂ := (stmts_goes r body).same_framed h₁ hbody hd
      exact bind_congr (branches_again hrest h₂) fun _ _ _ => rfl
  | whileLoop offset test body =>
      have hgoes := whilePass_goes r offset test body
      obtain ⟨c₀, c₁, hstarts, hpass, rfl⟩ := loop_ok hgoes.imports hc
      obtain ⟨test', body', rfl, hagain⟩ := whilePass_again (fun hc h => stmts_again hc h) hpass
      exact hgoes.loop_again h hstarts hagain
  | forLoop offset init test step body =>
      obtain ⟨init', c₁, hinit, hc⟩ := bind_ok.mp hc
      have hgoes := fun init => forPass_goes r offset init test step body
      obtain ⟨c₀, c₂, hstarts, hpass, rfl⟩ := loop_ok (hgoes init').imports hc
      obtain ⟨test', step', body', rfl, hagain⟩ :=
        forPass_again (fun hc h => stmts_again hc h) hpass
      refine bind_congr (varStmt_again hinit h) fun init'' _ hd => ?_
      have h₁ := (varStmt_goes r init).same (varStmt_goes r init) h hinit hd
      exact (hgoes init'').loop_again h₁ hstarts (hagain init'')
  | eachLoop offset item source body how =>
      obtain ⟨source', c₁, hsource, hc⟩ := bind_ok.mp hc
      obtain ⟨⟨how', itemTy⟩, c₂, hhow, hc⟩ := bind_ok.mp hc
      have hgoes := fun source how itemTy => eachPass_goes r offset item source body how itemTy
      obtain ⟨c₀, c₃, hstarts, hpass, rfl⟩ := loop_ok (hgoes source' how' itemTy).imports hc
      obtain ⟨body', rfl, hagain⟩ := eachPass_again (fun hc h => stmts_again hc h) hpass
      refine bind_congr (expr_again hsource h) fun source'' _ hd => ?_
      have h₁ := (expr_goes r source).same (expr_goes r source) h hsource hd
      refine bind_congr rfl fun ⟨how'', itemTy'⟩ _ hd => ?_
      have h₂ := (iteration_goes r source').same (iteration_goes r source'') h₁ hhow hd
      exact (hgoes source'' how'' itemTy').loop_again h₂ hstarts (hagain source'' how'' itemTy')
  | countLoop offset count body =>
      obtain ⟨count', c₁, hcount, hc⟩ := bind_ok.mp hc
      have hgoes := fun count => countPass_goes r offset count body
      obtain ⟨c₀, c₂, hstarts, hpass, rfl⟩ := loop_ok (hgoes count').imports (of_refused hc)
      obtain ⟨body', rfl, hagain⟩ := countPass_again (fun hc h => stmts_again hc h) hpass
      refine bind_congr (expr_again hcount h) fun count'' d₁ hd => ?_
      have h₁ := (expr_goes r count).same (expr_goes r count) h hcount hd
      have hloop := (hgoes count'').loop_again h₁ hstarts (hagain count'')
      split
      · rfl
      · exact hloop
  | leave offset =>
      obtain ⟨_, _, -, hc⟩ := bind_ok.mp hc
      cases pure_ok.mp (of_refused (f := fun _ => pure (Stmt.leave offset)) hc)
      rfl
  | again offset =>
      obtain ⟨_, _, -, hc⟩ := bind_ok.mp hc
      cases pure_ok.mp (of_refused (f := fun _ => pure (Stmt.again offset)) hc)
      rfl
  | ret offset value =>
      cases value with
      | none =>
          cases pure_ok.mp hc
          rfl
      | some value =>
          obtain ⟨value', c₁, hvalue, hc⟩ := bind_ok.mp hc
          cases pure_ok.mp (of_refused (f := fun _ => pure (Stmt.ret offset (some value'))) hc)
          exact bind_congr (expr_again hvalue h) fun _ _ _ => rfl
  | exit offset =>
      cases pure_ok.mp hc
      rfl
  | func offset name params body => exact (throw_ok.mp hc).elim
  | call offset target =>
      obtain ⟨_, _, hrefuse, hc⟩ := bind_ok.mp hc
      obtain ⟨target', c₂, htarget, hc⟩ := bind_ok.mp hc
      cases pure_ok.mp hc
      obtain ⟨-, rfl⟩ := refuseVariable_ok.mp hrefuse
      refine bind_congr (refuseVariable_again hrefuse ?_ h) fun _ _ hd => ?_
      · rintro m name rfl
        exact binds_of_name htarget
      · obtain ⟨-, rfl⟩ := refuseVariable_ok.mp hd
        exact bind_congr (expr_again htarget h) fun _ _ _ => rfl
  | assign offset target value =>
      obtain ⟨_, _, hrefuse, hc⟩ := bind_ok.mp hc
      obtain ⟨value', c₂, hvalue, hc⟩ := bind_ok.mp hc
      obtain ⟨target', c₃, htarget, hc⟩ := bind_ok.mp hc
      cases pure_ok.mp hc
      obtain ⟨-, rfl⟩ := refuseVariable_ok.mp hrefuse
      refine bind_congr (refuseVariable_again hrefuse ?_ h) fun _ _ hd => ?_
      · rintro m name rfl
        exact (assignTarget_ne_name htarget).elim
      · obtain ⟨-, rfl⟩ := refuseVariable_ok.mp hd
        refine bind_congr (expr_again hvalue h) fun value'' _ hd => ?_
        have h₁ := (expr_goes r value).same (expr_goes r value) h hvalue hd
        exact bind_congr (assignTarget_again htarget h₁ value'') fun _ _ _ => rfl

theorem stmts_again {c c' d : Checker} {ss ss' : List Stmt} (hc : stmts r ss c = .ok (ss', c'))
    (h : c.SameNames d) : stmts r ss' d = stmts r ss d := by
  cases ss with
  | nil =>
      cases pure_ok.mp hc
      rfl
  | cons s rest =>
      obtain ⟨s', c₁, hs, hc⟩ := bind_ok.mp hc
      obtain ⟨rest', c₂, hrest, hc⟩ := bind_ok.mp hc
      cases pure_ok.mp hc
      refine bind_congr (stmt_again hs h) fun _ _ hd => ?_
      have h₁ := (stmt_goes r s).same (stmt_goes r s) h hs hd
      exact bind_congr (stmts_again hrest h₁) fun _ _ _ => rfl

theorem branches_again {c c' d : Checker} {b b' : Branches} (hc : branches r b c = .ok (b', c'))
    (h : c.SameNames d) : branches r b' d = branches r b d := by
  cases b with
  | done =>
      cases pure_ok.mp hc
      rfl
  | otherwise body =>
      obtain ⟨body', c₁, hbody, hc⟩ := framed_ok hc
      cases pure_ok.mp hc
      exact framed_congr (stmts_again hbody (h.push _)) fun _ _ _ => rfl
  | elseIf test body rest =>
      obtain ⟨test', c₁, htest, hc⟩ := bind_ok.mp hc
      obtain ⟨body', c₂, hbody, hc⟩ := framed_ok hc
      obtain ⟨rest', c₃, hrest, hc⟩ := bind_ok.mp hc
      cases pure_ok.mp hc
      refine bind_congr (condition_again htest h) fun _ _ hd => ?_
      have h₁ := (condition_goes r test).same (condition_goes r test) h htest hd
      refine framed_congr (stmts_again hbody (h₁.push _)) fun _ _ hd => ?_
      have h₂ := (stmts_goes r body).same_framed h₁ hbody hd
      exact bind_congr (branches_again hrest h₂) fun _ _ _ => rfl

end

-- The part of a loop that is checked in passes.
def loopPass (r : Registry) (itemTy : Ty) : Stmt → Check Stmt
  | .whileLoop offset test body => whilePass r offset test body
  | .forLoop offset init test step body => forPass r offset init test step body
  | .eachLoop offset item source body how => eachPass r offset item source body how itemTy
  | .countLoop offset count body => countPass r offset count body
  | s => return s

-- A loop may be rewritten while it is checked: a second pass over what the first one left does the
-- same as one over the loop as it was written.
theorem passes_in_place {itemTy : Ty} {s : Stmt} (h : c.ctx.kinds ≠ []) :
    passes (loopPass r itemTy s) (loopPass r itemTy) c = loop (loopPass r itemTy s) c := by
  rw [loop_eq]
  refine passes_congr rfl fun s' c₁ writes hfirst => ?_
  have hnames : c₁.imports = c.imports →
      c.entered.SameNames (c₁.reentered c.ctx (changedIn c.ctx writes)) := fun himports =>
    (SameNames.refl h).starts .first (.second writes c₁ himports)
  cases s with
  | whileLoop offset test body =>
      have himports := (whilePass_goes r offset test body).imports c.entered s' c₁ .first hfirst
      obtain ⟨test', body', rfl, hagain⟩ := whilePass_again (fun hc h => stmts_again hc h) hfirst
      exact hagain _ (hnames himports)
  | forLoop offset init test step body =>
      have himports :=
        (forPass_goes r offset init test step body).imports c.entered s' c₁ .first hfirst
      obtain ⟨test', step', body', rfl, hagain⟩ :=
        forPass_again (fun hc h => stmts_again hc h) hfirst
      exact hagain init _ (hnames himports)
  | eachLoop offset item source body how =>
      have himports :=
        (eachPass_goes r offset item source body how itemTy).imports c.entered s' c₁ .first hfirst
      obtain ⟨body', rfl, hagain⟩ := eachPass_again (fun hc h => stmts_again hc h) hfirst
      exact hagain source how itemTy _ (hnames himports)
  | countLoop offset count body =>
      have himports := (countPass_goes r offset count body).imports c.entered s' c₁ .first hfirst
      obtain ⟨body', rfl, hagain⟩ := countPass_again (fun hc h => stmts_again hc h) hfirst
      exact hagain count _ (hnames himports)
  | _ =>
      cases pure_ok.mp hfirst
      rfl

variable {imports : List String}

theorem topStmt_of_stmt {s s' : Stmt} (h : stmt r s { c with header := .body } = .ok (s', c')) :
    topStmt r s c = .ok (s', c') := by
  cases s with
  | «using» offset ns => exact (throw_ok.mp h).elim
  | input offset name typeName declared => exact (throw_ok.mp h).elim
  | _ => exact h

theorem topStmt_again {s s' : Stmt} (hc : topStmt r s c = .ok (s', c')) (h : c.ctx.kinds ≠ []) :
    topStmt r s' c = .ok (s', c') := by
  cases s with
  | «using» offset ns =>
      obtain ⟨_, _, -, hc'⟩ := bind_ok.mp hc
      cases pure_ok.mp hc'
      exact hc
  | input offset name typeName declared =>
      obtain ⟨ty, c₁, -, hc'⟩ := bind_ok.mp hc
      cases pure_ok.mp hc'
      exact hc
  | _ =>
      obtain ⟨_, _, hbody, hc⟩ := bind_ok.mp hc
      cases modify_ok.mp hbody
      exact topStmt_of_stmt ((stmt_again hc (.refl h)).trans hc)

theorem topStmts_again {ss ss' : List Stmt} (hc : topStmts r ss c = .ok (ss', c'))
    (h : c.ctx.kinds ≠ []) : topStmts r ss' c = .ok (ss', c') := by
  induction ss generalizing ss' c with
  | nil =>
      cases pure_ok.mp hc
      rfl
  | cons s rest ih =>
      obtain ⟨s', c₁, hs, hc⟩ := bind_ok.mp hc
      obtain ⟨rest', c₂, hrest, hc⟩ := bind_ok.mp hc
      cases pure_ok.mp hc
      have h₁ : c₁.ctx.kinds = c.ctx.kinds := (Settles.topStmt r h s c s' c₁ rfl hs).1
      exact bind_ok.mpr ⟨s', c₁, topStmt_again hs h,
        bind_ok.mpr ⟨rest', _, ih hrest (h₁ ▸ h), rfl⟩⟩

theorem script_again {s s' : Script} (hc : script r imports s c = .ok (s', c'))
    (h : c.ctx.kinds ≠ []) : script r imports s' c = .ok (s', c') := by
  obtain ⟨_, c₁, himports, hc⟩ := bind_ok.mp hc
  have h₁ : c₁.ctx.kinds = c.ctx.kinds := (Settles.importAll imports c _ c₁ rfl himports).1
  exact bind_ok.mpr ⟨_, c₁, himports, topStmts_again hc (h₁ ▸ h)⟩

end Check

namespace Script

-- A checked script is checked again with the same result: nothing in it changes, and it has the
-- same inputs, imports and variables.
theorem check_checked {r : Registry} {imports : List String} {s checked : Script} {a : Analysis}
    (h : s.check r imports = .ok (checked, a)) : checked.check r imports = .ok (checked, a) := by
  unfold check at h ⊢
  cases hrun : (Check.script r imports s).run {} with
  | error d => simp [hrun, Except.map] at h
  | ok found =>
      obtain ⟨checked', c'⟩ := found
      have hsame : checked' = checked := by
        rw [hrun] at h
        cases h
        rfl
      subst hsame
      have hagain := Check.script_again hrun (by simp [TypeContext.kinds, TypeContext.initial])
      rw [← h, hrun]
      exact congrArg _ hagain

-- A static constant is read, and the loop is checked twice because the type of a variable changes.
def approaching : String :=
  "var [x] = [8]\nwhile [x > pole] do\n var [x] = [x / 2]\nend"

theorem approaching_checked : ∃ s checked a, parse approaching = .ok s ∧
    s.check CompiledScript.poles ["north"] = .ok (checked, a) ∧
    checked.check CompiledScript.poles ["north"] = .ok (checked, a) := by
  have hchecks : (analyze CompiledScript.poles ["north"] approaching).isOk = true := by
    decide +kernel
  cases hanalyze : analyze CompiledScript.poles ["north"] approaching with
  | error d => simp [hanalyze, Except.isOk, Except.toBool] at hchecks
  | ok found =>
      obtain ⟨s, hparse, hcheck⟩ := except_bind_ok.mp hanalyze
      exact ⟨s, found.1, found.2, hparse, hcheck, check_checked hcheck⟩

end Script

end HostScript
