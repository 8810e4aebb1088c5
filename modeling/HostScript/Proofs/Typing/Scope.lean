import HostScript.Proofs.Script.Places
import HostScript.Proofs.Typing.Frames
import HostScript.Proofs.Typing.Settled

namespace HostScript

namespace TypeContext

variable {ctx : TypeContext} {name x : String} {ty : Ty} {kind : FrameKind}

-- A variable is known, whatever its type.
def Binds (ctx : TypeContext) (name : String) : Prop :=
  (ctx.lookup name).isSome = true

instance : Decidable (ctx.Binds name) :=
  inferInstanceAs (Decidable ((ctx.lookup name).isSome = true))

theorem not_binds (h : ¬ctx.Binds name) : ctx.lookup name = none := by
  simpa [Binds] using h

theorem binds_of_lookup (h : ctx.lookup name = some ty) : ctx.Binds name := by
  simp [Binds, h]

theorem kinds_ne_nil (h : ctx.kinds ≠ []) : ctx.frames ≠ [] := by
  simpa [kinds] using h

@[simp] theorem binds_push : (ctx.push kind).Binds x ↔ ctx.Binds x := by
  simp only [Binds, lookup_push]

theorem binds_set (h : ctx.kinds ≠ []) : (ctx.set name ty).Binds x ↔ ctx.Binds x ∨ x = name := by
  obtain ⟨f, rest, hframes⟩ := List.exists_cons_of_ne_nil (kinds_ne_nil h)
  have hset : (ctx.set name ty).frames = f.set name ty :: rest := by simp [set, hframes]
  unfold Binds
  rw [lookup_cons hset, lookup_cons hframes, Frame.set, List.lookup_cons]
  by_cases hx : x = name
  · simp [hx]
  · rw [show (x == name) = false by simpa using hx, lookup_filter_ne hx]
    simp [hx]

-- Variables that are known already are set without making others known.
theorem binds_foldl_set (names : List String) (h : ctx.kinds ≠ [])
    (hnames : ∀ name ∈ names, ctx.Binds name) :
    (names.foldl (fun ctx name => ctx.set name ty) ctx).Binds x ↔ ctx.Binds x := by
  induction names generalizing ctx with
  | nil => exact Iff.rfl
  | cons name rest ih =>
      have hset : ∀ y, (ctx.set name ty).Binds y ↔ ctx.Binds y := by
        intro y
        rw [binds_set h]
        exact or_iff_left_of_imp fun hy => hy ▸ hnames name List.mem_cons_self
      rw [List.foldl_cons, ih (by simpa using h), hset]
      exact fun y hy => (hset y).mpr (hnames y (List.mem_cons_of_mem _ hy))

theorem binds_merge (h : ctx.kinds ≠ []) (binding : String × Ty) :
    (merge kind ctx binding).Binds x ↔ ctx.Binds x ∨ x = binding.1 := by
  unfold merge
  split
  · split
    · rename_i hsame
      exact (or_iff_left_of_imp fun hx => hx ▸ binds_of_lookup hsame).symm
    · exact binds_set h
  · exact binds_set h
  · exact binds_set h

theorem binds_foldl_merge (h : ctx.kinds ≠ []) (bindings : List (String × Ty)) :
    (bindings.foldl (merge kind) ctx).Binds x ↔ ctx.Binds x ∨ (bindings.lookup x).isSome := by
  induction bindings generalizing ctx with
  | nil => simp
  | cons binding rest ih =>
      have hkinds : (merge kind ctx binding).kinds ≠ [] := by rwa [kinds_merge]
      rw [List.foldl_cons, ih hkinds, binds_merge h, List.lookup_cons, or_assoc]
      by_cases hx : x = binding.1
      · simp [hx]
      · rw [show (x == binding.1) = false by simpa using hx]
        simp only [hx, false_or]

-- What was known inside a block is known behind it.
theorem binds_pop : ctx.pop.Binds x ↔ ctx.Binds x := by
  unfold pop
  split
  · rename_i f g rest hframes
    have houter : TypeContext.kinds ⟨g :: rest⟩ ≠ [] := by simp [TypeContext.kinds]
    rw [binds_foldl_merge houter, Binds, Binds, lookup_cons hframes, or_comm]
    simp [Option.isSome_or]
  · exact Iff.rfl

end TypeContext

-- One checker comes from another: it has the same imports and stands in the same blocks, and knows
-- the given variables besides.
structure Checker.Leads (names : List String) (c c' : Checker) : Prop where
  imports : c'.imports = c.imports
  kinds : c'.ctx.kinds = c.ctx.kinds
  binds : ∀ x, c'.ctx.Binds x ↔ c.ctx.Binds x ∨ x ∈ names

namespace Checker.Leads

variable {names names' : List String} {c c₁ c' : Checker}

theorem refl (c : Checker) : c.Leads [] c :=
  ⟨rfl, rfl, by simp⟩

theorem trans (h : c.Leads names c₁) (h' : c₁.Leads names' c') : c.Leads (names ++ names') c' := by
  refine ⟨h'.imports.trans h.imports, h'.kinds.trans h.kinds, fun x => ?_⟩
  rw [h'.binds, h.binds, List.mem_append, or_assoc]

theorem kinds_ne_nil (h : c.Leads names c') (hc : c.ctx.kinds ≠ []) : c'.ctx.kinds ≠ [] := by
  rwa [h.kinds]

-- Between entering a block and leaving it.
theorem framed {kind : FrameKind} (hc : c.ctx.kinds ≠ [])
    (h : Leads names { c with ctx := c.ctx.push kind } c') :
    c.Leads names { c' with ctx := c'.ctx.pop } := by
  have hkinds : c'.ctx.kinds = kind :: c.ctx.kinds := h.kinds
  refine ⟨h.imports, TypeContext.kinds_pop hkinds hc, fun x => ?_⟩
  rw [TypeContext.binds_pop, h.binds, TypeContext.binds_push]

end Checker.Leads

-- Inside a loop, before its first pass.
def Checker.entered (c : Checker) : Checker :=
  { c with ctx := c.ctx.push .loop, writes := [] :: c.writes }

-- Inside a loop again, where the types of some variables from outside are forgotten.
def Checker.reentered (c : Checker) (before : TypeContext) (changed : List String) : Checker :=
  { c with
    ctx := changed.foldl (fun ctx name => ctx.set name .dynamic) (before.push .loop)
    writes := [] :: c.writes.tail }

-- Behind a loop.
def Checker.left (c : Checker) : Checker :=
  { c with ctx := c.ctx.pop, writes := c.writes.tail }

namespace Check

section Loop

variable {α : Type}

-- The passes of a loop: a first one, and another one where the type of a variable changes, which
-- may depend on what the first one has found.
def passes (pass : Check α) (again : α → Check α) (c : Checker) :
    Except Diagnostic (α × Checker) := do
  let (first, c₁) ← pass c.entered
  let changed := changedIn c.ctx (c₁.writes.headD [])
  if changed.isEmpty then return (first, c₁.left)
  let (second, c₂) ← again first (c₁.reentered c.ctx changed)
  return (second, c₂.left)

theorem loop_eq (pass : Check α) (c : Checker) : loop pass c = passes pass (fun _ => pass) c := by
  simp only [loop, enterLoop, takeWrites, popFrame, passes, bind, StateT.bind, get, getThe,
    MonadStateOf.get, StateT.get, modify, modifyGet, MonadStateOf.modifyGet, StateT.modifyGet,
    pure, Except.pure, Except.bind, set, StateT.set, StateT.pure]
  rw [← Checker.entered]
  cases pass c.entered with
  | error d => rfl
  | ok p =>
      obtain ⟨first, c₁⟩ := p
      dsimp only
      split
      · rfl
      · simp only [StateT.bind, StateT.get, StateT.set, StateT.modifyGet, StateT.pure, bind,
          Except.bind, pure, Except.pure]
        rw [← Checker.reentered]
        rfl

-- What is checked in loops.
def whilePass (r : Registry) (offset : Nat) (test : Expr) (body : List Stmt) : Check Stmt := do
  let test ← condition r test
  let body ← stmts r body
  return .whileLoop offset test body

def forPass (r : Registry) (offset : Nat) (init : VarStmt) (test : Expr) (step : VarStmt)
    (body : List Stmt) : Check Stmt := do
  let test ← condition r test
  let body ← stmts r body
  let step ← varStmt r step
  return .forLoop offset init test step body

def eachPass (r : Registry) (offset : Nat) (item : String) (source : Expr) (body : List Stmt)
    (how : Iteration) (itemTy : Ty) : Check Stmt := do
  write item itemTy offset
  let body ← stmts r body
  return .eachLoop offset item source body how

def countPass (r : Registry) (offset : Nat) (count : Expr) (body : List Stmt) : Check Stmt := do
  let body ← stmts r body
  return .countLoop offset count body

-- What a loop starts its passes from: the second one knows the same variables as the first one.
inductive Starts (c : Checker) : Checker → Prop
  | first : Starts c c.entered
  | second (writes : List (String × Ty)) (c₁ : Checker) :
      c₁.imports = c.imports → Starts c (c₁.reentered c.ctx (changedIn c.ctx writes))

theorem binds_of_changedIn {before : TypeContext} {writes : List (String × Ty)} {name : String}
    (h : name ∈ changedIn before writes) : before.Binds name := by
  simp only [changedIn, List.mem_map, List.mem_filter] at h
  obtain ⟨⟨x, ty⟩, ⟨-, hchanged⟩, rfl⟩ := h
  cases hlookup : before.lookup x with
  | some outer => exact TypeContext.binds_of_lookup hlookup
  | none => simp [hlookup] at hchanged

variable {c c₀ : Checker}

theorem Starts.imports (h : Starts c c₀) : c₀.imports = c.imports := by
  cases h with
  | first => rfl
  | second writes c₁ himports => exact himports

theorem Starts.kinds (h : Starts c c₀) : c₀.ctx.kinds = .loop :: c.ctx.kinds := by
  cases h with
  | first => rfl
  | second writes c₁ _ => exact TypeContext.kinds_foldl_set _ _

theorem Starts.binds (h : Starts c c₀) (x : String) : c₀.ctx.Binds x ↔ c.ctx.Binds x := by
  cases h with
  | first => exact TypeContext.binds_push
  | second writes c₁ _ =>
      refine (TypeContext.binds_foldl_set _ (by simp) fun name hname => ?_).trans
        TypeContext.binds_push
      exact TypeContext.binds_push.mpr (binds_of_changedIn hname)

-- Leaving a loop after one of its passes.
theorem Starts.leads {names : List String} {c' : Checker} (h : Starts c c₀)
    (hc : c.ctx.kinds ≠ []) (hpass : c₀.Leads names c') : c.Leads names c'.left := by
  have hkinds : c'.ctx.kinds = .loop :: c.ctx.kinds := hpass.kinds.trans h.kinds
  refine ⟨hpass.imports.trans h.imports, TypeContext.kinds_pop hkinds hc, fun x => ?_⟩
  rw [Checker.left, TypeContext.binds_pop, hpass.binds, h.binds]

-- A loop that was checked ends with one of its passes.
theorem loop_ok {pass : Check α} {a : α} {c' : Checker}
    (hpass : ∀ c₁ a c₂, Starts c c₁ → pass c₁ = .ok (a, c₂) → c₂.imports = c₁.imports)
    (h : loop pass c = .ok (a, c')) :
    ∃ c₀ c₁, Starts c c₀ ∧ pass c₀ = .ok (a, c₁) ∧ c' = c₁.left := by
  rw [loop_eq] at h
  obtain ⟨⟨first, c₁⟩, hfirst, h⟩ := except_bind_ok.mp h
  dsimp only at h
  split at h
  · cases h
    exact ⟨_, c₁, .first, hfirst, rfl⟩
  · obtain ⟨⟨second, c₂⟩, hsecond, h⟩ := except_bind_ok.mp h
    cases h
    exact ⟨_, c₂, .second _ c₁ (hpass c.entered first c₁ .first hfirst), hsecond, rfl⟩

theorem loop_error {pass : Check α} {d : Diagnostic}
    (hpass : ∀ c₁ a c₂, Starts c c₁ → pass c₁ = .ok (a, c₂) → c₂.imports = c₁.imports)
    (h : loop pass c = .error d) : ∃ c₀, Starts c c₀ ∧ pass c₀ = .error d := by
  rw [loop_eq] at h
  rcases except_bind_error.mp h with hfirst | ⟨⟨first, c₁⟩, hfirst, h⟩
  · exact ⟨_, .first, hfirst⟩
  · dsimp only at h
    split at h
    · cases h
    · rcases except_bind_error.mp h with hsecond | ⟨⟨second, c₂⟩, -, h⟩
      · exact ⟨_, .second _ c₁ (hpass c.entered first c₁ .first hfirst), hsecond⟩
      · cases h

-- Passes that do the same wherever they are started go the same way.
theorem passes_congr {pass pass' : Check α} {again again' : α → Check α}
    (hpass : pass' c.entered = pass c.entered)
    (hagain : ∀ first c₁ writes, pass c.entered = .ok (first, c₁) →
      again' first (c₁.reentered c.ctx (changedIn c.ctx writes)) =
        again first (c₁.reentered c.ctx (changedIn c.ctx writes))) :
    passes pass' again' c = passes pass again c := by
  unfold passes
  rw [hpass]
  cases hfirst : pass c.entered with
  | error d => rfl
  | ok p =>
      simp only [bind, Except.bind]
      rw [hagain p.1 p.2 _ hfirst]

theorem loop_congr {pass pass' : Check α}
    (hpass : ∀ c₁ a c₂, Starts c c₁ → pass c₁ = .ok (a, c₂) → c₂.imports = c₁.imports)
    (h : ∀ c₀, Starts c c₀ → pass' c₀ = pass c₀) : loop pass' c = loop pass c := by
  rw [loop_eq, loop_eq]
  exact passes_congr (h _ .first) fun first c₁ writes hfirst =>
    h _ (.second writes c₁ (hpass c.entered first c₁ .first hfirst))

end Loop

variable {α β : Type} {P : Nat → Prop} {Q : α → Prop} {R : β → Prop} {names names' : List String}
  {r : Registry}

-- How a part of a script is checked: the given variables become known, the answer is as `Q` says,
-- and problems are found in places that are as `P` says.
def Goes (P : Nat → Prop) (names : List String) (Q : α → Prop) (x : Check α) : Prop :=
  ∀ c : Checker, c.ctx.kinds ≠ [] →
    (∀ a c', x c = .ok (a, c') → c.Leads names c' ∧ Q a) ∧ ∀ d, x c = .error d → P d.offset

namespace Goes

theorem pure {a : α} (h : Q a) : Goes P [] Q (Pure.pure a : Check α) := by
  refine fun c _ => ⟨fun b c' hrun => ?_, fun d hrun => by cases hrun⟩
  cases pure_ok.mp hrun
  exact ⟨.refl c, h⟩

theorem fail (problem : Diagnostic.Problem) {offset : Nat} (h : P offset) :
    Goes P names Q (Check.fail problem offset : Check α) := by
  refine fun c _ => ⟨fun _ _ hrun => (throw_ok.mp hrun).elim, fun d hrun => ?_⟩
  cases hrun
  exact h

theorem bind {x : Check α} {f : α → Check β} (hx : Goes P names Q x)
    (hf : ∀ a, Q a → Goes P names' R (f a)) : Goes P (names ++ names') R (x >>= f) := by
  intro c hc
  refine ⟨fun b c' hrun => ?_, fun d hrun => ?_⟩
  · obtain ⟨a, c₁, hfirst, hrest⟩ := bind_ok.mp hrun
    obtain ⟨hlead, ha⟩ := (hx c hc).1 a c₁ hfirst
    obtain ⟨hlead', hb⟩ := (hf a ha c₁ (hlead.kinds_ne_nil hc)).1 b c' hrest
    exact ⟨hlead.trans hlead', hb⟩
  · rcases bind_error.mp hrun with hfirst | ⟨a, c₁, hfirst, hrest⟩
    · exact (hx c hc).2 d hfirst
    · obtain ⟨hlead, ha⟩ := (hx c hc).1 a c₁ hfirst
      exact (hf a ha c₁ (hlead.kinds_ne_nil hc)).2 d hrest

-- A part that makes no variables known, in front of another one.
theorem first {x : Check α} {f : α → Check β} (hx : Goes P [] Q x)
    (hf : ∀ a, Q a → Goes P names R (f a)) : Goes P names R (x >>= f) :=
  bind hx hf

-- A part that only returns something, behind another one.
theorem last {x : Check α} {f : α → β} (hx : Goes P names Q x) (hf : ∀ a, Q a → R (f a)) :
    Goes P names R (do return f (← x)) := by
  have h : Goes P (names ++ []) R (do return f (← x)) := bind hx fun a ha => pure (hf a ha)
  rwa [List.append_nil] at h

theorem seq {x : Check α} {f : α → Check β} (hx : Goes P [] (fun _ => True) x)
    (hf : ∀ a, Goes P names R (f a)) : Goes P names R (x >>= f) :=
  first hx fun a _ => hf a

theorem refuse (problem : Diagnostic.Problem) {offset : Nat} (h : P offset) {f : α → Check β} :
    Goes P names R (Check.fail problem offset >>= f) :=
  first (fail (Q := fun _ => False) problem h) fun _ hfalse => hfalse.elim

theorem ite {c : Prop} [Decidable c] {x y : Check α} (hx : c → Goes P names Q x)
    (hy : ¬c → Goes P names Q y) : Goes P names Q (if c then x else y) := by
  by_cases h : c
  · rw [if_pos h]
    exact hx h
  · rw [if_neg h]
    exact hy h

theorem get : Goes P [] (fun _ => True) (MonadState.get : Check Checker) := by
  refine fun c _ => ⟨fun a c' hrun => ?_, fun d hrun => by cases hrun⟩
  cases get_ok.mp hrun
  exact ⟨.refl c, trivial⟩

theorem modify {f : Checker → Checker} (h : ∀ c : Checker, c.ctx.kinds ≠ [] → c.Leads names (f c)) :
    Goes P names (fun _ => True) (modify f : Check PUnit) := by
  refine fun c hc => ⟨fun a c' hrun => ?_, fun d hrun => by cases hrun⟩
  cases modify_ok.mp hrun
  exact ⟨h c hc, trivial⟩

theorem lookup (name : String) : Goes P [] (fun _ => True) (Check.lookup name) :=
  get.last fun _ _ => trivial

theorem use (name : String) (offset : Nat) : Goes P [] (fun _ => True) (Check.use name offset) :=
  modify fun _ _ => ⟨rfl, rfl, by simp⟩

theorem write (name : String) (ty : Ty) (offset : Nat) :
    Goes P [name] (fun _ => True) (Check.write name ty offset) :=
  modify fun _ hc => ⟨rfl, TypeContext.kinds_set _ _, fun x => by
    rw [TypeContext.binds_set hc, List.mem_singleton]⟩

-- A block that is entered and left again.
theorem framed {kind : FrameKind} {x : Check α} {f : α → Check β} (hx : Goes P names Q x)
    (hf : ∀ a, Q a → Goes P names' R (f a)) :
    Goes P (names ++ names') R (do
      Check.pushFrame kind
      let a ← x
      Check.popFrame
      f a) := by
  intro c hc
  have hinner := hx { c with ctx := c.ctx.push kind } (by simp)
  refine ⟨fun b c' hrun => ?_, fun d hrun => ?_⟩
  · obtain ⟨_, c₁, hpush, hrun⟩ := bind_ok.mp hrun
    cases modify_ok.mp hpush
    obtain ⟨a, c₂, hbody, hrun⟩ := bind_ok.mp hrun
    obtain ⟨_, c₃, hpop, hrun⟩ := bind_ok.mp hrun
    cases modify_ok.mp hpop
    obtain ⟨hlead, ha⟩ := hinner.1 a c₂ hbody
    have hframed := hlead.framed hc
    obtain ⟨hlead', hb⟩ := (hf a ha _ (hframed.kinds_ne_nil hc)).1 b c' hrun
    exact ⟨hframed.trans hlead', hb⟩
  · rcases bind_error.mp hrun with hpush | ⟨_, c₁, hpush, hrun⟩
    · cases hpush
    cases modify_ok.mp hpush
    rcases bind_error.mp hrun with hbody | ⟨a, c₂, hbody, hrun⟩
    · exact hinner.2 d hbody
    obtain ⟨hlead, ha⟩ := hinner.1 a c₂ hbody
    rcases bind_error.mp hrun with hpop | ⟨_, c₃, hpop, hrun⟩
    · cases hpop
    cases modify_ok.mp hpop
    exact (hf a ha _ ((hlead.framed hc).kinds_ne_nil hc)).2 d hrun

-- Whether the part is checked once or twice, it makes the same variables known.
theorem loop {pass : Check α} (h : Goes P names Q pass) : Goes P names Q (Check.loop pass) := by
  intro c hc
  have hkinds : ∀ {c₀}, Starts c c₀ → c₀.ctx.kinds ≠ [] := fun h₀ => by simp [h₀.kinds]
  have himports : ∀ c₁ a c₂, Starts c c₁ → pass c₁ = .ok (a, c₂) → c₂.imports = c₁.imports :=
    fun c₁ a c₂ h₁ hrun => ((h c₁ (hkinds h₁)).1 a c₂ hrun).1.imports
  refine ⟨fun a c' hrun => ?_, fun d hrun => ?_⟩
  · obtain ⟨c₀, c₁, h₀, hpass, rfl⟩ := loop_ok himports hrun
    exact ((h c₀ (hkinds h₀)).1 a c₁ hpass).imp_left (h₀.leads hc)
  · obtain ⟨c₀, h₀, hpass⟩ := loop_error himports hrun
    exact (h c₀ (hkinds h₀)).2 d hpass

theorem resolveType (r : Registry) (name : String) {offset : Nat} (h : P offset) :
    Goes P [] (fun _ => True) (Check.resolveType r name offset) := by
  refine get.seq fun c => ?_
  split
  · exact pure trivial
  · exact fail _ h
  · exact fail _ h

theorem checkArgsFrom (r : Registry) (name : String) (index : Nat) (params : List Ty)
    {args : List Expr} (h : Expr.AllPlaced P args) :
    Goes P [] (fun _ => True) (Check.checkArgsFrom r name index params args) := by
  induction params generalizing index args with
  | nil => exact pure trivial
  | cons param params ih =>
      cases args with
      | nil => exact pure trivial
      | cons arg args =>
          unfold Check.checkArgsFrom
          exact ite (fun _ => refuse _ (Expr.Placed.offset h.1)) fun _ => ih (index + 1) h.2

theorem checkArgs (r : Registry) (name : String) (params : List Ty) {args : List Expr}
    {offset : Nat} (hargs : Expr.AllPlaced P args) (h : P offset) :
    Goes P [] (fun _ => True) (Check.checkArgs r name params args offset) := by
  unfold Check.checkArgs
  exact ite (fun _ => refuse _ h) fun _ => checkArgsFrom r name 1 params hargs

theorem settleProperty (p : PropertyDef) (name : String) (args : List Expr) {offset : Nat}
    (assigned : Bool) (h : P offset) :
    Goes P [] (fun _ => True) (Check.settleProperty p name args offset assigned) := by
  unfold Check.settleProperty
  refine ite (fun _ => refuse _ h) fun _ => ?_
  exact ite (fun _ => fail _ h) fun _ => pure trivial

theorem resolveStatic (r : Registry) (name : String) {args : List Expr} {offset : Nat}
    (assigned : Bool) (hargs : Expr.AllPlaced P args) (h : P offset) :
    Goes P [] (fun _ => True) (Check.resolveStatic r name args offset assigned) := by
  refine get.seq fun c => ?_
  refine ite (fun _ => refuse _ h) fun _ => ?_
  refine ite (fun _ => refuse _ h) fun _ => ?_
  split
  · exact (checkArgs r name _ hargs h).seq fun _ => pure trivial
  · exact (settleProperty _ name args assigned h).seq fun _ => pure trivial
  · exact ite (fun _ => refuse _ h) fun _ => pure trivial
  · exact fail _ h

theorem resolveMember (r : Registry) (target : Ty) (name : String) {args : List Expr}
    {offset : Nat} (assigned : Bool) (hargs : Expr.AllPlaced P args) (h : P offset) :
    Goes P [] (fun _ => True) (Check.resolveMember r target name args offset assigned) := by
  unfold Check.resolveMember
  split
  · exact pure trivial
  · split
    · exact fail _ h
    · exact (checkArgs r name _ hargs h).seq fun _ => pure trivial
    · exact (settleProperty _ name args assigned h).seq fun _ => pure trivial
    · exact fail _ h
  · exact fail _ h

theorem resolveConstructor (r : Registry) (typeName : String) (args : List Expr) {offset : Nat}
    (h : P offset) :
    Goes P [] (fun _ => True) (Check.resolveConstructor r typeName args offset) := by
  refine (resolveType r typeName h).seq fun ty => ?_
  split
  · refine ite (fun _ => refuse _ h) fun _ => ?_
    dsimp only
    split
    · exact pure trivial
    · exact fail _ h
    · exact fail _ h
  · exact fail _ h

theorem resolveName (r : Registry) (name : String) {offset : Nat} (h : P offset) :
    Goes P [] (·.Placed P) (Check.resolveName r name offset) := by
  refine get.seq fun c => ?_
  refine ite (fun _ => refuse _ h) fun _ => ?_
  have hargs : Expr.AllPlaced P [] := trivial
  exact (resolveStatic r name false hargs h).seq fun found => pure ⟨h, hargs⟩

mutual

-- An expression makes no variables known.
theorem expr (r : Registry) {e : Expr} (h : e.Placed P) :
    Goes P [] (·.Placed P) (Check.expr r e) := by
  cases e with
  | literal m value => exact pure h
  | name m name =>
      refine (lookup name).seq fun known => ?_
      split
      · exact (use _ _).seq fun _ => pure h
      · exact resolveName r name h
  | static m name args binding =>
      refine (exprs r h.2).first fun args hargs => ?_
      exact (resolveStatic r name false hargs h.1).seq fun found => pure ⟨h.1, hargs⟩
  | member m target name args binding =>
      refine (expr r h.2.1).first fun target htarget => (exprs r h.2.2).first fun args hargs => ?_
      exact (resolveMember r target.ty name false hargs h.1).seq fun found =>
        pure ⟨h.1, htarget, hargs⟩
  | new m typeName args binding =>
      refine (exprs r h.2).first fun args hargs => ?_
      exact (resolveConstructor r typeName args h.1).seq fun found => pure ⟨h.1, hargs⟩
  | binary m op lhs rhs =>
      refine (expr r h.2.1).first fun lhs hlhs => (expr r h.2.2).first fun rhs hrhs => ?_
      split
      · exact pure ⟨h.1, hlhs, hrhs⟩
      · exact fail _ h.1
  | unary m op operand =>
      refine (expr r h.2).first fun operand hoperand => ?_
      split
      · exact pure ⟨h.1, hoperand⟩
      · exact fail _ h.1
  | cast m typeName operand => exact fail _ h.1

theorem exprs (r : Registry) {es : List Expr} (h : Expr.AllPlaced P es) :
    Goes P [] (Expr.AllPlaced P) (Check.exprs r es) := by
  cases es with
  | nil => exact pure trivial
  | cons e rest =>
      exact (expr r h.1).first fun e he => (exprs r h.2).first fun rest hrest => pure ⟨he, hrest⟩

end

theorem condition (r : Registry) {test : Expr} (h : test.Placed P) :
    Goes P [] (·.Placed P) (Check.condition r test) := by
  refine (expr r h).first fun test htest => ?_
  exact ite (fun _ => refuse _ htest.offset) fun _ => pure htest

theorem changeOf (r : Registry) {how : Change} (h : how.Placed P) :
    Goes P [] (fun found : Change × Ty => found.1.Placed P) (Check.change r how) := by
  cases how with
  | compound op value => exact (expr r h).first fun value hvalue => pure hvalue
  | increment => exact pure trivial
  | decrement => exact pure trivial

theorem varStmt (r : Registry) {v : VarStmt} (h : v.Placed P) :
    Goes P [v.name] (·.Placed P) (Check.varStmt r v) := by
  cases v with
  | declare offset name value =>
      refine (expr r h.2).first fun value hvalue => ?_
      refine ite (fun _ => refuse _ hvalue.offset) fun _ => ?_
      exact (write name _ _).last fun _ _ => ⟨h.1, hvalue⟩
  | update offset name how current result =>
      refine (lookup name).seq fun known => ?_
      split
      · exact fail _ h.1
      · refine (changeOf r h.2).first fun found hfound => ?_
        dsimp only
        split
        · exact fail _ h.1
        · exact (write name _ _).last fun _ _ => ⟨h.1, hfound⟩

theorem iteration (r : Registry) {source : Expr} (h : source.Placed P) :
    Goes P [] (fun _ => True) (Check.iteration r source) := by
  unfold Check.iteration
  split
  · exact pure trivial
  · split
    · exact pure trivial
    · exact fail _ h.offset
  · exact fail _ h.offset

theorem assignedProperty (r : Registry) (id : Nat) (name : String) {value : Expr} {offset : Nat}
    (hvalue : value.Placed P) (h : P offset) :
    Goes P [] (fun _ => True) (Check.assignedProperty r id name value offset) := by
  unfold Check.assignedProperty
  split
  · exact fail _ h
  · exact ite (fun _ => fail _ hvalue.offset) fun _ => pure trivial

theorem assignStatic (r : Registry) {mark : Mark} (name : String) {args : List Expr}
    {value : Expr} (hvalue : value.Placed P) (hargs : Expr.AllPlaced P args) (h : P mark.offset) :
    Goes P [] (·.Placed P) (Check.assignStatic r mark name args value) := by
  refine (resolveStatic r name true hargs h).seq fun found => ?_
  obtain ⟨binding, ty⟩ := found
  cases binding with
  | property id => exact (assignedProperty r id name hvalue h).seq fun _ => pure ⟨h, hargs⟩
  | unresolved => exact refuse _ h
  | method id => exact refuse _ h
  | const value => exact refuse _ h

theorem assignTarget (r : Registry) {target value : Expr} {offset : Nat}
    (hvalue : value.Placed P) (htarget : target.Placed P) (h : P offset) :
    Goes P [] (·.Placed P) (Check.assignTarget r target value offset) := by
  cases target with
  | name m name => exact assignStatic r name hvalue trivial htarget
  | static m name args binding => exact assignStatic r name hvalue htarget.2 htarget.1
  | member m owner name args binding =>
      obtain ⟨hplace, howner, hargs⟩ := htarget
      refine (expr r howner).first fun owner howner => ?_
      refine (resolveMember r owner.ty name true hargs hplace).seq fun found => ?_
      obtain ⟨binding, ty⟩ := found
      cases binding with
      | dynamic => exact pure ⟨hplace, howner, hargs⟩
      | property id =>
          exact (assignedProperty r id name hvalue hplace).seq fun _ => pure ⟨hplace, howner, hargs⟩
      | unresolved => exact refuse _ hplace
      | method id => exact refuse _ hplace
  | literal m value => exact fail _ h
  | new m typeName args binding => exact fail _ h
  | binary m op lhs rhs => exact fail _ h
  | unary m op operand => exact fail _ h
  | cast m typeName operand => exact fail _ h

theorem refuseVariable (target : Expr) (problem : String → Diagnostic.Problem) {offset : Nat}
    (h : P offset) : Goes P [] (fun _ => True) (Check.refuseVariable target problem offset) := by
  unfold Check.refuseVariable
  split
  · refine (lookup _).seq fun known => ?_
    exact ite (fun _ => fail _ h) fun _ => pure trivial
  · exact pure trivial

-- The four parts that are checked in loops.
theorem whilePass (r : Registry) {offset : Nat} {test : Expr} {body : List Stmt} (h : P offset)
    (htest : test.Placed P) (hbody : Goes P names (Stmt.AllPlaced P) (stmts r body)) :
    Goes P names (·.Placed P) (Check.whilePass r offset test body) :=
  (condition r htest).first fun _ htest => hbody.last fun _ hbody => ⟨h, htest, hbody⟩

theorem forPass (r : Registry) {offset : Nat} {init step : VarStmt} {test : Expr}
    {body : List Stmt} (h : P offset) (hinit : init.Placed P) (htest : test.Placed P)
    (hstep : step.Placed P) (hbody : Goes P names (Stmt.AllPlaced P) (stmts r body)) :
    Goes P (names ++ [step.name]) (·.Placed P) (Check.forPass r offset init test step body) :=
  (condition r htest).first fun _ htest => hbody.bind fun _ hbody =>
    (varStmt r hstep).last fun _ hstep => ⟨h, hinit, htest, hstep, hbody⟩

theorem eachPass (r : Registry) {offset : Nat} (item : String) {source : Expr} {body : List Stmt}
    (how : Iteration) (itemTy : Ty) (h : P offset) (hsource : source.Placed P)
    (hbody : Goes P names (Stmt.AllPlaced P) (stmts r body)) :
    Goes P (item :: names) (·.Placed P) (Check.eachPass r offset item source body how itemTy) :=
  (write item itemTy offset).bind fun _ _ => hbody.last fun _ hbody => ⟨h, hsource, hbody⟩

theorem countPass (r : Registry) {offset : Nat} {count : Expr} {body : List Stmt} (h : P offset)
    (hcount : count.Placed P) (hbody : Goes P names (Stmt.AllPlaced P) (stmts r body)) :
    Goes P names (·.Placed P) (Check.countPass r offset count body) :=
  hbody.last fun _ hbody => ⟨h, hcount, hbody⟩

mutual

-- A statement makes the variables known that are written in it.
theorem stmt (r : Registry) {s : Stmt} (h : s.Placed P) :
    Goes P s.written (·.Placed P) (Check.stmt r s) := by
  cases s with
  | «using» offset ns => exact fail _ h
  | input offset name typeName declared => exact fail _ h
  | var v => exact (varStmt r h).last fun v hv => hv
  | cond offset test body rest =>
      obtain ⟨hplace, htest, hbody, hrest⟩ := h
      refine (condition r htest).first fun test htest => ?_
      exact framed (stmts r hbody) fun body hbody =>
        (branches r hrest).last fun rest hrest => ⟨hplace, htest, hbody, hrest⟩
  | whileLoop offset test body =>
      obtain ⟨hplace, htest, hbody⟩ := h
      exact loop (whilePass r hplace htest (stmts r hbody))
  | forLoop offset init test step body =>
      obtain ⟨hplace, hinit, htest, hstep, hbody⟩ := h
      exact (varStmt r hinit).bind fun init hinit =>
        loop (forPass r hplace hinit htest hstep (stmts r hbody))
  | eachLoop offset item source body how =>
      obtain ⟨hplace, hsource, hbody⟩ := h
      exact (expr r hsource).first fun source hsource => (iteration r hsource).seq
        fun found => loop (eachPass r item found.1 found.2 hplace hsource (stmts r hbody))
  | countLoop offset count body =>
      obtain ⟨hplace, hcount, hbody⟩ := h
      refine (expr r hcount).first fun count hcount => ?_
      exact ite (fun _ => refuse _ hcount.offset) fun _ =>
        loop (countPass r hplace hcount (stmts r hbody))
  | leave offset => exact get.seq fun c => ite (fun _ => refuse _ h) fun _ => pure h
  | again offset => exact get.seq fun c => ite (fun _ => refuse _ h) fun _ => pure h
  | ret offset value =>
      obtain ⟨hplace, hvalue⟩ := h
      cases value with
      | none => exact pure ⟨hplace, nofun⟩
      | some value =>
          refine (expr r (hvalue value rfl)).first fun value hvalue => ?_
          refine ite (fun _ => refuse _ hvalue.offset) fun _ => pure ⟨hplace, fun _ h => ?_⟩
          cases h
          exact hvalue
  | exit offset => exact pure h
  | func offset name params body => exact fail _ h.1
  | call offset target =>
      exact (refuseVariable _ _ h.1).seq fun _ => (expr r h.2).first fun target htarget =>
        pure ⟨h.1, htarget⟩
  | assign offset target value =>
      obtain ⟨hplace, htarget, hvalue⟩ := h
      exact (refuseVariable _ _ hplace).seq fun _ => (expr r hvalue).first fun value hvalue =>
        (assignTarget r hvalue htarget hplace).first fun target htarget =>
          pure ⟨hplace, htarget, hvalue⟩

theorem stmts (r : Registry) {ss : List Stmt} (h : Stmt.AllPlaced P ss) :
    Goes P (Stmt.writtenAll ss) (Stmt.AllPlaced P) (Check.stmts r ss) := by
  cases ss with
  | nil => exact pure trivial
  | cons s rest =>
      exact (stmt r h.1).bind fun s hs => (stmts r h.2).last fun rest hrest => ⟨hs, hrest⟩

theorem branches (r : Registry) {b : Branches} (h : Stmt.BranchesPlaced P b) :
    Goes P (Stmt.writtenBranches b) (Stmt.BranchesPlaced P) (Check.branches r b) := by
  cases b with
  | done => exact pure trivial
  | otherwise body =>
      have hframed : Goes P (Stmt.writtenAll body ++ []) (Stmt.BranchesPlaced P)
          (Check.branches r (.otherwise body)) :=
        framed (stmts r h) fun body hbody => pure hbody
      rwa [List.append_nil] at hframed
  | elseIf test body rest =>
      obtain ⟨htest, hbody, hrest⟩ := h
      refine (condition r htest).first fun test htest => ?_
      exact framed (stmts r hbody) fun body hbody =>
        (branches r hrest).last fun rest hrest => ⟨htest, hbody, hrest⟩

end

end Goes

end Check

end HostScript
