import HostScript.Compile.Basic
import HostScript.Proofs.Compile.Growth

namespace HostScript

namespace Expr

mutual

-- How many values the code of an expression has on the stack at once.
def need : Expr → Nat
  | .static _ _ args (.method _) | .new _ _ args _ => max (needAll args) 1
  | .member _ target _ _ (.property _) => target.need
  | .member _ target _ args _ => max target.need (needAll args + 1)
  | .binary _ op lhs rhs =>
    if op = .and ∨ op = .or then max lhs.need rhs.need else max lhs.need (rhs.need + 1)
  | .unary _ op operand =>
    match Emit.folded? op operand with
    | some _ => 1
    | none => operand.need
  | _ => 1

def needAll : List Expr → Nat
  | [] => 0
  | e :: rest => max e.need (needAll rest + 1)

end

end Expr

def Change.need : Change → Nat
  | .compound _ value => value.need
  | .increment | .decrement => 1

def VarStmt.need : VarStmt → Nat
  | .declare _ _ value => value.need
  | .update _ _ how _ _ => how.need + 1

namespace Stmt

-- The count of a loop is on the stack only if it is not written into the code.
def headNeed (count : Expr) : Nat :=
  match Emit.literalCount? count with
  | some _ => 0
  | none => count.need

def countNeed (level : Nat) (count : Expr) (body : List Stmt) : Nat :=
  if level ≥ 1 && !Emit.anyEscapes body then headNeed count else max count.need 2

def assignNeed (target value : Expr) : Nat :=
  match target with
  | .static _ _ _ _ => value.need
  | .member _ owner _ _ _ => max owner.need (value.need + 1)
  | _ => 0

mutual

def need (level : Nat) : Stmt → Nat
  | .using _ _ | .input _ _ _ _ | .leave _ | .again _ | .exit _ | .func _ _ _ _ => 0
  | .var v => v.need
  | .cond _ test body rest => max test.need (max (needAll level body) (needBranches level rest))
  | .whileLoop _ test body => max test.need (needAll level body)
  | .forLoop _ init test step body =>
    max (max init.need test.need) (max (needAll level body) step.need)
  | .eachLoop _ _ source body _ => max (max source.need 2) (needAll level body)
  | .countLoop _ count body => max (countNeed level count body) (needAll level body)
  | .ret _ value => (value.map (·.need)).getD 1
  | .call _ target => target.need
  | .assign _ target value => assignNeed target value

def needAll (level : Nat) : List Stmt → Nat
  | [] => 0
  | s :: rest => max (s.need level) (needAll level rest)

def needBranches (level : Nat) : Branches → Nat
  | .done => 0
  | .otherwise body => needAll level body
  | .elseIf test body rest => max test.need (max (needAll level body) (needBranches level rest))

end

end Stmt

mutual

-- Every expression leaves a value behind.
theorem Expr.one_le_need (e : Expr) : 1 ≤ e.need := by
  cases e with
  | static m name args binding => cases binding <;> simp [Expr.need]
  | member m target name args binding =>
      have := Expr.one_le_need target
      cases binding <;> simp only [Expr.need] <;> omega
  | new m typeName args binding => simp [Expr.need]
  | binary m op lhs rhs =>
      have := Expr.one_le_need lhs
      simp only [Expr.need]
      split <;> omega
  | unary m op operand =>
      have := Expr.one_le_need operand
      simp only [Expr.need]
      split <;> omega
  | _ => simp [Expr.need]

end

namespace Emit

-- Work during which the stack stays as high as it is.
def Level {α : Type} (x : Emit α) : Prop :=
  ∀ e r e', x e = .ok (r, e') → e'.depth = e.depth ∧ e'.maxDepth = e.maxDepth

-- Work that finds the stack at a height of at least `a`, counted from somewhere below, leaves it at
-- `b` instead, and takes note that it was `k` in between.
def Climbs {α : Type} (a b k : Nat) (x : Emit α) : Prop :=
  ∀ d e r e', e.depth = d + a → e.depth ≤ e.maxDepth → x e = .ok (r, e') →
    e'.depth = d + b ∧ e'.depth ≤ e'.maxDepth ∧ e.maxDepth ≤ e'.maxDepth ∧ d + k ≤ e'.maxDepth

variable {α β : Type} {a b c k l : Nat}

namespace Level

theorem pure (r : α) : Level (Pure.pure r : Emit α) := by
  intro e r' e' h
  cases pure_ok.mp h
  exact ⟨rfl, rfl⟩

theorem fail (problem : Diagnostic.Problem) (offset : Nat) :
    Level (Emit.fail problem offset : Emit α) :=
  fun _ _ _ h => (throw_ok.mp h).elim

theorem bind {x : Emit α} {f : α → Emit β} (hx : Level x) (hf : ∀ r, Level (f r)) :
    Level (x >>= f) := by
  intro e r e' h
  obtain ⟨r₁, e₁, h₁, h₂⟩ := bind_ok.mp h
  have hfirst := hx e r₁ e₁ h₁
  have hrest := hf r₁ e₁ r e' h₂
  exact ⟨hrest.1.trans hfirst.1, hrest.2.trans hfirst.2⟩

theorem get : Level (MonadState.get : Emit Emitter) := by
  intro e r e' h
  cases get_ok.mp h
  exact ⟨rfl, rfl⟩

theorem change {f : Emitter → Emitter} (hdepth : ∀ e, (f e).depth = e.depth)
    (hmax : ∀ e, (f e).maxDepth = e.maxDepth) : Level (modify f : Emit Unit) := by
  intro e r e' h
  cases modify_ok.mp h
  exact ⟨hdepth e, hmax e⟩

theorem write (f : Writer → Writer) : Level (Emit.write f) :=
  change (fun _ => rfl) fun _ => rfl

theorem op (o : Opcode) : Level (Emit.op o) :=
  write _

theorem mark (l : Nat) : Level (Emit.mark l) :=
  write _

theorem member (o : Opcode) (id : Nat) : Level (Emit.member o id) :=
  write _

theorem newLabel : Level Emit.newLabel := by
  intro e r e' h
  cases h
  exact ⟨rfl, rfl⟩

theorem goto (l : Nat) : Level (Emit.jump .jump l) :=
  (write _).bind fun _ => pure _

theorem intern (s : String) : Level (Emit.intern s) := by
  intro e r e' h
  obtain ⟨_, _, -, -, rfl⟩ := intern_ok h
  exact ⟨rfl, rfl⟩

theorem slot (name : String) (offset : Nat) : Level (Emit.slot name offset) := by
  intro e r e' h
  rcases slot_ok h with ⟨_, -, -, rfl⟩ | ⟨-, -, -, rfl⟩
  · exact ⟨rfl, rfl⟩
  · exact ⟨rfl, rfl⟩

theorem hiddenSlot (what : String) (offset : Nat) : Level (Emit.hiddenSlot what offset) := by
  refine bind ?_ fun _ => get.bind fun _ => slot _ offset
  exact change (fun _ => rfl) fun _ => rfl

theorem guardTop (env : EmitEnv) (ty : Ty) (offset : Nat) : Level (Emit.guardTop env ty offset) := by
  unfold Emit.guardTop
  split
  · exact write _
  · exact fail _ _

theorem checkTop (env : EmitEnv) (expected actual : Ty) (offset : Nat) :
    Level (Emit.checkTop env expected actual offset) := by
  unfold Emit.checkTop
  split
  · exact guardTop env expected offset
  · exact pure _

theorem guardArgs (env : EmitEnv) (params : List Ty) (args : List Expr) (above : Nat) :
    Level (Emit.guardArgs env params args above) := by
  induction params generalizing args above with
  | nil => exact pure _
  | cons param params ih =>
      cases args with
      | nil => exact pure _
      | cons arg args =>
          unfold Emit.guardArgs
          dsimp only
          split
          · split
            · exact (write _).bind fun _ => ih args (above - 1)
            · exact (fail _ _).bind fun _ => ih args (above - 1)
          · exact ih args (above - 1)

end Level

namespace Climbs

theorem level {x : Emit α} (h : Level x) : Climbs a a 0 x := by
  intro d e r e' hdepth hmax hrun
  obtain ⟨h₁, h₂⟩ := h e r e' hrun
  omega

theorem bind {x : Emit α} {f : α → Emit β} (hx : Climbs a b k x) (hf : ∀ r, Climbs b c l (f r)) :
    Climbs a c (max k l) (x >>= f) := by
  intro d e r e' hdepth hmax hrun
  obtain ⟨r₁, e₁, h₁, h₂⟩ := bind_ok.mp hrun
  obtain ⟨hdepth₁, hmax₁, hgrow₁, hk⟩ := hx d e r₁ e₁ hdepth hmax h₁
  obtain ⟨hdepth₂, hmax₂, hgrow₂, hl⟩ := hf r₁ d e₁ r e' hdepth₁ hmax₁ h₂
  omega

-- What keeps the height can come before and after.
theorem after {x : Emit α} {f : α → Emit β} (hx : Level x) (hf : ∀ r, Climbs a b k (f r)) :
    Climbs a b k (x >>= f) := by
  have h := (level hx).bind hf
  rwa [Nat.zero_max] at h

theorem before {x : Emit α} {f : α → Emit β} (hx : Climbs a b k x) (hf : ∀ r, Level (f r)) :
    Climbs a b k (x >>= f) := by
  have h := hx.bind fun r => level (hf r)
  rwa [Nat.max_zero] at h

theorem weaken {x : Emit α} (h : Climbs a b k x) (hl : l ≤ k) : Climbs a b l x := by
  intro d e r e' hdepth hmax hrun
  have := h d e r e' hdepth hmax hrun
  omega

-- The same above `n` more values.
theorem above {x : Emit α} (h : Climbs a b k x) (n : Nat) : Climbs (a + n) (b + n) (k + n) x := by
  intro d e r e' hdepth hmax hrun
  have := h (d + n) e r e' (by omega) hmax hrun
  omega

theorem fail (problem : Diagnostic.Problem) (offset : Nat) :
    Climbs a b k (Emit.fail problem offset : Emit α) :=
  fun _ _ _ _ _ _ h => (throw_ok.mp h).elim

theorem refuse (problem : Diagnostic.Problem) (offset : Nat) {f : α → Emit β} :
    Climbs a b k (Emit.fail problem offset >>= f) := by
  intro d e r e' hdepth hmax hrun
  obtain ⟨_, _, h, -⟩ := bind_ok.mp hrun
  exact (throw_ok.mp h).elim

theorem pushed (n : Nat) : Climbs a (a + n) (a + n) (Emit.pushed n) := by
  intro d e r e' hdepth hmax hrun
  cases modify_ok.mp hrun
  dsimp only
  omega

theorem popped (n : Nat) : Climbs (a + n) a 0 (Emit.popped n) := by
  intro d e r e' hdepth hmax hrun
  cases modify_ok.mp hrun
  dsimp only
  omega

theorem jumpIf {o : Opcode} (h : o ≠ .jump) (l : Nat) : Climbs (a + 1) a 0 (Emit.jump o l) := by
  unfold Emit.jump
  rw [if_pos h]
  exact after (.write _) fun _ => popped 1

theorem loadSlot (s : UInt8) (holdsRef : Bool) : Climbs a (a + 1) (a + 1) (Emit.loadSlot s holdsRef) :=
  after (.write _) fun _ => pushed 1

theorem storeSlot (s : UInt8) (holdsRef : Bool) : Climbs (a + 1) a 0 (Emit.storeSlot s holdsRef) :=
  after (.write _) fun _ => popped 1

theorem load (env : EmitEnv) (name : String) (offset : Nat) :
    Climbs a (a + 1) (a + 1) (Emit.load env name offset) :=
  after (.slot name offset) fun s => loadSlot s _

theorem store (env : EmitEnv) (name : String) (offset : Nat) :
    Climbs (a + 1) a 0 (Emit.store env name offset) :=
  after (.slot name offset) fun s => storeSlot s _

theorem long (n : Int64) : Climbs a (a + 1) (a + 1) (Emit.long n) :=
  after (.write _) fun _ => pushed 1

theorem binary (o : BinaryOp) (lhs rhs : Ty) : Climbs (a + 1) a 0 (Emit.binary o lhs rhs) :=
  after (.op _) fun _ => popped 1

theorem literal (value : Literal) : Climbs 0 1 1 (Emit.literal value) := by
  cases value with
  | null => exact after (.op _) fun _ => pushed 1
  | bool b => exact after (.op _) fun _ => pushed 1
  | long n => exact long n
  | double x => exact after (.write _) fun _ => pushed 1
  | string s => exact after (.intern s) fun _ => after (.write _) fun _ => pushed 1

-- A call takes its arguments off and leaves its result.
theorem call (n : Nat) : Climbs n 1 1 (do Emit.popped n; Emit.pushed 1) := by
  have h : Climbs (0 + n) 1 (max 0 (0 + 1)) (do Emit.popped n; Emit.pushed 1) :=
    (popped n).bind fun _ => pushed 1
  simpa using h

mutual

theorem expr (env : EmitEnv) (e : Expr) : Climbs 0 1 e.need (Emit.expr env e) := by
  cases e with
  | literal m value => exact literal value
  | name m name => exact load env name m.offset
  | static m name args binding =>
      cases binding with
      | const value => exact literal value
      | method id =>
          exact (exprs env args).bind fun _ => after (.guardArgs env _ args _) fun _ =>
            after (.member _ id) fun _ => call _
      | property id => exact after (.member _ id) fun _ => pushed 1
      | unresolved => exact fail _ _
  | member m target name args binding =>
      have htarget := expr env target
      have hargs : Climbs 1 (args.length + 1) (Expr.needAll args + 1) (Emit.exprs env args) := by
        simpa using (exprs env args).above 1
      have hone := Expr.one_le_need target
      cases binding with
      | method id =>
          refine (htarget.bind fun _ => hargs.bind fun _ => after (.guardArgs env _ args _) fun _ =>
            after (.member _ id) fun _ => call _).weaken ?_
          simp only [Expr.need]
          omega
      | property id =>
          refine (htarget.bind fun _ => after (.member _ id) fun _ => call 1).weaken ?_
          simp only [Expr.need]
          omega
      | dynamic =>
          have hrest : ∀ i : UInt16, Climbs 1 1 (Expr.needAll args + 1) (do
              if args.isEmpty then
                Emit.write (·.emitU16 .getDynamicProperty i)
                Emit.popped 1
              else
                Emit.exprs env args
                if args.length ≥ 65536 then Emit.fail .tooManyArguments m.offset
                Emit.write (·.emitU16Pair .invokeDynamic i (UInt16.ofNat args.length))
                Emit.popped (args.length + 1)
              Emit.pushed 1) := by
            intro i
            dsimp only
            split
            · rename_i hempty
              rw [List.isEmpty_iff.mp hempty]
              exact after (.write _) fun _ => call 1
            · refine (hargs.bind (l := 1) fun _ => ?_).weaken (Nat.le_max_left _ _)
              split
              · exact refuse _ _
              · exact after (.write _) fun _ => call _
          exact htarget.bind fun _ => after (.intern name) hrest
      | unresolved => exact fail _ _
  | new m typeName args binding =>
      cases binding with
      | some id =>
          exact (exprs env args).bind fun _ => after (.guardArgs env _ args _) fun _ =>
            after (.member _ id) fun _ => call _
      | none => exact fail _ _
  | binary m o lhs rhs =>
      have hl := expr env lhs
      have hr := expr env rhs
      have hplain : ∀ o, Climbs 0 1 (max lhs.need (rhs.need + 1)) (do
          Emit.expr env lhs
          Emit.expr env rhs
          Emit.binary o lhs.ty rhs.ty) := by
        intro o
        have hr : Climbs 1 2 (rhs.need + 1) (Emit.expr env rhs) := hr.above 1
        refine (hl.bind fun _ => hr.bind fun _ => binary o lhs.ty rhs.ty).weaken ?_
        omega
      -- The two ways through a logical operator each leave one value; only one of them is counted.
      have hlogical : ∀ (on value : Opcode) (skip done : Nat), on ≠ .jump →
          Climbs 0 1 (max lhs.need rhs.need) (do
            Emit.expr env lhs
            Emit.jump on skip
            Emit.expr env rhs
            Emit.checkTop env .bool rhs.ty rhs.offset
            Emit.jump .jump done
            Emit.mark skip
            Emit.op value
            Emit.mark done) := by
        intro on value skip done hon
        have hrest : ∀ _ : Unit, Level (do
            Emit.checkTop env .bool rhs.ty rhs.offset
            Emit.jump .jump done
            Emit.mark skip
            Emit.op value
            Emit.mark done) := fun _ =>
          (Level.checkTop env _ _ _).bind fun _ => (Level.goto done).bind fun _ =>
            (Level.mark skip).bind fun _ => (Level.op value).bind fun _ => .mark done
        refine (hl.bind fun _ => (jumpIf hon skip).bind fun _ => hr.before hrest).weaken ?_
        omega
      cases o with
      | and =>
          simp only [Expr.need, true_or, if_true]
          exact after .newLabel fun skip => after .newLabel fun done =>
            hlogical .jumpIfFalse .pushFalse skip done (by decide)
      | or =>
          simp only [Expr.need, or_true, if_true]
          exact after .newLabel fun skip => after .newLabel fun done =>
            hlogical .jumpIfTrue .pushTrue skip done (by decide)
      | arith a => exact hplain _
      | order a => exact hplain _
      | eq => exact hplain _
      | ne => exact hplain _
  | unary m o operand =>
      unfold Emit.expr Expr.need
      cases folded? o operand with
      | some value => exact literal value
      | none =>
          refine (expr env operand).before fun _ => ?_
          cases o with
          | neg => exact .op _
          | not => exact .op _
  | cast m typeName operand => exact fail _ _

theorem exprs (env : EmitEnv) (es : List Expr) :
    Climbs 0 es.length (Expr.needAll es) (Emit.exprs env es) := by
  cases es with
  | nil => exact level (.pure _)
  | cons e rest =>
      have hrest : Climbs 1 (rest.length + 1) (Expr.needAll rest + 1) (Emit.exprs env rest) := by
        simpa using (exprs env rest).above 1
      exact (expr env e).bind fun _ => hrest

end

theorem changeValue (env : EmitEnv) (how : Change) : Climbs 0 1 how.need (Emit.changeValue env how) := by
  cases how with
  | compound o value => exact (expr env value).before fun _ => .pure _
  | increment => exact (long 1).before fun _ => .pure _
  | decrement => exact (long 1).before fun _ => .pure _

theorem varStmt (env : EmitEnv) (v : VarStmt) : Climbs 0 0 v.need (Emit.varStmt env v) := by
  cases v with
  | declare offset name value =>
      exact ((expr env value).bind fun _ => store env name offset).weaken (Nat.le_max_left _ _)
  | update offset name how current result =>
      have hchange : Climbs 1 2 (how.need + 1) (Emit.changeValue env how) :=
        (changeValue env how).above 1
      refine ((load env name offset).bind fun _ => hchange.bind fun rhs =>
        (binary (.arith how.op) current rhs).bind fun _ => store env name offset).weaken ?_
      simp only [VarStmt.need]
      omega

theorem setProperty (env : EmitEnv) (o : Opcode) (id : Nat) (value : Expr) :
    Level (Emit.setProperty env o id value) :=
  (Level.checkTop env _ _ _).bind fun _ => .member o id

theorem assignStmt (env : EmitEnv) (target value : Expr) :
    Climbs 0 0 (Stmt.assignNeed target value) (Emit.assignStmt env target value) := by
  cases target with
  | static m name args binding =>
      refine ((expr env value).bind (l := 0) fun _ => ?_).weaken (Nat.le_max_left _ _)
      cases binding with
      | property id => exact after (setProperty env _ id value) fun _ => popped 1
      | _ => exact refuse _ _
  | member m owner name args binding =>
      have hvalue : Climbs 1 2 (value.need + 1) (Emit.expr env value) := (expr env value).above 1
      refine ((expr env owner).bind fun _ => hvalue.bind (l := 0) fun _ => ?_).weaken ?_
      · cases binding with
        | property id => exact after (setProperty env _ id value) fun _ => popped 2
        | dynamic => exact after (.intern name) fun _ => after (.write _) fun _ => popped 2
        | _ => exact refuse _ _
      · simp only [Stmt.assignNeed]
        omega
  | _ => exact fail _ _

theorem inLoop (labels : LoopLabels) {body : Emit Unit} (hbody : Climbs 0 0 k body) :
    Climbs 0 0 k (Emit.inLoop labels body) := by
  refine after ?_ fun _ => hbody.before fun _ => ?_
  · exact .change (fun _ => rfl) fun _ => rfl
  · exact .change (fun _ => rfl) fun _ => rfl

theorem countedLoop (index limit : UInt8) {item body : Emit Unit} (hitem : Climbs 0 0 l item)
    (hbody : Climbs 0 0 k body) :
    Climbs 0 0 (max 2 (max l k)) (Emit.countedLoop index limit item body) := by
  have hback : ∀ top done, Climbs 0 0 2 (do
      Emit.loadSlot index false
      Emit.long 1
      Emit.op .addNum
      Emit.popped 1
      Emit.storeSlot index false
      Emit.jump .jump top
      Emit.mark done) := by
    intro top done
    refine ((loadSlot index false).bind fun _ => (long 1).bind fun _ => after (.op _) fun _ =>
      (popped 1).bind fun _ => (storeSlot index false).before fun _ =>
        (Level.goto top).bind fun _ => .mark done).weaken ?_
    omega
  refine ((long 0).bind fun _ => (storeSlot index false).bind fun _ => after .newLabel fun top =>
    after .newLabel fun next => after .newLabel fun done => after (.mark top) fun _ =>
      (loadSlot index false).bind fun _ => (loadSlot limit false).bind fun _ => after (.op _) fun _ =>
        (popped 1).bind fun _ => (jumpIf (by decide) done).bind fun _ => hitem.bind fun _ =>
          (inLoop ⟨done, next⟩ hbody).bind fun _ => after (.mark next) fun _ =>
            hback top done).weaken ?_
  omega

theorem countLoop (env : EmitEnv) (count : Expr) {body : Emit Unit} (hbody : Climbs 0 0 k body)
    (offset : Nat) :
    Climbs 0 0 (max (max count.need 2) k) (Emit.countLoop env count body offset) := by
  refine (after (.hiddenSlot _ offset) fun limit => after (.hiddenSlot _ offset) fun index =>
    (expr env count).bind fun _ => after (.checkTop env _ _ _) fun _ =>
      (storeSlot limit false).bind fun _ =>
        countedLoop index limit (level (.pure _)) hbody).weaken ?_
  omega

theorem itemCount (env : EmitEnv) (how : Iteration) (offset : Nat) :
    Level (Emit.itemCount env how offset) := by
  cases how with
  | members count getItem => exact .member _ _
  | dynamic =>
      exact (Level.intern _).bind fun _ => (Level.write _).bind fun _ => .guardTop env _ offset
  | unresolved => exact .fail _ _

theorem bindItem (env : EmitEnv) (item : String) (source index : UInt8) (how : Iteration)
    (offset : Nat) : Climbs 0 0 2 (Emit.bindItem env item source index how offset) := by
  have hrest : ∀ x : Emit Unit, Level x → Climbs 2 0 0 (do
      x
      Emit.popped 1
      Emit.store env item offset) := fun x hx =>
    after hx fun _ => (popped 1).bind fun _ => store env item offset
  unfold Emit.bindItem
  refine ((loadSlot source true).bind fun _ => (loadSlot index false).bind (l := 0) fun _ => ?_).weaken
    (by omega)
  cases how with
  | members count getItem => exact hrest _ (.member _ _)
  | dynamic => exact after (.intern _) fun name => hrest _ (.write _)
  | unresolved => exact after (.intern _) fun name => hrest _ (.write _)

theorem eachLoop (env : EmitEnv) (item : String) (source : Expr) {body : Emit Unit}
    (hbody : Climbs 0 0 k body) (how : Iteration) (offset : Nat) :
    Climbs 0 0 (max (max source.need 2) k) (Emit.eachLoop env item source body how offset) := by
  refine (after (.hiddenSlot _ offset) fun iter => after (.hiddenSlot _ offset) fun count =>
    after (.hiddenSlot _ offset) fun index => (expr env source).bind fun _ =>
      (storeSlot iter true).bind fun _ => (loadSlot iter true).bind fun _ =>
        after (itemCount env how offset) fun _ => (storeSlot count false).bind fun _ =>
          (countedLoop index count (bindItem env item iter index how offset) hbody).bind fun _ =>
            after (.op _) fun _ => (pushed 1).bind fun _ => storeSlot iter true).weaken ?_
  omega

theorem testedLoop (env : EmitEnv) (test : Expr) {body : LoopLabels → Emit Unit}
    (hbody : ∀ labels, Climbs 0 0 k (body labels)) (top next : Nat) :
    Climbs 0 0 (max test.need k) (Emit.testedLoop env test body top next) := by
  refine (after .newLabel fun done => after (.mark top) fun _ => (expr env test).bind fun _ =>
    (jumpIf (by decide) done).bind fun _ => (hbody ⟨done, next⟩).before fun _ =>
      (Level.goto top).bind fun _ => .mark done).weaken ?_
  omega

theorem machineLoop (env : EmitEnv) (count : Expr) {body : Emit Unit} (hbody : Climbs 0 0 k body)
    (offset : Nat) :
    Climbs 0 0 (max (Stmt.headNeed count) k) (Emit.machineLoop env count body offset) := by
  intro d e r e' hdepth hmax hrun
  obtain ⟨lengthAt, e₁, e₂, hhead, hbodyRun, -, rfl⟩ := machineLoop_ok hrun
  have hfirst : e₁.depth = d ∧ e₁.depth ≤ e₁.maxDepth ∧ e.maxDepth ≤ e₁.maxDepth ∧
      d + Stmt.headNeed count ≤ e₁.maxDepth := by
    cases hhead with
    | literal hlit =>
        simp only [Stmt.headNeed, hlit]
        omega
    | @computed e₂ e₃ hlit hexpr hcheck =>
        have h₁ := expr env count d e () e₂ hdepth hmax hexpr
        have h₂ := Level.checkTop env _ _ _ e₂ () e₃ hcheck
        simp only [Stmt.headNeed, hlit]
        omega
  have hrest := hbody d e₁ () e₂ hfirst.1 hfirst.2.1 hbodyRun
  dsimp only
  omega

mutual

theorem stmt (env : EmitEnv) (s : Stmt) : Climbs 0 0 (s.need env.level) (Emit.stmt env s) := by
  cases s with
  | «using» offset ns => exact level (.pure _)
  | input offset name typeName declared => exact level (.pure _)
  | var v => exact varStmt env v
  | cond offset test body rest =>
      refine (after .newLabel fun done => after .newLabel fun next => (expr env test).bind fun _ =>
        (jumpIf (by decide) next).bind fun _ => (stmts env body).bind fun _ =>
          after (.goto done) fun _ => after (.mark next) fun _ =>
            (branches env done rest).before fun _ => .mark done).weaken ?_
      simp only [Stmt.need]
      omega
  | whileLoop offset test body =>
      exact after .newLabel fun top =>
        testedLoop env test (fun labels => inLoop labels (stmts env body)) top top
  | forLoop offset init test step body =>
      refine ((varStmt env init).bind fun _ => after .newLabel fun top => after .newLabel fun next =>
        testedLoop env test (fun labels => (inLoop labels (stmts env body)).bind fun _ =>
          after (.mark next) fun _ => varStmt env step) top next).weaken ?_
      simp only [Stmt.need]
      omega
  | eachLoop offset item source body how => exact eachLoop env item source (stmts env body) how offset
  | countLoop offset count body =>
      have hbody := stmts env body
      unfold Emit.stmt Stmt.need Stmt.countNeed
      split
      · exact machineLoop env count hbody offset
      · exact countLoop env count hbody offset
  | leave offset =>
      refine after .get fun e => ?_
      split
      · exact level (.goto _)
      · exact fail _ _
  | again offset =>
      refine after .get fun e => ?_
      split
      · exact level (.goto _)
      · exact fail _ _
  | ret offset value =>
      have hrest : Climbs 1 0 0 (do Emit.op .ret; Emit.popped 1) := after (.op _) fun _ => popped 1
      cases value with
      | some v => exact ((expr env v).bind fun _ => hrest).weaken (Nat.le_max_left _ _)
      | none =>
          exact (after (.op _) fun _ => (pushed 1).bind fun _ => hrest).weaken (Nat.le_max_left _ _)
  | exit offset => exact level (.op _)
  | func offset name params body => exact fail _ _
  | call offset target =>
      exact ((expr env target).bind fun _ => after (.op _) fun _ => popped 1).weaken
        (Nat.le_max_left _ _)
  | assign offset target value => exact assignStmt env target value

theorem stmts (env : EmitEnv) (ss : List Stmt) :
    Climbs 0 0 (Stmt.needAll env.level ss) (Emit.stmts env ss) := by
  cases ss with
  | nil => exact level (.pure _)
  | cons s rest => exact (stmt env s).bind fun _ => stmts env rest

theorem branches (env : EmitEnv) (done : Nat) (b : Branches) :
    Climbs 0 0 (Stmt.needBranches env.level b) (Emit.branches env done b) := by
  cases b with
  | done => exact level (.pure _)
  | otherwise body => exact stmts env body
  | elseIf test body rest =>
      refine (after .newLabel fun next => (expr env test).bind fun _ =>
        (jumpIf (by decide) next).bind fun _ => (stmts env body).bind fun _ =>
          after (.goto done) fun _ => after (.mark next) fun _ => branches env done rest).weaken ?_
      simp only [Stmt.needBranches]
      omega

end

end Climbs

end Emit

theorem Emit.Level.inputSlots (inputs : List InputVar) : Level (Emit.inputSlots inputs) := by
  induction inputs with
  | nil => exact .pure _
  | cons v rest ih => exact (Level.slot v.name 0).bind fun _ => ih

-- The stack of a script is announced to be as high as its statements need it.
theorem CompiledScript.needAll_le_maxStack {r : Registry} {options : CompileOptions}
    {script : Script} {analysis : Analysis} {s : CompiledScript}
    (h : generate r options script analysis = .ok s) :
    Stmt.needAll options.level script ≤ s.maxStack := by
  obtain ⟨⟨⟨⟩, fin⟩, hrun, h₁⟩ := except_bind_ok.mp h
  obtain ⟨code, -, h₂⟩ := except_bind_ok.mp h₁
  obtain ⟨table, -, h₃⟩ := except_bind_ok.mp h₂
  cases h₃
  let env : EmitEnv := ⟨r, analysis.symbols, options.level⟩
  have hall : Emit.Climbs 0 0 (Stmt.needAll options.level script)
      (Emit.script env analysis.inputs script) :=
    .after (.inputSlots analysis.inputs) fun _ => (Emit.Climbs.stmts env script).before
      fun _ => .op _
  have hdone := hall 0 {} () fin rfl (Nat.le_refl _) hrun
  dsimp only
  omega

end HostScript
