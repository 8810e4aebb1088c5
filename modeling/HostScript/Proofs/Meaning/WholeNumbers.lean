import HostScript.Proofs.Meaning.Types
import HostScript.Proofs.Semantics.Fractionless
import HostScript.Proofs.Semantics.Throughout

namespace HostScript

open Machine

-- Whatever is worked out of an expression that is recorded as a whole number is one if it is finite,
-- and just then it passes where a whole number is asked for.
def Dialect.GivesWhole (D : Dialect) (vars : String → Value) (e : Expr) : Prop :=
  e.ty = .long → ∀ inLoop o v o', D.eval inLoop vars e o = .ok v o' →
    ∃ y, v = .number y ∧ Number.isWhole y = y.isFinite ∧
      (Ty.long.admits (D.registry.typeOf v) = true ↔ y.isFinite = true)

namespace Dialect

variable {D : Dialect} {E : Stop → Prop}

theorem Gives.whole {vars : String → Value} {e : Expr}
    (h : D.Gives (fun v ty => ty = .long → v.Fractionless) E vars e) : D.GivesWhole vars e := by
  intro hlong inLoop o v o' hok
  have hends := h inLoop o
  rw [hok] at hends
  have hv : v.Fractionless := hends hlong
  obtain ⟨y, rfl, -⟩ := hv.exists_number
  exact ⟨y, rfl, hv, hv.admits_iff⟩

end Dialect

namespace CompiledScript

variable {r : Registry} {options : CompileOptions} {source : String} {s : CompiledScript}
  {parsed checked : Script} {a : Analysis} {L : Layout} {supplied : List (String × Value)}
  {m : Machine}

-- Without loops, a number that is recorded as whole is so if it is finite.
theorem Stages.gives_whole (hr : r.Built) (h : Stages r options source s parsed checked a L)
    (hfree : Stmt.AllLoopFree checked) (haccepted : ∀ v ∈ a.inputs, v.accepted r supplied = true)
    (rounds : Nat) (world : World) :
    (Dialect.watched r a.symbols options.level rounds).AllThroughout
      (Dialect.watched r a.symbols options.level rounds).GivesWhole false checked
      (Store.start a.inputs supplied world) := by
  obtain ⟨Γ, htyped, hborne, -⟩ := h.borneOut Ty.orders_wholeTo hr hfree
  have hreading := Dialect.reading_fractionless (.watched r a.symbols options.level rounds)
  exact (Dialect.script_throughout hreading Dialect.control_fractionless
    Dialect.compares_fractionless htyped h.sound.linked (Script.settled_of_check h.check).1 hborne hfree
    (hold_start hreading.answers haccepted world)).imp fun _ _ => Dialect.Gives.whole

-- In a source text without loops, whatever an expression comes to that is recorded as a whole number
-- is a number, which is whole and passes for one unless it is infinite or not a number. Its run ends
-- as this evaluation says.
theorem whole_without_loops (hr : r.Built) (hcompile : compile r options source = .ok s)
    (hanalyze : Script.analyze r options.imports source = .ok (checked, a))
    (hfree : Stmt.AllLoopFree checked) (hm : m.Idle)
    (haccepted : ∀ v ∈ a.inputs, v.accepted r supplied = true) (rounds : Nat) :
    (Dialect.watched r a.symbols options.level rounds).AllThroughout
        (Dialect.watched r a.symbols options.level rounds).GivesWhole false checked
        (Store.start a.inputs supplied m.world) ∧
      ∃ w x, verdict? ((Dialect.watched r a.symbols options.level rounds).execAll false checked
          (Store.start a.inputs supplied m.world)) = some w ∧
        m.Halts ⟨r, s⟩ supplied x ∧ (x.verdict = w ∧ x.warnings = #[] ∨ m.CutsShort s x) := by
  obtain ⟨parsed, _, _, L, h⟩ := exists_stages hr hcompile
  cases hanalyze.symm.trans h.analyze
  obtain ⟨w, hw, -, ⟨x, hx, hend⟩, -⟩ := h.halts_typed hr hfree hm haccepted rounds
  exact ⟨h.gives_whole hr hfree haccepted rounds m.world, w, x, hw, hx, hend⟩

-- A variable that is recorded as a whole number, and that is not a number at all where it is returned.
def vanishing : String :=
  "in <long> [n]\nvar [x] = [n * n - -n]\nif [n > 2] do\nvar [x] = [x % 0]\nend\nreturn [x]"

theorem vanishing_whole : ∃ s checked a, compile .empty {} vanishing = .ok s ∧
    Script.analyze .empty ["system"] vanishing = .ok (checked, a) ∧ Stmt.AllLoopFree checked ∧
    (∀ v ∈ a.inputs, v.accepted .empty [("n", .number 3)] = true) ∧
    (∃ x, (Machine.new {} {}).Halts ⟨.empty, s⟩ [("n", .number 3)] x) ∧
    ∀ rounds, (Dialect.watched .empty a.symbols 1 rounds).AllThroughout
      (Dialect.watched .empty a.symbols 1 rounds).GivesWhole false checked
      (Store.start a.inputs [("n", .number 3)] {}) := by
  obtain ⟨s, checked, a, hcompile, hanalyze, hfree, haccepted⟩ :
      ∃ s checked a, compile .empty {} vanishing = .ok s ∧
        Script.analyze .empty ["system"] vanishing = .ok (checked, a) ∧ Stmt.AllLoopFree checked ∧
        ∀ v ∈ a.inputs, v.accepted .empty [("n", .number 3)] = true :=
    exists_compiled .empty {} vanishing (by decide +kernel) (by decide +kernel)
  have hwhole := whole_without_loops .empty hcompile hanalyze hfree (Machine.idle_new {} {}) haccepted
  obtain ⟨-, _, x, -, hx, -⟩ := hwhole 0
  exact ⟨s, checked, a, hcompile, hanalyze, hfree, haccepted, ⟨x, hx⟩, fun rounds => (hwhole rounds).1⟩

end CompiledScript

end HostScript
