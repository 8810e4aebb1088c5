import HostScript.Proofs.Levels.Variables

namespace HostScript

namespace Levels

-- From these two places on both runs do the same, whatever variables they have of those that `R`
-- allows.
def Leads [HostHooks] (T : Levels) (R : Array Cell → Array Cell → Prop) (n : Nat)
    (loops : List LoopFrame) (q₀ q₁ : Nat) : Prop :=
  ∀ (m : Machine) (l₀ l₁ : Array Cell), R l₀ l₁ →
    T.Mirrors n (m.standing l₀ [] q₀) (m.standing l₁ loops q₁)

-- The same for where the loop around is left or goes on. Getting there takes a step.
def Exits [HostHooks] (T : Levels) (R : Array Cell → Array Cell → Prop) (n : Nat)
    (loops : List LoopFrame) (e₀ e₁ : Option (Nat × Nat)) : Prop :=
  ∀ a₀ b₀ a₁ b₁ j, e₀ = some (a₀, b₀) → e₁ = some (a₁, b₁) → j < n →
    T.Leads R j loops a₀ a₁ ∧ T.Leads R j loops b₀ b₁

-- The code of statements, from `p` to `q`. Only statements that `may` leave it or start over lead
-- out of it. Hidden variables of the code around it have numbers up to `k`.
structure Runs [HostHooks] (T : Levels) (may : Bool) (e₀ e₁ : Option (Nat × Nat))
    (k₀ k₁ p₀ p₁ q₀ q₁ : Nat) : Prop where
  le : p₁ ≤ q₁
  go : ∀ {n : Nat} {m : Machine} {l₀ l₁ : Array Cell} {loops : List LoopFrame},
    T.Alike k₀ k₁ l₀ l₁ → q₁ ≤ T.fast.rangeEnd loops →
    T.Leads (T.After k₀ k₁ l₀ l₁) n loops q₀ q₁ →
    (may = true → T.Exits (T.After k₀ k₁ l₀ l₁) n loops e₀ e₁) →
    T.Mirrors n (m.standing l₀ [] p₀) (m.standing l₁ loops p₁)

variable [HostHooks] {T : Levels} {may may' : Bool} {e₀ e₁ : Option (Nat × Nat)} {n j : Nat}
  {k₀ k₁ j₀ j₁ p₀ p₁ q₀ q₁ r₀ r₁ : Nat} {l₀ l₁ l₀' l₁' : Array Cell} {loops : List LoopFrame}
  {R R' : Array Cell → Array Cell → Prop}

theorem Leads.mono (h : T.Leads R n loops q₀ q₁) (hj : j ≤ n) : T.Leads R j loops q₀ q₁ :=
  fun m l₀ l₁ hr => (h m l₀ l₁ hr).mono hj

theorem Leads.imp (h : T.Leads R n loops q₀ q₁) (himp : ∀ l₀ l₁, R' l₀ l₁ → R l₀ l₁) :
    T.Leads R' n loops q₀ q₁ :=
  fun m l₀ l₁ hr => h m l₀ l₁ (himp l₀ l₁ hr)

theorem Exits.imp (h : T.Exits R n loops e₀ e₁) (himp : ∀ l₀ l₁, R' l₀ l₁ → R l₀ l₁) :
    T.Exits R' n loops e₀ e₁ :=
  fun a₀ b₀ a₁ b₁ j he₀ he₁ hj =>
    ⟨(h a₀ b₀ a₁ b₁ j he₀ he₁ hj).1.imp himp, (h a₀ b₀ a₁ b₁ j he₀ he₁ hj).2.imp himp⟩

-- Where a loop goes back to its top, the slow run has taken a step.
theorem Leads.again (h : ∀ j < n, T.Leads R j loops p₀ p₁ → T.Leads R (j + 1) loops p₀ p₁) :
    T.Leads R n loops p₀ p₁ := by
  induction n with
  | zero => exact fun _ _ _ _ => .zero
  | succ n ih => exact h n (Nat.lt_succ_self n) (ih fun j hj => h j (by omega))

namespace Runs

theorem nothing : T.Runs false e₀ e₁ k₀ k₁ p₀ p₁ p₀ p₁ :=
  ⟨Nat.le_refl p₁, fun halike _ hnext _ => hnext _ _ _ (.refl halike)⟩

-- Statements have their hidden variables above those of the code before them, too.
theorem lower (h : T.Runs may e₀ e₁ j₀ j₁ p₀ p₁ q₀ q₁) (hk₀ : k₀ ≤ j₀) (hk₁ : k₁ ≤ j₁) :
    T.Runs may e₀ e₁ k₀ k₁ p₀ p₁ q₀ q₁ :=
  ⟨h.le, fun halike hq hnext hexits =>
    have himp := fun _ _ hafter => halike.after hafter hk₀ hk₁
    h.go (halike.mono hk₀ hk₁) hq (hnext.imp himp) fun hm => (hexits hm).imp himp⟩

theorem seq (h : T.Runs may e₀ e₁ k₀ k₁ p₀ p₁ q₀ q₁) (h' : T.Runs may' e₀ e₁ k₀ k₁ q₀ q₁ r₀ r₁) :
    T.Runs (may || may') e₀ e₁ k₀ k₁ p₀ p₁ r₀ r₁ := by
  refine ⟨Nat.le_trans h.le h'.le, fun halike hr hnext hexits => ?_⟩
  refine h.go halike (Nat.le_trans h'.le hr) (fun m l₀' l₁' hafter => ?_)
    fun hm => hexits (by rw [hm, Bool.true_or])
  exact h'.go hafter.alike hr (hnext.imp fun _ _ => hafter.trans)
    fun hm => (hexits (by rw [hm, Bool.or_true])).imp fun _ _ => hafter.trans

end Runs

theorem Flows.runs (h : T.Flows p₀ p₁ q₀ q₁) : T.Runs false e₀ e₁ k₀ k₁ p₀ p₁ q₀ q₁ :=
  ⟨h.le, fun halike hq hnext _ => h.go halike.named hq fun _ => hnext _ _ _ (.refl halike)⟩

namespace Runs

theorem store {name : String} (hname : PlainName name) (h₀ : T.slow.Store name p₀ q₀)
    (h₁ : T.fast.Store name p₁ q₁) : T.Runs false e₀ e₁ k₀ k₁ p₀ p₁ q₀ q₁ := by
  obtain ⟨s₀, hs₀, hat₀⟩ := h₀
  obtain ⟨s₁, hs₁, hat₁⟩ := h₁
  rw [T.symbols] at hat₁
  refine ⟨Nat.le_of_lt hat₁.lt, fun halike hq hnext _ => ?_⟩
  refine store_mirrors hat₀ hat₁ hq
    (halike.old hs₁ fun _ => halike.named name s₀ s₁ hname hs₀ hs₁) fun m' c _ hlt₀ hlt₁ => ?_
  exact hnext m' _ _ (halike.assign hname hs₀ hs₁ hlt₀ hlt₁ c)

theorem var {v : VarStmt} (hplain : v.Plain) (h₀ : VarCode T.slow v p₀ q₀)
    (h₁ : VarCode T.fast v p₁ q₁) : T.Runs false e₀ e₁ k₀ k₁ p₀ p₁ q₀ q₁ := by
  cases h₀ with
  | declare hvalue₀ hstore₀ =>
      cases h₁ with
      | declare hvalue₁ hstore₁ =>
          exact (Flows.expr _ hplain.2 hvalue₀ hvalue₁).runs.seq (store hplain.1 hstore₀ hstore₁)
  | update hload₀ hchange₀ hat₀ hstore₀ =>
      cases h₁ with
      | update hload₁ hchange₁ hat₁ hstore₁ =>
          exact ((Flows.load hplain.1 hload₀ hload₁).trans
            ((Flows.change hplain.2 hchange₀ hchange₁).trans (.binary hat₀ hat₁))).runs.seq
            (store hplain.1 hstore₀ hstore₁)

-- The end of the script.
theorem stop {i : Instr} (h₀ : T.slow.At p₀ i q₀) (h₁ : T.fast.At p₁ i q₁)
    (hlocated : i.isLocated = false) (hnames : i.namesNoText = true) (hflow : i.flow = .stop) :
    T.Runs false e₀ e₁ k₀ k₁ p₀ p₁ q₀ q₁ :=
  ⟨Nat.le_of_lt h₁.lt, fun _ hq _ _ => (Twin.same hlocated hnames).stops h₀ h₁ hq hflow⟩

-- A jump out of the statements.
theorem jump {a₀ a₁ b₀ b₁ t₀ t₁ : Nat} (h₀ : T.slow.Jump p₀ q₀ t₀) (h₁ : T.fast.Jump p₁ q₁ t₁)
    (ht : t₀ = a₀ ∧ t₁ = a₁ ∨ t₀ = b₀ ∧ t₁ = b₁) :
    T.Runs true (some (a₀, b₀)) (some (a₁, b₁)) k₀ k₁ p₀ p₁ q₀ q₁ := by
  refine ⟨Nat.le_of_lt h₁.lt, fun {n m l₀ l₁ loops} halike hq _ hexits => ?_⟩
  cases n with
  | zero => exact .zero
  | succ n =>
      obtain ⟨hleave, hagain⟩ := hexits rfl a₀ b₀ a₁ b₁ n rfl rfl (Nat.lt_succ_self n)
      refine jump_mirrors h₀ h₁ hq ?_
      rcases ht with ⟨rfl, rfl⟩ | ⟨rfl, rfl⟩
      · exact hleave m l₀ l₁ (.refl halike)
      · exact hagain m l₀ l₁ (.refl halike)

-- One of two parts is carried out, and both lead to the same place.
theorem cond {test : Expr} {a₀ a₁ b₀ b₁ c₀ c₁ d₀ d₁ : Nat} (hplain : test.Plain)
    (htest₀ : ExprCode T.slow test p₀ a₀) (htest₁ : ExprCode T.fast test p₁ a₁)
    (hif₀ : T.slow.JumpIf false a₀ b₀ d₀) (hif₁ : T.fast.JumpIf false a₁ b₁ d₁)
    (hbody : T.Runs may e₀ e₁ k₀ k₁ b₀ b₁ c₀ c₁) (hout₀ : T.slow.Jump c₀ d₀ q₀)
    (hout₁ : T.fast.Jump c₁ d₁ q₁) (hrest : T.Runs may' e₀ e₁ k₀ k₁ d₀ d₁ q₀ q₁) :
    T.Runs (may || may') e₀ e₁ k₀ k₁ p₀ p₁ q₀ q₁ := by
  have htest := Flows.expr test hplain htest₀ htest₁
  have hlt₁ := hif₁.lt
  have hlt₂ := hout₁.lt
  have hle₁ := htest.le
  have hle₂ := hbody.le
  have hle₃ := hrest.le
  refine ⟨by omega, fun halike hq hnext hexits => ?_⟩
  refine htest.go halike.named (by omega) fun _ => jumpIf_mirrors hif₀ hif₁ (by omega) (fun _ => ?_)
    fun _ => ?_
  · exact hrest.go halike hq hnext fun hm => hexits (by rw [hm, Bool.or_true])
  · refine hbody.go halike (by omega) (fun m' l₀' l₁' hafter => ?_)
      fun hm => hexits (by rw [hm, Bool.true_or])
    exact (jump_mirrors hout₀ hout₁ (by omega) (hnext m' l₀' l₁' hafter)).mono (Nat.le_succ _)

-- The test comes before every round.
theorem whileLoop {test : Expr} {a₀ a₁ b₀ b₁ c₀ c₁ : Nat} (hplain : test.Plain)
    (htest₀ : ExprCode T.slow test p₀ a₀) (htest₁ : ExprCode T.fast test p₁ a₁)
    (hif₀ : T.slow.JumpIf false a₀ b₀ q₀) (hif₁ : T.fast.JumpIf false a₁ b₁ q₁)
    (hbody : T.Runs may (some (q₀, p₀)) (some (q₁, p₁)) k₀ k₁ b₀ b₁ c₀ c₁)
    (hback₀ : T.slow.Jump c₀ q₀ p₀) (hback₁ : T.fast.Jump c₁ q₁ p₁) :
    T.Runs false e₀ e₁ k₀ k₁ p₀ p₁ q₀ q₁ := by
  have htest := Flows.expr test hplain htest₀ htest₁
  have hlt₁ := hif₁.lt
  have hlt₂ := hback₁.lt
  have hle₁ := htest.le
  have hle₂ := hbody.le
  refine ⟨by omega, fun {n m l₀ l₁ loops} halike hq hnext _ => ?_⟩
  refine Leads.again (R := T.After k₀ k₁ l₀ l₁) (fun j hj htop => ?_) m l₀ l₁ (.refl halike)
  intro m' l₀' l₁' hafter
  have hdone : T.Leads (T.After k₀ k₁ l₀ l₁) (j + 1) loops q₀ q₁ := hnext.mono (by omega)
  refine htest.go hafter.alike.named (by omega) fun _ => jumpIf_mirrors hif₀ hif₁ (by omega)
    (fun m₂ => hdone m₂ l₀' l₁' hafter) fun _ => ?_
  refine hbody.go hafter.alike (by omega) (fun m₂ l₀₂ l₁₂ hafter₂ => ?_) fun _ => ?_
  · exact jump_mirrors hback₀ hback₁ (by omega) (htop m₂ l₀₂ l₁₂ (hafter.trans hafter₂))
  · rintro _ _ _ _ i ⟨⟩ ⟨⟩ hi
    exact ⟨(hdone.mono (by omega)).imp fun _ _ => hafter.trans,
      (htop.mono (by omega)).imp fun _ _ => hafter.trans⟩

-- The same with something done first and something after every round.
theorem forLoop {init step : VarStmt} {test : Expr} {t₀ t₁ a₀ a₁ b₀ b₁ c₀ c₁ d₀ d₁ : Nat}
    (hplain : init.Plain ∧ test.Plain ∧ step.Plain)
    (hinit₀ : VarCode T.slow init p₀ t₀) (hinit₁ : VarCode T.fast init p₁ t₁)
    (htest₀ : ExprCode T.slow test t₀ a₀) (htest₁ : ExprCode T.fast test t₁ a₁)
    (hif₀ : T.slow.JumpIf false a₀ b₀ q₀) (hif₁ : T.fast.JumpIf false a₁ b₁ q₁)
    (hbody : T.Runs may (some (q₀, c₀)) (some (q₁, c₁)) k₀ k₁ b₀ b₁ c₀ c₁)
    (hstep₀ : VarCode T.slow step c₀ d₀) (hstep₁ : VarCode T.fast step c₁ d₁)
    (hback₀ : T.slow.Jump d₀ q₀ t₀) (hback₁ : T.fast.Jump d₁ q₁ t₁) :
    T.Runs false e₀ e₁ k₀ k₁ p₀ p₁ q₀ q₁ := by
  have hinit : T.Runs false e₀ e₁ k₀ k₁ p₀ p₁ t₀ t₁ := var hplain.1 hinit₀ hinit₁
  have htest := Flows.expr test hplain.2.1 htest₀ htest₁
  have hstep : T.Runs false e₀ e₁ k₀ k₁ c₀ c₁ d₀ d₁ := var hplain.2.2 hstep₀ hstep₁
  have hlt₁ := hif₁.lt
  have hlt₂ := hback₁.lt
  have hle₁ := htest.le
  have hle₂ := hbody.le
  have hle₃ := hstep.le
  suffices hloop : T.Runs false e₀ e₁ k₀ k₁ t₀ t₁ q₀ q₁ from hinit.seq hloop
  refine ⟨by omega, fun {n m l₀ l₁ loops} halike hq hnext _ => ?_⟩
  refine Leads.again (R := T.After k₀ k₁ l₀ l₁) (fun j hj htop => ?_) m l₀ l₁ (.refl halike)
  intro m' l₀' l₁' hafter
  have hdone : T.Leads (T.After k₀ k₁ l₀ l₁) (j + 1) loops q₀ q₁ := hnext.mono (by omega)
  have hagain : T.Leads (T.After k₀ k₁ l₀ l₁) (j + 1) loops c₀ c₁ := fun m₂ l₀₂ l₁₂ hafter₂ => by
    refine hstep.go hafter₂.alike (by omega) (fun m₃ l₀₃ l₁₃ hafter₃ => ?_) (by simp)
    exact jump_mirrors hback₀ hback₁ (by omega) (htop m₃ l₀₃ l₁₃ (hafter₂.trans hafter₃))
  refine htest.go hafter.alike.named (by omega) fun _ => jumpIf_mirrors hif₀ hif₁ (by omega)
    (fun m₂ => hdone m₂ l₀' l₁' hafter) fun _ => ?_
  refine hbody.go hafter.alike (by omega) (hagain.imp fun _ _ => hafter.trans) fun _ => ?_
  rintro _ _ _ _ i ⟨⟩ ⟨⟩ hi
  exact ⟨(hdone.mono (by omega)).imp fun _ _ => hafter.trans,
    (hagain.mono (by omega)).imp fun _ _ => hafter.trans⟩

end Runs

end Levels

end HostScript
