import Mathlib
import HostScript.Diagnostic

namespace HostScript

section Stateful

variable {σ ε α β : Type}

-- Work with a state that may fail is done when each of its parts is.
theorem bind_ok {x : StateT σ (Except ε) α} {f : α → StateT σ (Except ε) β} {s : σ} {r : β × σ} :
    (x >>= f) s = .ok r ↔ ∃ a s₁, x s = .ok (a, s₁) ∧ f a s₁ = .ok r := by
  simp only [bind, StateT.bind, Except.bind]
  cases x s with
  | error d => simp
  | ok p =>
      constructor
      · exact fun h => ⟨p.1, p.2, rfl, h⟩
      · rintro ⟨a, s₁, hp, h⟩
        cases hp
        exact h

theorem except_bind_ok {x : Except ε α} {f : α → Except ε β} {b : β} :
    x >>= f = .ok b ↔ ∃ a, x = .ok a ∧ f a = .ok b := by
  cases x with
  | error d => simp [bind, Except.bind]
  | ok a => simp [bind, Except.bind]

theorem except_bind_error {x : Except ε α} {f : α → Except ε β} {d : ε} :
    x >>= f = .error d ↔ x = .error d ∨ ∃ a, x = .ok a ∧ f a = .error d := by
  cases x with
  | error d' => simp [bind, Except.bind]
  | ok a => simp [bind, Except.bind]

theorem bind_error {x : StateT σ (Except ε) α} {f : α → StateT σ (Except ε) β} {s : σ} {d : ε} :
    (x >>= f) s = .error d ↔
      x s = .error d ∨ ∃ a s₁, x s = .ok (a, s₁) ∧ f a s₁ = .error d :=
  except_bind_error.trans (or_congr_right Prod.exists)

theorem pure_ok {a : α} {s : σ} {r : α × σ} :
    (pure a : StateT σ (Except ε) α) s = .ok r ↔ r = (a, s) := by
  simp only [pure, StateT.pure, Except.pure, Except.ok.injEq]
  exact eq_comm

theorem throw_ok {d : ε} {s : σ} {r : α × σ} :
    (throw d : StateT σ (Except ε) α) s = .ok r ↔ False := by
  simp [throw, throwThe, MonadExceptOf.throw, StateT.lift, bind, Except.bind]

theorem modify_ok {f : σ → σ} {s : σ} {r : PUnit × σ} :
    (modify f : StateT σ (Except ε) PUnit) s = .ok r ↔ r = (⟨⟩, f s) := by
  simp only [modify, modifyGet, MonadStateOf.modifyGet, StateT.modifyGet, pure, Except.pure,
    Except.ok.injEq]
  exact eq_comm

theorem get_ok {s : σ} {r : σ × σ} :
    (get : StateT σ (Except ε) σ) s = .ok r ↔ r = (s, s) := by
  simp only [get, getThe, MonadStateOf.get, StateT.get, pure, Except.pure, Except.ok.injEq]
  exact eq_comm

theorem set_ok {t s : σ} {r : PUnit × σ} :
    (set t : StateT σ (Except ε) PUnit) s = .ok r ↔ r = (⟨⟩, t) := by
  simp only [set, StateT.set, pure, Except.pure, Except.ok.injEq]
  exact eq_comm

-- Work that, if it succeeds, leads from good states to good states and gives an answer as `Q` says.
def Ensures (I : σ → Prop) (Q : α → Prop) (x : StateT σ (Except ε) α) : Prop :=
  ∀ s a s', I s → x s = .ok (a, s') → I s' ∧ Q a

namespace Ensures

variable {I : σ → Prop} {Q : α → Prop} {R : β → Prop}

theorem pure {a : α} (h : Q a) : Ensures I Q (Pure.pure a : StateT σ (Except ε) α) := by
  intro s b s' hs hrun
  cases pure_ok.mp hrun
  exact ⟨hs, h⟩

theorem throw (d : ε) : Ensures I Q (MonadExcept.throw d : StateT σ (Except ε) α) :=
  fun _ _ _ _ hrun => (throw_ok.mp hrun).elim

theorem bind {x : StateT σ (Except ε) α} {f : α → StateT σ (Except ε) β} (hx : Ensures I Q x)
    (hf : ∀ a, Q a → Ensures I R (f a)) : Ensures I R (x >>= f) := by
  intro s b s' hs hrun
  obtain ⟨a, s₁, hfirst, hrest⟩ := bind_ok.mp hrun
  obtain ⟨hs₁, ha⟩ := hx s a s₁ hs hfirst
  exact hf a ha s₁ b s' hs₁ hrest

theorem imp {Q' : α → Prop} {x : StateT σ (Except ε) α} (h : Ensures I Q x) (hQ : ∀ a, Q a → Q' a) :
    Ensures I Q' x :=
  fun s a s' hs hrun => (h s a s' hs hrun).imp_right (hQ a)

theorem change {f : σ → σ} (h : ∀ s, I s → I (f s)) :
    Ensures I (fun _ => True) (modify f : StateT σ (Except ε) PUnit) := by
  intro s a s' hs hrun
  cases modify_ok.mp hrun
  exact ⟨h s hs, trivial⟩

theorem get : Ensures I I (MonadState.get : StateT σ (Except ε) σ) := by
  intro s a s' hs hrun
  cases get_ok.mp hrun
  exact ⟨hs, hs⟩

theorem set {t : σ} (h : I t) :
    Ensures I (fun _ => True) (MonadStateOf.set t : StateT σ (Except ε) PUnit) := by
  intro s a s' _ hrun
  cases set_ok.mp hrun
  exact ⟨h, trivial⟩

end Ensures

end Stateful

-- What holds of work however it ends: `Q` of its answer, or `E` of what stopped it.
def Upholds {ε σ α : Type} (E : ε → σ → Prop) (Q : α → σ → Prop) : EStateM.Result ε σ α → Prop
  | .ok a s => Q a s
  | .error e s => E e s

instance {ε σ α : Type} {E : ε → σ → Prop} {Q : α → σ → Prop} [∀ e s, Decidable (E e s)]
    [∀ a s, Decidable (Q a s)] : ∀ result : EStateM.Result ε σ α, Decidable (Upholds E Q result)
  | .ok a s => inferInstanceAs (Decidable (Q a s))
  | .error e s => inferInstanceAs (Decidable (E e s))

namespace Upholds

variable {ε σ α β : Type} {E : ε → σ → Prop} {Q : α → σ → Prop} {R : β → σ → Prop}

theorem bind {x : EStateM ε σ α} {f : α → EStateM ε σ β} {s : σ} (hx : Upholds E Q (x s))
    (hf : ∀ a s', Q a s' → Upholds E R (f a s')) : Upholds E R ((x >>= f) s) := by
  simp only [Bind.bind, EStateM.bind]
  cases hresult : x s with
  | ok a s' =>
      rw [hresult] at hx
      exact hf a s' hx
  | error e s' =>
      rw [hresult] at hx
      exact hx

theorem imp {E' : ε → σ → Prop} {Q' : α → σ → Prop} {result : EStateM.Result ε σ α}
    (h : Upholds E Q result) (hE : ∀ e s, E e s → E' e s) (hQ : ∀ a s, Q a s → Q' a s) :
    Upholds E' Q' result := by
  cases result with
  | ok a s => exact hQ a s h
  | error e s => exact hE e s h

theorem weaken {Q' : α → σ → Prop} {result : EStateM.Result ε σ α} (h : Upholds E Q result)
    (hQ : ∀ a s, Q a s → Q' a s) : Upholds E Q' result :=
  h.imp (fun _ _ he => he) hQ

theorem pure {a : α} {s : σ} (h : Q a s) : Upholds E Q ((Pure.pure a : EStateM ε σ α) s) :=
  h

theorem throw {e : ε} {s : σ} (h : E e s) : Upholds E Q ((MonadExcept.throw e : EStateM ε σ α) s) :=
  h

end Upholds

-- Work that leads from any state to a related one, however it ends, and fails only as `F` says.
def Relates {ε σ α : Type} (R : σ → σ → Prop) (F : ε → Prop) (x : EStateM ε σ α) : Prop :=
  ∀ s, Upholds (fun e s' => R s s' ∧ F e) (fun _ s' => R s s') (x s)

namespace Relates

variable {ε σ α β : Type} {R : σ → σ → Prop} {F : ε → Prop}

theorem pure (hR : ∀ s, R s s) (a : α) : Relates R F (Pure.pure a : EStateM ε σ α) :=
  fun s => .pure (hR s)

theorem bind (hR : ∀ {s s₁ s₂}, R s s₁ → R s₁ s₂ → R s s₂) {x : EStateM ε σ α}
    {f : α → EStateM ε σ β} (hx : Relates R F x) (hf : ∀ a, Relates R F (f a)) :
    Relates R F (x >>= f) := by
  intro s
  refine (hx s).bind fun a s₁ h₁ => (hf a s₁).imp (fun e s₂ h₂ => ?_) fun b s₂ h₂ => hR h₁ h₂
  exact ⟨hR h₁ h₂.1, h₂.2⟩

end Relates

end HostScript
