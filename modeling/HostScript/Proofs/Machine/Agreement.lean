import HostScript.Proofs.Machine.Primitives

namespace HostScript

-- Faults that only say that a machine is too small.
def Fault.exhausts : Fault → Bool
  | .stackOverflow _ | .referencesFull _ => true
  | _ => false

theorem Machine.Exhausted.exhausts {m : Machine} {f : Fault} (h : m.Exhausted f) :
    f.exhausts = true := by
  cases f with
  | stackOverflow capacity => rfl
  | referencesFull capacity => rfl
  | _ => exact h.elim

-- How work on a machine compares with its meaning: both give the same, or the machine is too small.
-- A stack that runs empty loses what was taken off it before.
inductive Agrees {α : Type} :
    EStateM.Result Fault Machine α → EStateM.Result Fault View α → Prop
  | ok {a : α} {m : Machine} {v : View} : m.Shows [] [] v → Agrees (.ok a m) (.ok a v)
  | fault {f : Fault} {m : Machine} {v : View} : m.Shows [] [] v → Agrees (.error f m) (.error f v)
  | underflow {m : Machine} {v : View} :
      Agrees (.error .stackUnderflow m) (.error .stackUnderflow v)
  | exceeded {f : Fault} {a : α} {m : Machine} {v v' : View} :
      m.Exhausted f → m.Shows [] [] v → v.warnings = v'.warnings → Agrees (.error f m) (.ok a v')

namespace Machine.Shows

variable {m : Machine} {v : View} {c : Cell} {x : Value}

theorem push_agrees (hs : m.Shows [c] [x] v) :
    Agrees (Work.push c m) (.ok () { v with stack := x :: v.stack }) := by
  rcases hs.push with ⟨m', h', hs'⟩ | ⟨f, m', h', he, hs'⟩
  · rw [h']
    exact .ok hs'
  · rw [h']
    exact .exceeded he hs' rfl

-- Pushing a value that needs a reference first.
theorem ofValue_push_agrees (hs : m.Shows [] [] v) (x : Value) :
    Agrees ((Work.ofValue x >>= Work.push) m) (.ok () { v with stack := x :: v.stack }) := by
  simp only [bind, EStateM.bind]
  rcases hs.ofValue (by simp) x with ⟨c, m', h', hs'⟩ | ⟨f, h', he⟩
  · rw [h']
    exact hs'.push_agrees
  · rw [h']
    exact .exceeded he hs rfl

theorem pushPlain_agrees (hs : m.Shows [] [] v) (hc : c.handle? = none)
    (hx : m.refs.value? c = some x) :
    Agrees (Work.push c m) (.ok () { v with stack := x :: v.stack }) :=
  (hs.bring hc hx).push_agrees

theorem pushResult_agrees (hs : m.Shows [] [] v) (r : Registry) (declared : Ty) (member : String)
    (x : Value) :
    Agrees (Work.pushResult r declared member x m)
      ((Plain.ofCalc (Calc.result r declared member x) >>= Plain.push) v) := by
  unfold Work.pushResult Calc.result
  by_cases hvoid : declared = .void
  · simp only [hvoid, if_true]
    exact hs.pushPlain_agrees rfl rfl
  · by_cases hadm : declared.admits (r.typeOf x)
    · simp only [hvoid, hadm, if_true, if_false]
      exact hs.ofValue_push_agrees x
    · simp only [hvoid, hadm, if_false]
      exact .fault hs

theorem outside_eq {pending : List Cell} {values : List Value} (hs : m.Shows pending values v) :
    (⟨m.world, m.printed⟩ : Outside) = v.outside := by
  rw [hs.world, hs.printed]
  rfl

end Machine.Shows

namespace Work

variable {m : Machine} {v : View}

-- A calculation on values that were taken off the stack: they are given back whether it succeeds
-- or not.
theorem attempt_agrees {α : Type} {w : Work α} {k : Calc α} {cells : List Cell} {xs : List Value}
    {give : Work Unit} {rest : α → Work Unit} {rest' : α → Plain Unit}
    (hs : m.Shows cells xs v) (hw : w m = ofCalc k m)
    (hgive : ∀ m₁ v₁, m₁.Shows cells xs v₁ → ∃ m₂, give m₁ = .ok () m₂ ∧ m₂.Shows [] [] v₁)
    (hrest : ∀ a m₁ v₁, m₁.Shows [] [] v₁ → Agrees (rest a m₁) (rest' a v₁)) :
    Agrees ((do
        let outcome ← attempt w
        give
        let a ← settle outcome
        rest a) m) ((Plain.ofCalc k >>= rest') v) := by
  simp only [bind, EStateM.bind, attempt, hw, ofCalc, Plain.ofCalc, hs.outside_eq]
  cases k v.outside with
  | ok a o =>
      obtain ⟨m₂, h₂, hs₂⟩ := hgive _ _ (hs.outside o)
      simp only [h₂, settle, pure, EStateM.pure]
      exact hrest a m₂ _ hs₂
  | error f o =>
      obtain ⟨m₂, h₂, hs₂⟩ := hgive _ _ (hs.outside o)
      simp only [h₂, settle, throw, throwThe, MonadExceptOf.throw, EStateM.throw]
      exact .fault hs₂

theorem attempt_last_agrees {w : Work Unit} {k : Calc Unit} {cells : List Cell} {xs : List Value}
    {give : Work Unit} (hs : m.Shows cells xs v) (hw : w m = ofCalc k m)
    (hgive : ∀ m₁ v₁, m₁.Shows cells xs v₁ → ∃ m₂, give m₁ = .ok () m₂ ∧ m₂.Shows [] [] v₁) :
    Agrees ((do
        let outcome ← attempt w
        give
        settle outcome) m) (Plain.ofCalc k v) := by
  have hpure : ∀ a m₁ v₁, m₁.Shows [] [] v₁ →
      Agrees ((pure a : Work Unit) m₁) ((pure a : Plain Unit) v₁) := fun _ _ _ hs₁ => .ok hs₁
  simpa only [bind_pure] using attempt_agrees hs hw hgive hpure

theorem ofCalc_agrees {α : Type} {w : Work α} {k : Calc α} {rest : α → Work Unit}
    {rest' : α → Plain Unit} (hs : m.Shows [] [] v) (hw : w m = ofCalc k m)
    (hrest : ∀ a m₁ v₁, m₁.Shows [] [] v₁ → Agrees (rest a m₁) (rest' a v₁)) :
    Agrees ((w >>= rest) m) ((Plain.ofCalc k >>= rest') v) := by
  simp only [bind, EStateM.bind, hw, ofCalc, Plain.ofCalc, hs.outside_eq]
  cases k v.outside with
  | ok a o => exact hrest a _ _ (hs.outside o)
  | error f o => exact .fault (hs.outside o)

theorem pop_agrees {rest : Cell → Work Unit} {rest' : Value → Plain Unit} (hs : m.Shows [] [] v)
    (hrest : ∀ c x m₁ v₁, m₁.Shows [c] [x] v₁ → Agrees (rest c m₁) (rest' x v₁)) :
    Agrees ((pop >>= rest) m) ((Plain.pop >>= rest') v) := by
  simp only [bind, EStateM.bind, Plain.pop]
  cases hv : v.stack with
  | nil =>
      rw [hs.pop_nil hv]
      exact .underflow
  | cons x stack =>
      obtain ⟨c, m₁, h₁, hs₁⟩ := hs.pop_cons hv
      rw [h₁]
      exact hrest c x m₁ _ hs₁

-- Taking two values, the upper one first.
theorem pop₂_agrees {rest : Cell → Cell → Work Unit} {rest' : Value → Value → Plain Unit}
    (hs : m.Shows [] [] v)
    (hrest : ∀ b a y x m₁ v₁, m₁.Shows [a, b] [x, y] v₁ → Agrees (rest b a m₁) (rest' y x v₁)) :
    Agrees ((do
        let b ← pop
        let a ← pop
        rest b a) m)
      ((do
        let y ← Plain.pop
        let x ← Plain.pop
        rest' y x) v) := by
  simp only [bind, EStateM.bind, Plain.pop]
  cases hv : v.stack with
  | nil =>
      rw [hs.pop_nil hv]
      exact .underflow
  | cons y stack =>
      obtain ⟨b, m₁, h₁, hs₁⟩ := hs.pop_cons hv
      rw [h₁]
      cases stack with
      | nil =>
          simp only [hs₁.pop_nil rfl]
          exact .underflow
      | cons x stack =>
          obtain ⟨a, m₂, h₂, hs₂⟩ := hs₁.pop_cons rfl
          simp only [h₂]
          exact hrest b a y x m₂ _ hs₂

-- Taking arguments for the host: they are copied out and given back at once.
theorem popArgs_agrees {count : Nat} {rest : List Value → Work Unit}
    {rest' : List Value → Plain Unit} (hs : m.Shows [] [] v)
    (hrest : ∀ xs m₁ v₁, m₁.Shows [] [] v₁ → Agrees (rest xs m₁) (rest' xs v₁)) :
    Agrees ((popArgs count >>= rest) m) ((Plain.popMany count >>= rest') v) := by
  by_cases hc : count ≤ v.stack.length
  · obtain ⟨cells, m₁, h₁, hlen, hs₁⟩ := hs.popMany_ok hc
    have hvalues : toValues cells m₁ = .ok (v.stack.take count).reverse m₁ :=
      toValues_eq (by simpa using hs₁.pending)
    obtain ⟨m₂, h₂, hs₂⟩ := hs₁.releaseAll (by simp [hlen, hc])
    simp only [bind, EStateM.bind, popArgs, h₁, attempt, hvalues, h₂, settle, pure, EStateM.pure,
      Plain.popMany, hc, if_true]
    exact hrest _ m₂ _ hs₂
  · simp only [bind, EStateM.bind, popArgs, hs.popMany_error hc, Plain.popMany, hc, if_false]
    exact .underflow

end Work

end HostScript
