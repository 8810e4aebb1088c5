import HostScript.Proofs.Machine.Scales

namespace HostScript

namespace Work

open Machine (enlarge unseen_enlarge)

variable {α β : Type} {more : Limits} {m : Machine} {a b c : Cell}

theorem orderResult_plain (op : Order) (m' : Machine) (h : orderResult op a b m = .ok c m') :
    c.handle? = none := by
  unfold orderResult at h
  split at h <;> cases h
  rfl

theorem equalResult_plain (negated : Bool) (m' : Machine) (h : equalResult negated a b m = .ok c m') :
    c.handle? = none := by
  unfold equalResult at h
  split at h
  · cases h
    rfl
  · cases h
    rfl
  · cases h
    rfl
  · split at h
    · cases h
      rfl
    · rename_i j k _
      simp only [Bind.bind, EStateM.bind, readRefs] at h
      cases hj : m.refs.text j with
      | error f => simp only [hj] at h; cases h
      | ok s =>
          cases hk : m.refs.text k with
          | error f => simp only [hj, hk] at h; cases h
          | ok t =>
              simp only [hj, hk] at h
              cases h
              rfl
  · cases h
    rfl
  · cases h
    rfl

-- What a sum gives: nothing that needs a reference, or a text in a position of its own.
def Fresh (a b c : Cell) (m m₁ : Machine) : Prop :=
  c.handle? = none ∨ ∃ k s t, c.handle? = some k ∧ m₁ = { m with refs := t } ∧
    m.refs.Spare k s t ∧ a.handle? ≠ some k ∧ b.handle? ≠ some k

variable [HostHooks]

-- An operator, once its operands are off the stack. Its result needs to be in use when they have been
-- given back.
theorem Fits.operator {x : Work Cell} (hx : Overlooks (enlarge more) x m)
    (hlive : ∀ c m₁ m₂ m₃, x m = .ok c m₁ → release a m₁ = .ok () m₂ → release b m₂ = .ok () m₃ →
      ∀ h, c.handle? = some h → m₃.refs.uses h ≠ 0) :
    Fits more (do
      let result ← attempt x
      release a
      release b
      Work.push (← settle result)) m := by
  have hattempt : Overlooks (enlarge more) (attempt x) m := by
    have hone : x (m.enlarge more) = onMachine (enlarge more) (x m) := hx
    simp only [Overlooks, attempt, hone]
    cases x m <;> rfl
  refine Fits.bind (.inl hattempt) fun result m₁ h₁ => ?_
  refine Fits.bind (.inl ((unseen_enlarge more).release a m₁)) fun _ m₂ h₂ => ?_
  refine Fits.bind (.inl ((unseen_enlarge more).release b m₂)) fun _ m₃ h₃ => ?_
  cases result with
  | error f => exact .inl rfl
  | ok c =>
      have hgave : x m = .ok c m₁ := by
        unfold attempt at h₁
        split at h₁ <;> cases h₁
        assumption
      exact Fits.push (hlive c m₁ m₂ m₃ hgave h₂ h₃)

theorem Fits.binary {f : Cell → Cell → Work Cell}
    (hf : ∀ a b, Ignores (enlarge more) (f a b))
    (hplain : ∀ a b m c m', f a b m = .ok c m' → c.handle? = none) :
    Fits more (Work.binary f) m := by
  refine Fits.bind (.inl ((unseen_enlarge more).pop m)) fun b m₁ _ => ?_
  refine Fits.bind (.inl ((unseen_enlarge more).pop m₁)) fun a m₂ _ => ?_
  refine Fits.operator (hf a b m₂) fun c m₃ _ _ h₃ _ _ h hh => ?_
  rw [hplain a b m₂ c m₃ h₃] at hh
  cases hh

theorem Fresh.live {m₁ m₂ m₃ : Machine} (hc : Fresh a b c m m₁) (ha : release a m₁ = .ok () m₂)
    (hb : release b m₂ = .ok () m₃) (h : Nat) (hh : c.handle? = some h) : m₃.refs.uses h ≠ 0 := by
  rcases hc with hnone | ⟨k, s, t, hk, rfl, hspare, hak, hbk⟩
  · rw [hnone] at hh
    cases hh
  · obtain rfl : k = h := Option.some.inj (hk.symm.trans hh)
    rcases release_spare hspare hak with ⟨j, -, hdead⟩ | ⟨u, u', world, -, hgiven, hspare'⟩
    · rw [hdead] at ha
      cases ha
    · rw [hgiven] at ha
      cases ha
      rcases release_spare (m := { m with refs := u, world }) hspare' hbk with
        ⟨j, -, hdead⟩ | ⟨v, v', world', -, hgiven', hspare''⟩
      · rw [hdead] at hb
        cases hb
      · rw [hgiven'] at hb
        cases hb
        rw [References.uses_of_find? hspare''.entry]
        exact Nat.one_ne_zero

end Work

-- No position is left in the table.
def References.Full (t : References) : Prop :=
  t.free = [] ∧ t.capacity ≤ t.slots.size

namespace Work

open Machine (enlarge unseen_enlarge)

variable {α β : Type} {more : Limits} {m : Machine} {a b c : Cell}

-- Work that fits unless `P` holds and a handle that is no longer in use is noticed first.
def FitsUnless (P : Prop) (more : Limits) (x : Work α) (m : Machine) : Prop :=
  Fits more x m ∨ P ∧ ∃ h m', x m = .error (.deadHandle h) m'

theorem FitsUnless.bind {P : Prop} {x : Work α} {f : α → Work β} (hx : FitsUnless P more x m)
    (hf : ∀ a m', x m = .ok a m' → FitsUnless P more (f a) m') :
    FitsUnless P more (x >>= f) m := by
  rcases hx with hx | ⟨hP, h, m₁, hdead⟩
  · cases hresult : x m with
    | error e m' => exact .inl (hx.bind fun a m₁ h₁ => by rw [hresult] at h₁; cases h₁)
    | ok a m' =>
        rcases hf a m' hresult with hnext | ⟨hP, h, m₁, hdead⟩
        · refine .inl (hx.bind fun a₁ m₁ h₁ => ?_)
          rw [hresult] at h₁
          cases h₁
          exact hnext
        · exact .inr ⟨hP, h, m₁, by simp only [Bind.bind, EStateM.bind, hresult, hdead]⟩
  · exact .inr ⟨hP, h, m₁, by simp only [Bind.bind, EStateM.bind, hdead]⟩

theorem refs_of_pop {m' : Machine} (h : pop m = .ok c m') : m'.refs = m.refs := by
  unfold pop at h
  split at h <;> cases h
  rfl

theorem jumpTarget_enlarge (env : RunEnv) (target : Int32) :
    Ignores (enlarge more) (jumpTarget env target) := by
  unfold jumpTarget
  split
  · exact .pure _
  · exact .throw _

theorem jumpTo_enlarge (pc : Nat) : Ignores (enlarge more) (jumpTo pc) := fun _ => rfl

theorem enterLoop_enlarge (env : RunEnv) (count : Nat) (length : Int32) :
    Ignores (enlarge more) (enterLoop env count length) := by
  intro m
  have hpc : (m.enlarge more).pc = m.pc := rfl
  simp only [Overlooks, enterLoop, Bind.bind, EStateM.bind, get, getThe, MonadStateOf.get, EStateM.get, hpc]
  split
  · rfl
  · split <;> rfl

variable [HostHooks]

theorem concat_cases (hs : m.refs.Sound) :
    (Overlooks (enlarge more) (concat a b) m ∧
      ∀ c m₁, concat a b m = .ok c m₁ → Fresh a b c m m₁) ∨
    (concat a b m = .error (.referencesFull m.refs.capacity) m ∧ m.refs.Full) := by
  have hshow := (unseen_enlarge more).reads.display
  rcases display_cases a m with ⟨f, hf⟩ | ⟨s, hs₁, hlive⟩
  · refine .inl ⟨(hshow a m).bind fun s m₁ h₁ => ?_, fun c m₁ h₁ => ?_⟩
    · rw [hf] at h₁
      cases h₁
    · simp [concat, bind, EStateM.bind, hf] at h₁
  rcases display_cases b m with ⟨f, hf⟩ | ⟨s', hs₂, hlive'⟩
  · refine .inl ⟨(hshow a m).bind fun s m₁ h₁ => (hshow b m₁).bind fun s' m₂ h₂ => ?_,
      fun c m₁ h₁ => ?_⟩
    · rw [hs₁] at h₁
      cases h₁
      rw [hf] at h₂
      cases h₂
    · simp [concat, bind, EStateM.bind, hs₁, hf] at h₁
  cases hinsert : m.refs.insertText (s ++ s') with
  | error f =>
      obtain ⟨rfl, hfull⟩ := References.allocate_error hinsert
      exact .inr ⟨by simp [concat, bind, EStateM.bind, hs₁, hs₂, onRefs, hinsert], hfull⟩
  | ok inserted =>
      obtain ⟨k, t⟩ := inserted
      have hspare := References.spare_of_insertText hs hinsert
      have hextend : (m.refs.extend more.references).insertText (s ++ s') =
          .ok (k, t.extend more.references) := References.allocate_extend hinsert
      have hrefs : (m.enlarge more).refs = m.refs.extend more.references := rfl
      refine .inl ⟨(hshow a m).bind fun s₁ m₁ h₁ => (hshow b m₁).bind fun s₂ m₂ h₂ => ?_,
        fun c m₁ h₁ => ?_⟩
      · rw [hs₁] at h₁
        cases h₁
        rw [hs₂] at h₂
        cases h₂
        simp only [Overlooks, bind, EStateM.bind, onRefs, hrefs, hextend, hinsert]
        rfl
      · simp only [concat, bind, EStateM.bind, hs₁, hs₂, onRefs, hinsert, pure, EStateM.pure,
          References.toldSince_same hspare.hooks, HostHooks.tellAll, List.foldl_nil] at h₁
        cases h₁
        exact .inr ⟨k, s ++ s', t, rfl, rfl, hspare, fun ha => hlive k ha hspare.empty,
          fun hb => hlive' k hb hspare.empty⟩

theorem arithResult_cases (more : Limits) (op : Arith) (hs : m.refs.Sound) :
    (Overlooks (enlarge more) (arithResult op a b) m ∧
      ∀ c m₁, arithResult op a b m = .ok c m₁ → Fresh a b c m m₁) ∨
    (op = .add ∧ arithResult op a b m = .error (.referencesFull m.refs.capacity) m ∧
      m.refs.Full) := by
  have hjoin : ∀ x, x = (if op = .add then concat a b
      else MonadExcept.throw (.badOperands op.symbol a.kindName b.kindName)) →
      (Overlooks (enlarge more) x m ∧ ∀ c m₁, x m = .ok c m₁ → Fresh a b c m m₁) ∨
      (op = .add ∧ x m = .error (.referencesFull m.refs.capacity) m ∧ m.refs.Full) := by
    rintro x rfl
    split
    · rename_i hadd
      exact (concat_cases hs).imp id fun h => ⟨hadd, h⟩
    · exact .inl ⟨rfl, fun c m₁ h₁ => by cases h₁⟩
  unfold arithResult
  split
  · refine .inl ⟨rfl, fun c m₁ h₁ => ?_⟩
    cases h₁
    exact .inl rfl
  · exact hjoin _ rfl
  · exact hjoin _ rfl
  · exact .inl ⟨rfl, fun c m₁ h₁ => by cases h₁⟩

theorem dead_of_release {f : Fault} {m' : Machine} (h : release c m = .error f m') :
    ∃ k, f = .deadHandle k := by
  unfold release at h
  cases hc : c.handle? with
  | none =>
      rw [hc] at h
      cases h
  | some k =>
      rw [hc] at h
      cases hfind : m.refs.find? k with
      | none =>
          simp only [onRefs, References.release_empty hfind, bind, Except.bind] at h
          cases h
          exact ⟨k, rfl⟩
      | some e =>
          obtain ⟨u, hu, -⟩ := References.release_eq hfind
          simp only [onRefs, hu, bind, Except.bind] at h
          cases h

-- An operator that found no room gives its operands back before it says so.
theorem FitsUnless.operator {P : Prop} (hP : P) {x : Work Cell} {f : Fault} {m₁ : Machine}
    (hx : x m = .error f m₁) (hf : f.Cramped) :
    FitsUnless P more (do
      let result ← attempt x
      release a
      release b
      push (← settle result)) m := by
  have hattempt : attempt x m = .ok (.error f) m₁ := by simp only [attempt, hx]
  simp only [FitsUnless, Fits, Bind.bind, EStateM.bind, hattempt]
  cases hfirst : release a m₁ with
  | error e m₂ =>
      obtain ⟨h, rfl⟩ := dead_of_release hfirst
      exact .inr ⟨hP, h, m₂, rfl⟩
  | ok _ m₂ =>
      cases hlast : release b m₂ with
      | error e m₃ =>
          obtain ⟨h, rfl⟩ := dead_of_release hlast
          exact .inr ⟨hP, h, m₃, by simp only [hlast]⟩
      | ok _ m₃ => exact .inl (.inr ⟨f, m₃, by simp only [hlast]; rfl, hf⟩)

theorem FitsUnless.arith (op : Arith) (hs : m.refs.Sound) :
    FitsUnless (op = .add ∧ m.refs.Full) more (binary (arithResult op)) m := by
  refine .bind (.inl (.inl ((unseen_enlarge more).pop m))) fun b m₁ h₁ =>
    .bind (.inl (.inl ((unseen_enlarge more).pop m₁))) fun a m₂ h₂ => ?_
  have hrefs : m₂.refs = m.refs := (refs_of_pop h₂).trans (refs_of_pop h₁)
  rcases arithResult_cases (a := a) (b := b) more op (hrefs ▸ hs) with
    ⟨hsame, hfresh⟩ | ⟨hadd, hfull, hroom⟩
  · exact .inl (.operator hsame fun c m₃ _ _ h₃ h₄ h₅ => (hfresh c m₃ h₃).live h₄ h₅)
  · exact .operator ⟨hadd, hrefs ▸ hroom⟩ hfull (Fault.cramped_full _)

-- A variable read without taking a reference may hold a handle that is no longer in use.
theorem FitsUnless.loadLocNoRef (slot : Nat) :
    FitsUnless (m.stackCapacity ≤ m.stack.length) more (do push (← loadLocal slot)) m := by
  refine .bind (.inl (.loadLocal slot)) fun c m₁ h₁ => ?_
  obtain rfl := loadLocal_ok h₁
  by_cases hroom : m₁.stack.length < m₁.stackCapacity
  · exact .inl (.inl (push_overlooks hroom))
  · cases hgiven : release c m₁ with
    | error f m₂ =>
        obtain ⟨h, rfl⟩ := dead_of_release hgiven
        refine .inr ⟨Nat.le_of_not_lt hroom, h, m₂, ?_⟩
        rw [push_eq, if_neg hroom]
        simp only [Bind.bind, EStateM.bind, hgiven]
    | ok _ m₂ => exact .inl (.push_full hroom hgiven)

theorem Fits.loadLoc (slot : UInt8) (hs : m.refs.Sound) : Fits more (Work.loadLoc slot) m := by
  refine (Fits.loadLocal slot.toNat).bind fun c m₁ h₁ => ?_
  obtain rfl := loadLocal_ok h₁
  cases hc : c.handle? with
  | none => exact (Scales.push hc m₁ hs).1
  | some h =>
      have hrefs : (m₁.enlarge more).refs = m₁.refs.extend more.references := rfl
      refine Fits.bind (.inl ?_) fun _ m₂ h₂ => .push fun k hk => ?_
      · simp only [Overlooks, onRefs, hrefs, References.addRef_extend]
        cases m₁.refs.addRef h <;> rfl
      · obtain rfl : h = k := Option.some.inj (hc.symm.trans hk)
        cases hadd : m₁.refs.addRef h with
        | error f =>
            simp only [onRefs, hadd, Bind.bind, Except.bind] at h₂
            cases h₂
        | ok t =>
            simp only [onRefs, hadd, Bind.bind, Except.bind] at h₂
            cases h₂
            obtain ⟨e, he, rfl⟩ := References.addRef_eq hadd
            simp [References.uses, References.count?,
              References.find?_set (References.lt_size_of_find? he)]

theorem Fits.setLoc (slot : UInt8) : Fits more (Work.setLoc slot) m :=
  (Fits.loadLocal slot.toNat).bind fun _ m₁ _ =>
    Fits.bind (.inl ((unseen_enlarge more).pop m₁)) fun c _ _ =>
      (Fits.storeLocal slot.toNat c).bind fun old m₃ _ => .inl ((unseen_enlarge more).release old m₃)

theorem Fits.setLocNoRef (slot : UInt8) : Fits more (Work.setLocNoRef slot) m :=
  (Fits.loadLocal slot.toNat).bind fun _ m₁ _ =>
    Fits.bind (.inl ((unseen_enlarge more).pop m₁)) fun c _ _ =>
      (Fits.storeLocal slot.toNat c).bind fun _ _ _ => .inl rfl

theorem jumpIf_enlarge (env : RunEnv) (on : Bool) (target : Int32) :
    Ignores (enlarge more) (jumpIf env on target) := by
  refine (jumpTarget_enlarge env target).bind fun pc => (unseen_enlarge more).pop.bind fun c => ?_
  cases c with
  | bool b =>
      dsimp only
      split
      · exact jumpTo_enlarge pc
      · exact .pure ()
  | _ => exact (unseen_enlarge more).reads.refuse _ rfl

end Work

-- The instructions that may notice a handle which is no longer in use before they say that there is
-- no room: they give it back first.
def Instr.Crowded (m : Machine) : Instr → Prop
  | .loadLocNoRef _ => m.stackCapacity ≤ m.stack.length
  | .arith .add => m.refs.Full
  | _ => False

namespace Work

open Machine (enlarge unseen_enlarge)

variable [HostHooks] {more : Limits} {m : Machine}

theorem effect_fits (env : RunEnv) (i : Instr) (hs : m.refs.Sound) :
    FitsUnless (i.Crowded m) more (effect env i) m := by
  have hunseen := unseen_enlarge more
  cases i with
  | loadLoc slot => exact .inl (.loadLoc slot hs)
  | loadLocNoRef slot => exact .loadLocNoRef slot.toNat
  | setLoc slot => exact .inl (.setLoc slot)
  | setLocNoRef slot => exact .inl (.setLocNoRef slot)
  | arith op =>
      refine (FitsUnless.arith op hs).imp id fun ⟨⟨hadd, hfull⟩, hdead⟩ => ⟨?_, hdead⟩
      subst hadd
      exact hfull
  | order op => exact .inl (.binary (hunseen.reads.orderResult op) fun _ _ _ _ => orderResult_plain op)
  | equals negated =>
      refine .inl (.binary (hunseen.reads.equalResult negated) fun _ _ _ _ => ?_)
      exact equalResult_plain negated
  | jump target =>
      exact .inl (.inl ((jumpTarget_enlarge env target).bind (fun pc => jumpTo_enlarge pc) m))
  | jumpIf on target => exact .inl (.inl (jumpIf_enlarge env on target m))
  | loop count length => exact .inl (.inl (enterLoop_enlarge env _ length m))
  | loopNum length =>
      refine .inl (.inl (hunseen.pop.bind (fun c => ?_) m))
      cases c with
      | number x => exact enterLoop_enlarge env _ length
      | _ => exact hunseen.reads.refuse _ rfl
  | ret => exact .inl (.inl (hunseen.ret m))
  | exit => exact .inl (.inl (hunseen.unwind m))
  | _ => exact .inl (Scales.calculates.effect env rfl rfl rfl m hs).1

end Work

namespace Machine

-- What larger limits add, once the variables a script needs anyway are there.
theorem prepare_enlarge {limits limits' : Limits} (hstack : limits.stack ≤ limits'.stack)
    (hlocals : limits.locals ≤ limits'.locals) (hrefs : limits.references ≤ limits'.references)
    (world : World) (localsCount : Nat) : ∃ more, (Machine.new limits' world).prepare localsCount =
      ((Machine.new limits world).prepare localsCount).enlarge more := by
  refine ⟨⟨limits'.stack - limits.stack,
    max limits'.locals localsCount - max limits.locals localsCount,
    limits'.references - limits.references⟩, ?_⟩
  have hsize : max limits'.locals localsCount = max limits.locals localsCount +
      (max limits'.locals localsCount - max limits.locals localsCount) := by omega
  simp only [Machine.prepare, enlarge, Machine.new, Array.size_replicate,
    Array.replicate_append_replicate, ← hsize, References.extend, References.forgetHooks,
    References.ofCapacity, Nat.add_sub_of_le hstack, Nat.add_sub_of_le hrefs]

section

variable [HostHooks] {env : RunEnv} {more : Limits} {m : Machine}

-- The machine stands at an instruction for which it has no room, but which fails because of a handle.
def Smothers (env : RunEnv) (m : Machine) (h : Nat) : Prop :=
  ∃ i q m', env.script.fetch m.pc = .ok (i, q) ∧ i.Crowded m ∧
    Work.step env m = .error (.deadHandle h) m'

theorem step_fits (env : RunEnv) (more : Limits) (hs : m.refs.Sound) :
    Work.Fits more (Work.step env) m ∨ ∃ h, m.Smothers env h := by
  have hend : Work.rangeEnd env (m.enlarge more) = Work.rangeEnd env m := rfl
  have hpc : (m.enlarge more).pc = m.pc := rfl
  have hloops : (m.enlarge more).loops = m.loops := rfl
  by_cases hlt : m.pc < Work.rangeEnd env m
  · cases hat : env.script.fetch m.pc with
    | error f =>
        refine .inl (.inl ?_)
        simp only [Work.Overlooks, Work.step, bind, EStateM.bind, get, getThe, MonadStateOf.get,
          EStateM.get, hend, hpc, hlt, if_true, hat]
        rfl
    | ok next =>
        obtain ⟨i, q⟩ := next
        have hstep := Work.step_of_fetch hlt hat
        have hstep' : Work.step env (m.enlarge more) =
            (do Work.effect env i; return i.flow : Work Flow) ({ m with pc := q }.enlarge more) :=
          Work.step_of_fetch (m := m.enlarge more) hlt hat
        have hone : Work.FitsUnless (i.Crowded m) more
            (do Work.effect env i; return i.flow : Work Flow) { m with pc := q } :=
          (Work.effect_fits (m := { m with pc := q }) env i hs).bind fun _ _ _ => .inl (.inl rfl)
        rcases hone with (hsame | hcramped) | ⟨hcrowded, h, m', hdead⟩
        · exact .inl (.inl (by simpa only [Work.Overlooks, hstep, hstep'] using hsame))
        · exact .inl (.inr (by simpa only [hstep] using hcramped))
        · exact .inr ⟨h, i, q, m', hat, hcrowded, hstep.trans hdead⟩
  · refine .inl (.inl ?_)
    simp only [Work.Overlooks, Work.step, bind, EStateM.bind, get, getThe, MonadStateOf.get,
      EStateM.get, hend, hpc, hlt, if_false, hloops]
    cases m.loops with
    | nil => rfl
    | cons frame outer =>
        obtain ⟨start, stop, left⟩ := frame
        cases left <;> rfl

-- What a run of some steps does, beside what it does on a larger machine: the same, unless it ends
-- for lack of room, or where that was not the first thing to be noticed.
def Roomy (env : RunEnv) (more : Limits) (fuel : Nat) (steps : Nat → Machine → Outcome × Machine)
    (m : Machine) : Prop :=
  steps fuel (m.enlarge more) = ((steps fuel m).1, (steps fuel m).2.enlarge more) ∨
  (∃ f, (steps fuel m).1 = .failed f ∧ f.Cramped) ∨
  ∃ n m' h, n < fuel ∧ steps n m = (.outOfFuel, m') ∧ m'.Smothers env h ∧
    (steps fuel m).1 = .failed (.deadHandle h)

theorem runSteps_roomy (hs : m.refs.Sound) (fuel : Nat) :
    Roomy env more fuel (runSteps env) m := by
  induction fuel generalizing m with
  | zero => exact .inl rfl
  | succ fuel ih =>
      have hleads := Work.step_leads env m
      rcases step_fits env more hs with (hsame | ⟨f, m₁, hf, hcramped⟩) | ⟨h, hsmothers⟩
      · have hone : Work.step env (m.enlarge more) =
            Work.onMachine (enlarge more) (Work.step env m) := hsame
        cases hresult : Work.step env m with
        | error f m₁ =>
            refine .inl ?_
            simp only [runSteps, hone, hresult, Work.onMachine]
        | ok flow m₁ =>
            rw [hresult] at hleads
            cases flow with
            | stop =>
                refine .inl ?_
                simp only [runSteps, hone, hresult, Work.onMachine]
            | next =>
                have hnext : Work.step env (m.enlarge more) = .ok .next (m₁.enlarge more) := by
                  rw [hone, hresult]
                  rfl
                simp only [Roomy, runSteps_next hnext, runSteps_next hresult]
                refine (ih (hleads.sound hs)).imp id (.imp id ?_)
                rintro ⟨n, m', h, hlt, hsteps, hrest⟩
                exact ⟨n + 1, m', h, Nat.succ_lt_succ hlt, (runSteps_next hresult).trans hsteps, hrest⟩
      · exact .inr (.inl ⟨f, by simp only [runSteps, hf], hcramped⟩)
      · refine .inr (.inr ⟨0, m, h, Nat.succ_pos fuel, rfl, hsmothers, ?_⟩)
        obtain ⟨i, q, m₁, -, -, hdead⟩ := hsmothers
        simp only [runSteps, hdead]

theorem bindInput_scales (r : Registry) (name : String) (slot : InputSlot) (v : Value) :
    Work.Scales more (bindInput r name slot v) := by
  unfold bindInput
  split
  · exact (Work.Scales.loadLocal _).bind fun _ => (Work.Scales.ofValue v).bind fun c =>
      (Work.Scales.storeLocal _ c).bind fun _ => .pure ()
  · exact .throw _

theorem bindInputs_scales (more : Limits) (r : Registry) (inputs : List (String × Value))
    (table : List (String × InputSlot)) : Work.Scales more (bindInputs r inputs table) := by
  induction table with
  | nil => exact .pure ()
  | cons entry rest ih => exact (bindInput_scales r _ _ _).bind fun _ => ih

theorem execute_roomy (env : RunEnv) (more : Limits) (hs : m.refs.Sound)
    (inputs : List (String × Value)) (fuel : Nat) :
    Roomy env more fuel (fun n => execute env n inputs) m := by
  obtain ⟨hbind, hbound⟩ :=
    bindInputs_scales more env.registry inputs env.script.inputs m hs
  rcases hbind with hsame | ⟨f, m₁, hf, hcramped⟩
  · have hone : bindInputs env.registry inputs env.script.inputs (m.enlarge more) = Work.onMachine
        (enlarge more) (bindInputs env.registry inputs env.script.inputs m) := hsame
    simp only [Roomy, execute, hone]
    cases hresult : bindInputs env.registry inputs env.script.inputs m with
    | error f m₁ => exact .inl rfl
    | ok u m₁ => exact runSteps_roomy (hbound u m₁ hresult) fuel
  · exact .inr (.inl ⟨f, by simp only [execute, hf], hcramped⟩)

-- Additional variables are empty, and more room is nothing to give back.
theorem reset_enlarge (m : Machine) : (m.enlarge more).reset = m.reset.enlarge more := by
  let cleared : Machine := { m with stack := [], locals := m.locals.map fun _ => .null }
  have hcleared : { m.enlarge more with
      stack := [], locals := (m.enlarge more).locals.map fun _ => .null } =
      cleared.enlarge more := by
    simp [cleared, enlarge]
  have hheld : (m.enlarge more).stack.reverse ++ (m.enlarge more).locals.toList =
      (m.stack.reverse ++ m.locals.toList) ++ List.replicate more.locals .null := by
    simp [enlarge]
  simp only [reset, hheld, hcleared, List.foldl_append, foldl_letGo_null,
    (unseen_enlarge more).foldl_letGo]
  rfl

theorem reportOf_enlarge (outcome : Outcome) (m : Machine) :
    reportOf outcome (m.enlarge more) = reportOf outcome m := by
  simp only [reportOf, reset_enlarge]
  rfl

-- The run came to an instruction for which it had no room, and failed there because of a handle.
def Smothered (env : RunEnv) (inputs : List (String × Value)) (fuel : Nat) (m : Machine) : Prop :=
  ∃ n m' h, n < fuel ∧ m.firstSteps env inputs n = (.outOfFuel, m') ∧ m'.Smothers env h ∧
    (m.report env fuel inputs).outcome = .failed (.deadHandle h)

-- A larger machine makes no difference to a run that does not end for lack of room, whatever its code
-- is: it ends the same way, prints, warns and tells its host the same, down to the numbers of
-- handles, and returns the same value. Only where an instruction without room had to give back a
-- handle that was no longer in use, and failed because of that, a larger machine may go on.
theorem report_roomier (env : RunEnv) (limits limits' : Limits)
    (hstack : limits.stack ≤ limits'.stack) (hlocals : limits.locals ≤ limits'.locals)
    (hrefs : limits.references ≤ limits'.references) (world : World) (fuel : Nat)
    (inputs : List (String × Value))
    (hroom : ∀ f, ((Machine.new limits world).report env fuel inputs).outcome = .failed f →
      f.code ∉ [.stackOverflow, .referenceTableFull, .invalidLocal]) :
    (Machine.new limits' world).report env fuel inputs =
        (Machine.new limits world).report env fuel inputs ∨
      (Machine.new limits world).Smothered env inputs fuel := by
  obtain ⟨more, hprepare⟩ := prepare_enlarge hstack hlocals hrefs world env.script.localsCount
  have hs : ((Machine.new limits world).prepare env.script.localsCount).refs.Sound :=
    References.sound_ofCapacity limits.references
  simp only [Smothered, report_eq, firstSteps, hprepare] at hroom ⊢
  have hroomy := execute_roomy env more hs inputs fuel
  simp only [Roomy] at hroomy
  rcases hroomy with hsame | ⟨f, hf, hcramped⟩ | hsmothered
  · refine .inl ?_
    rw [hsame, reportOf_enlarge]
  · exact absurd hcramped (hroom f hf)
  · exact .inr hsmothered

end

-- Reads its input without taking a reference and gives that back; then reads it again, on top of
-- something else.
def peeking : CompiledScript where
  name := "peeking"
  code := #[9, 0, 7, 1, 9, 0, 11, 0, 7, 55]
  strings := #[]
  localsCount := 1
  maxStack := 2
  inputs := [("t", ⟨.dynamic, 0⟩)]

-- Where two values fit on the stack, more room makes no difference.
theorem report_roomier_peeking :
    (Machine.new {} {}).report ⟨.empty, peeking⟩ 9 [("t", .text "x")] =
      (Machine.new { stack := 2 } {}).report ⟨.empty, peeking⟩ 9 [("t", .text "x")] := by
  have hcode : ((Machine.new { stack := 2 } {}).report ⟨.empty, peeking⟩ 9
      [("t", .text "x")]).outcome.code? = none := by
    decide +kernel
  have hnever : ∀ f, ((Machine.new { stack := 2 } {}).report ⟨.empty, peeking⟩ 9
      [("t", .text "x")]).outcome ≠ .failed f := by
    intro f hf
    rw [hf] at hcode
    cases hcode
  rcases report_roomier ⟨.empty, peeking⟩ { stack := 2 } {} (by decide) (by decide) (by decide) {} 9
    [("t", .text "x")] fun f hf => absurd hf (hnever f) with
    hsame | ⟨_, _, _, _, _, _, hf⟩
  · exact hsame
  · exact absurd hf (hnever _)

-- Where only one fits, the second reading finds no room, and fails because the handle it has to give
-- back is no longer in use.
theorem report_cramped_peeking :
    ((Machine.new { stack := 1 } {}).report ⟨.empty, peeking⟩ 9
      [("t", .text "x")]).outcome.code? = some .invalidReference ∧
    ((Machine.new { stack := 2 } {}).report ⟨.empty, peeking⟩ 9
      [("t", .text "x")]).outcome.code? = none := by
  decide +kernel

end Machine

end HostScript
