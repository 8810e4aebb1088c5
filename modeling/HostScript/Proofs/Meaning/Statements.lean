import HostScript.Proofs.Meaning.Execution

namespace HostScript

-- A machine at `p` between two statements, with the variables in their places.
structure Ready (L : Layout) (p : Nat) (s : Store) (v : View) : Prop where
  pc : v.pc = p
  stack : v.stack = []
  outside : v.outside = s.outside
  holds : Holds L s.vars v.locals
  room : L.slots.length ≤ v.locals.size
  returned : v.returned = .null
  warnings : v.warnings = #[]

-- The hidden variables up to the given number have the same values.
def SameHidden (L : Layout) (k : Nat) (locals locals' : Array Value) : Prop :=
  ∀ what j n, what ∈ hiddenWords → j ≤ k → L.Slot (hiddenName what j) n →
    locals'[n.toNat]? = locals[n.toNat]?

-- What statements leave of a machine: it stands at `p` between two statements again, in the same
-- loops, and hidden variables of the code around them are as before.
structure Rests (L : Layout) (k : Nat) (v₀ : View) (p : Nat) (s : Store) (v : View) : Prop where
  ready : Ready L p s v
  loops : v.loops = v₀.loops
  size : v.locals.size = v₀.locals.size
  hidden : SameHidden L k v₀.locals v.locals

namespace Rests

variable {L : Layout} {k k' p q : Nat} {s s' : Store} {v₀ v₁ v₂ : View}

theorem refl (h : Ready L p s v₀) : Rests L k v₀ p s v₀ :=
  ⟨h, rfl, rfl, fun _ _ _ _ _ _ => rfl⟩

theorem trans (h₁ : Rests L k v₀ p s v₁) (h₂ : Rests L k' v₁ q s' v₂) (hk : k ≤ k') :
    Rests L k v₀ q s' v₂ :=
  ⟨h₂.ready, h₂.loops.trans h₁.loops, h₂.size.trans h₁.size, fun what j n hw hj hn =>
    (h₂.hidden what j n hw (Nat.le_trans hj hk) hn).trans (h₁.hidden what j n hw hj hn)⟩

theorem rangeEnd (h : Rests L k v₀ p s v₁) (env : RunEnv) :
    Plain.rangeEnd env v₁ = Plain.rangeEnd env v₀ := by
  simp only [Plain.rangeEnd, h.loops]

end Rests

namespace Ready

variable {L : Layout} {p q : Nat} {s : Store} {v : View}

-- Nothing but the place and the outside has changed.
theorem after (h : Ready L p s v) (o : Outside) : Ready L q ⟨s.vars, o⟩ (v.after q [] o) :=
  ⟨rfl, rfl, rfl, h.holds, h.room, h.returned, h.warnings⟩

theorem rests {k : Nat} (h : Ready L p s v) (o : Outside) :
    Rests L k v q ⟨s.vars, o⟩ (v.after q [] o) :=
  ⟨h.after o, rfl, rfl, fun _ _ _ _ _ _ => rfl⟩

end Ready

-- Different variables have different places.
theorem Layout.slot_inj {L : Layout} (hn : L.slots.Nodup) {name name' : String} {n n' : UInt8}
    (h : L.Slot name n) (h' : L.Slot name' n') : n.toNat = n'.toNat ↔ name = name' := by
  obtain ⟨hlt, -⟩ := List.getElem?_eq_some_iff.mp h
  rw [← List.getElem?_inj hlt hn, h, h', Option.some.injEq]

theorem Layout.slot_lt {L : Layout} {name : String} {n : UInt8} (h : L.Slot name n) :
    n.toNat < L.slots.length := by
  obtain ⟨hlt, -⟩ := List.getElem?_eq_some_iff.mp h
  exact hlt

namespace Holds

variable {L : Layout} {vars : String → Value} {locals : Array Value} {name : String} {n : UInt8}
  {x : Value}

theorem assign (hn : L.slots.Nodup) (h : Holds L vars locals) (hplain : PlainName name)
    (hslot : L.Slot name n) (hroom : L.slots.length ≤ locals.size)
    (hspared : L.symbols.mayHoldRef name = false → x.isRef = false) :
    Holds L (fun y => if y = name then x else vars y) (locals.setIfInBounds n.toNat x) := by
  have hlt := Nat.lt_of_lt_of_le (L.slot_lt hslot) hroom
  have hother : ∀ other n', other ≠ name → L.Slot other n' →
      (locals.setIfInBounds n.toNat x)[n'.toNat]? = locals[n'.toNat]? := fun other n' hne hslot' =>
    Array.getElem?_setIfInBounds_ne fun he => hne ((Layout.slot_inj hn hslot hslot').mp he).symm
  refine ⟨fun other n' hplain hslot' => ?_, fun other hflag => ?_,
    fun what k n' y hw hiter hslot' hy => ?_⟩
  · by_cases heq : other = name
    · rw [← (Layout.slot_inj hn hslot' hslot).mpr heq, if_pos heq] at *
      exact Array.getElem?_setIfInBounds_self_of_lt hlt
    · rw [if_neg heq, hother other n' heq hslot']
      exact h.found other n' hplain hslot'
  · by_cases heq : other = name
    · rw [if_pos heq]
      exact hspared (heq ▸ hflag)
    · rw [if_neg heq]
      exact h.spared other hflag
  · have hne : hiddenName what k ≠ name := fun he => not_plainName_hiddenName what k (he ▸ hplain)
    rw [hother _ n' hne hslot'] at hy
    exact h.hidden what k n' y hw hiter hslot' hy

-- Hidden variables are none of the script's.
theorem hide (hn : L.slots.Nodup) (h : Holds L vars locals) {what : String} {k : Nat}
    (hw : what ∈ hiddenWords) (hslot : L.Slot (hiddenName what k) n)
    (hx : what ≠ "iter" → x.isRef = false) :
    Holds L vars (locals.setIfInBounds n.toNat x) := by
  refine ⟨fun other n' hplain hslot' => ?_, h.spared, fun what' k' n' y hw' hiter hslot' hy => ?_⟩
  · have hne : n.toNat ≠ n'.toNat := fun he => by
      have heq := (Layout.slot_inj hn hslot hslot').mp he
      exact not_plainName_hiddenName what k (heq ▸ hplain)
    rw [Array.getElem?_setIfInBounds_ne hne]
    exact h.found other n' hplain hslot'
  · by_cases heq : n.toNat = n'.toNat
    · have hsame := hiddenName_inj hw hw' ((Layout.slot_inj hn hslot hslot').mp heq)
      rw [← heq, Array.getElem?_setIfInBounds_self] at hy
      split at hy
      · cases hy
        exact hx (hsame.1 ▸ hiter)
      · cases hy
    · rw [Array.getElem?_setIfInBounds_ne heq] at hy
      exact h.hidden what' k' n' y hw' hiter hslot' hy

end Holds

theorem SameHidden.assign {L : Layout} (hn : L.slots.Nodup) {k : Nat} {locals : Array Value}
    {name : String} {n : UInt8} (hplain : PlainName name) (hslot : L.Slot name n) (x : Value) :
    SameHidden L k locals (locals.setIfInBounds n.toNat x) := by
  intro what j n' _ _ hslot'
  refine Array.getElem?_setIfInBounds_ne fun he => ?_
  have heq := (Layout.slot_inj hn hslot hslot').mp he
  exact not_plainName_hiddenName what j (heq ▸ hplain)

-- A hidden variable of a higher number gets a value.
theorem SameHidden.hide {L : Layout} (hn : L.slots.Nodup) {k m : Nat} {locals : Array Value}
    {what : String} {n : UInt8} (hw : what ∈ hiddenWords) (hslot : L.Slot (hiddenName what m) n)
    (hm : k < m) (x : Value) : SameHidden L k locals (locals.setIfInBounds n.toNat x) := by
  intro what' j n' hw' hj hslot'
  refine Array.getElem?_setIfInBounds_ne fun he => ?_
  have heq := (Layout.slot_inj hn hslot hslot').mp he
  have := (hiddenName_inj hw hw' heq).2
  omega

section

variable {L : Layout} {env : RunEnv} {D : Dialect} (hL : L.Suits env D)

include hL

-- A value is taken off the stack into a variable.
theorem path_of_store {flag : Bool} {p q : Nat} {n : UInt8} {v : View} {x old : Value}
    {stack : List Value} (hat : L.At p (Layout.storeInstr flag n) q) (hpc : v.pc = p)
    (hq : q ≤ Plain.rangeEnd env v) (hstack : v.stack = x :: stack)
    (hold : v.locals[n.toNat]? = some old)
    (hspared : flag = false → old.isRef = false ∧ x.isRef = false) :
    Path env 1 v { v with pc := q, stack := stack, locals := v.locals.setIfInBounds n.toNat x } := by
  have heffect : Plain.effect env (Layout.storeInstr flag n) = Plain.store n := by
    cases flag <;> rfl
  refine path_of_at hL hat hpc (Nat.lt_of_lt_of_le hat.lt hq) ?_ ?_ ?_
  · cases flag with
    | true => trivial
    | false =>
        obtain ⟨h₁, h₂⟩ := hspared rfl
        refine ⟨fun y hy => ?_, fun y hy => ?_⟩
        · rw [hold] at hy
          cases hy
          exact h₁
        · rw [hstack] at hy
          cases hy
          exact h₂
  · cases flag <;> rfl
  · rw [heffect]
    simp only [Plain.store, bind, EStateM.bind, Plain.loadLocal, hold, Plain.pop, hstack]
    rfl

-- A text or an object on top of the stack is not what the instruction expects.
theorem strays_of_store {p q : Nat} {n : UInt8} {v : View} {x : Value} {stack : List Value}
    (hat : L.At p (.setLocNoRef n) q) (hpc : v.pc = p) (hq : q ≤ Plain.rangeEnd env v)
    (hstack : v.stack = x :: stack) (hx : x.isRef = true) : Strays env v := by
  refine ⟨0, v, .refl v, fun hspares => ?_⟩
  subst hpc
  obtain ⟨-, hhead⟩ := hspares (Nat.lt_of_lt_of_le hat.lt hq) _ q (fetch_of_at hL hat)
  rw [hhead x (by rw [hstack]; rfl)] at hx
  cases hx

-- A variable of the script gets a new value.
theorem assign_executes {k p q : Nat} {name : String} {x : Value} {s : Store} {v v₁ : View}
    {long : Nat} {J : Bool → Store → View → Prop} (h : L.Store name p q)
    (hname : PlainName name) (hready : Ready L p s v) (hq : q ≤ Plain.rangeEnd env v)
    (hv₁ : v₁ = { v with stack := [x] }) :
    Executes env D.strict long 0 v₁ (D.assign name x s)
      (fun _ s' v' => Rests L k v q s' v') J := by
  obtain ⟨n, hslot, hat⟩ := h
  unfold Dialect.assign
  split
  · rename_i hflag
    simp only [hL.symbols, Bool.or_eq_true, Bool.not_eq_true'] at hflag
    have hspared : L.symbols.mayHoldRef name = false → x.isRef = false := fun hfalse => by
      rcases hflag with h | h
      · rw [hfalse] at h
        cases h
      · exact h
    subst hv₁
    have hpath := path_of_store hL (v := { v with stack := [x] }) hat hready.pc hq rfl
      (hready.holds.found name n hname hslot)
      fun hfalse => ⟨hready.holds.spared name hfalse, hspared hfalse⟩
    refine ⟨1, _, Nat.zero_le _, hpath, ?_⟩
    exact
      { ready :=
          { hready with
            pc := rfl
            stack := rfl
            outside := hready.outside
            holds := hready.holds.assign hL.nodup hname hslot hready.room hspared
            room := by simpa using hready.room }
        loops := rfl
        size := by simp
        hidden := SameHidden.assign hL.nodup hname hslot x }
  · rename_i hflag
    simp only [hL.symbols, Bool.or_eq_true, Bool.not_eq_true', not_or, Bool.not_eq_true,
      Bool.not_eq_false] at hflag
    rw [hflag.1] at hat
    subst hv₁
    exact strays_of_store hL (v := { v with stack := [x] }) hat hready.pc hq rfl hflag.2

-- A hidden variable of a higher number is given the value on top.
theorem Rests.hide (flag : Bool) {k m p p' q : Nat} {what : String} {n : UInt8} {x : Value}
    {s : Store} {v₀ v : View} {o : Outside} (hrests : Rests L k v₀ p' s v)
    (hat : L.At p (Layout.storeInstr flag n) q) (hw : what ∈ hiddenWords)
    (hslot : L.Slot (hiddenName what m) n) (hm : k < m) (hq : q ≤ Plain.rangeEnd env v₀)
    (hflag : flag = true ↔ what = "iter") (hx : what ≠ "iter" → x.isRef = false) :
    ∃ v', Path env 1 (v.after p [x] o) v' ∧ Rests L k v₀ q ⟨s.vars, o⟩ v' ∧
      v'.locals = v.locals.setIfInBounds n.toNat x ∧ v'.locals[n.toNat]? = some x := by
  have hready := hrests.ready
  have hlt := Nat.lt_of_lt_of_le (L.slot_lt hslot) hready.room
  have hold : v.locals[n.toNat]? = some v.locals[n.toNat] := Array.getElem?_eq_getElem hlt
  have hplain : flag = false → what ≠ "iter" := fun hfalse hiter => by
    rw [hflag.mpr hiter] at hfalse
    cases hfalse
  rw [← hrests.rangeEnd env] at hq
  have hpath := path_of_store hL (v := v.after p [x] o) hat rfl hq rfl hold fun hfalse =>
    ⟨hready.holds.hidden what m n _ hw (hplain hfalse) hslot hold, hx (hplain hfalse)⟩
  refine ⟨_, hpath, ?_, rfl, Array.getElem?_setIfInBounds_self_of_lt hlt⟩
  exact
    { ready :=
        { pc := rfl
          stack := rfl
          outside := rfl
          holds := hready.holds.hide hL.nodup hw hslot hx
          room := by simpa using hready.room
          returned := hready.returned
          warnings := hready.warnings }
      loops := hrests.loops
      size := by simpa using hrests.size
      hidden := fun what' j n' hw' hj hn' =>
        (SameHidden.hide hL.nodup hw hslot hm x what' j n' hw' hj hn').trans
          (hrests.hidden what' j n' hw' hj hn') }

-- An expression leaves its value on the stack.
theorem value_executes {p q : Nat} {e : Expr} {s : Store} {v : View} {stack : List Value}
    {long : Nat} {J : Bool → Store → View → Prop} (inLoop : Bool) (hplain : e.Plain)
    (hreg : e.Every D.Regular) (h : ExprCode L e p q) (hpc : v.pc = p) (hstack : v.stack = stack)
    (hout : v.outside = s.outside) (hh : Holds L s.vars v.locals)
    (hq : q ≤ Plain.rangeEnd env v) :
    Executes env D.strict long 0 v (Exec.value (fun vars => D.eval inLoop vars e) s)
      (fun x s' v' =>
        s'.vars = s.vars ∧ v' = v.after q (x :: stack) s'.outside ∧ (D.strict = true → x.conforms e.ty)) J := by
  have hfollows := eval_follows hL inLoop e hplain hreg h hpc hq hh
  rw [Dialect.Works, hout, hstack] at hfollows
  exact Executes.value (f := fun vars => D.eval inLoop vars e) hfollows

-- Where the stack is empty, that takes at least one step.
theorem expr_executes {p q : Nat} {e : Expr} {s : Store} {v : View} {long : Nat}
    {J : Bool → Store → View → Prop} (inLoop : Bool) (hplain : e.Plain)
    (hreg : e.Every D.Regular) (h : ExprCode L e p q) (hready : Ready L p s v)
    (hq : q ≤ Plain.rangeEnd env v) :
    Executes env D.strict long 1 v (Exec.value (fun vars => D.eval inLoop vars e) s)
      (fun x s' v' => s'.vars = s.vars ∧ v' = v.after q [x] s'.outside ∧ (D.strict = true → x.conforms e.ty)) J := by
  refine .moves (value_executes hL inLoop hplain hreg h hready.pc hready.stack hready.outside
    hready.holds hq) ?_
  rintro x s' ⟨-, hv, -⟩
  have hstack := hready.stack
  rw [hv] at hstack
  cases hstack

-- A test leads on or to the place behind what depends on it.
theorem condition_executes (k : Nat) {p q q₁ q₂ : Nat} {test : Expr} {s : Store} {v : View}
    {long : Nat} {J : Bool → Store → View → Prop} (inLoop : Bool) (hplain : test.Plain)
    (hreg : test.Every D.Regular) (h : ExprCode L test p q₁) (hjump : L.JumpIf false q₁ q₂ q)
    (hready : Ready L p s v) (hq : q₂ ≤ Plain.rangeEnd env v) :
    Executes env D.strict long 1 v (D.condition inLoop test s)
      (fun b s' v' => Rests L k v (if b then q₂ else q) s' v') J := by
  have hq₁ := Nat.lt_of_lt_of_le hjump.lt hq
  refine (expr_executes hL inLoop hplain hreg h hready (Nat.le_of_lt hq₁)).bind ?_
  rintro x ⟨_, o⟩ _ ⟨rfl, rfl, -⟩
  have hgoes := follows_jumpIf hL (v := v.after q₁ [x] o) hjump rfl hq₁ rfl
  refine (Executes.perform hgoes).imp (Nat.le_refl _) (Nat.le_refl _) ?_ fun _ _ _ hj => hj
  rintro b ⟨_, o'⟩ _ ⟨rfl, rfl⟩
  refine ⟨0, _, .refl _, ?_⟩
  cases b <;> exact hready.rests o'

theorem change_executes {p q : Nat} {how : Change} {s : Store} {v : View} {x : Value} {long : Nat}
    {J : Bool → Store → View → Prop} (inLoop : Bool) (hplain : how.Plain)
    (hreg : how.Every D.Regular) (h : ChangeCode L how p q) (hpc : v.pc = p)
    (hstack : v.stack = [x]) (hout : v.outside = s.outside) (hh : Holds L s.vars v.locals)
    (hq : q ≤ Plain.rangeEnd env v) :
    Executes env D.strict long 0 v (D.change inLoop how s)
      (fun y s' v' => s'.vars = s.vars ∧ v' = v.after q [y, x] s'.outside ∧ (D.strict = true → y.conforms how.ty))
      J := by
  have hone : L.At p (.pushLong 1) q → Path env 1 v
      (v.after q [.number (Number.ofLong 1), x] s.outside) := fun hat => by
    rw [← hstack, ← hout]
    exact path_of_at hL hat hpc (Nat.lt_of_lt_of_le hat.lt hq) trivial rfl rfl
  cases h with
  | compound hcode =>
      exact value_executes hL inLoop hplain hreg hcode hpc hstack hout hh hq
  | increment hat => exact ⟨1, _, Nat.zero_le _, hone hat, rfl, rfl, fun _ => rfl⟩
  | decrement hat => exact ⟨1, _, Nat.zero_le _, hone hat, rfl, rfl, fun _ => rfl⟩

theorem var_executes (k : Nat) {p q : Nat} {stmt : VarStmt} {s : Store} {v : View} {long : Nat}
    {J : Bool → Store → View → Prop} (inLoop : Bool) (hplain : stmt.Plain)
    (hreg : stmt.Every D.Regular) (h : VarCode L stmt p q) (hready : Ready L p s v)
    (hq : q ≤ Plain.rangeEnd env v) :
    Executes env D.strict long 0 v (D.execVar inLoop stmt s) (fun _ s' v' => Rests L k v q s' v') J := by
  have hput : ∀ name p' x o, PlainName name → L.Store name p' q →
      Executes env D.strict long 0 (v.after p' [x] o) (D.assign name x ⟨s.vars, o⟩)
        (fun _ s' v' => Rests L k v q s' v') J := fun name p' x o hname hstore =>
    (assign_executes hL hstore hname (hready.after o) hq rfl).imp (Nat.le_refl _)
      (Nat.le_refl _)
      (fun _ _ v' hrests => ⟨0, v', .refl v', (hready.rests o).trans hrests (Nat.le_refl k)⟩)
      fun _ _ _ hj => hj
  cases h with
  | declare hcode hstore =>
      have hq₁ := Nat.le_trans (Nat.le_of_lt hstore.lt) hq
      refine ((expr_executes hL inLoop hplain.2 hreg hcode hready hq₁).weaken (Nat.zero_le _)
        (Nat.le_refl _)).bind ?_
      rintro x ⟨_, o⟩ _ ⟨rfl, rfl, -⟩
      exact hput _ _ x o hplain.1 hstore
  | @update name _ q₁ how q₂ q₃ _ offset current result hload hchange hat hstore =>
      have hq₃ := Nat.le_trans (Nat.le_of_lt hstore.lt) hq
      have hq₂ := Nat.le_trans (Nat.le_of_lt hat.lt) hq₃
      have hq₁ := Nat.le_trans (Nat.le_of_lt hchange.lt) hq₂
      have hpath := load_follows hL hload hplain.1 hready.holds hready.pc hq₁
      rw [hready.stack, hready.outside] at hpath
      have htyped : Follows env D.strict v (D.typed inLoop current (s.vars name) s.outside)
          fun x o v' => v' = v.after q₁ [x] o ∧ (D.strict = true → x.conforms current) :=
        Follows.prepend hpath (.typed rfl)
      refine (Executes.value htyped).bind ?_
      rintro a ⟨_, o⟩ _ ⟨rfl, rfl, ha⟩
      refine (change_executes hL inLoop (v := v.after q₁ [a] o) (s := ⟨s.vars, o⟩) hplain.2 hreg
        hchange rfl rfl rfl hready.holds hq₂).bind ?_
      rintro b ⟨_, o'⟩ _ ⟨rfl, rfl, hb⟩
      have hnum : D.strict = true → (current.isNumeric && how.ty.isNumeric) = true →
          (∃ x, a = .number x) ∧ ∃ y, b = .number y := fun hstrict hboth => by
        simp only [Bool.and_eq_true] at hboth
        exact ⟨Value.number_of_conforms (ha hstrict) hboth.1,
          Value.number_of_conforms (hb hstrict) hboth.2⟩
      have happly := follows_push hL (v := v.after q₂ [b, a] o') hat rfl
        (Nat.lt_of_lt_of_le hat.lt hq₃) (spares_binary _ _) (flow_binary _ _)
        (effect_binary ⟨by simp, by simp⟩ hnum rfl)
      refine (Executes.perform happly).bind ?_
      rintro x ⟨_, o₂⟩ _ ⟨rfl, rfl⟩
      refine (Executes.value (Follows.typed (S := fun y o v' => y = x ∧ v' = v.after q₃ [x] o)
        ⟨rfl, rfl⟩)).bind ?_
      rintro _ ⟨_, o₃⟩ _ ⟨rfl, ⟨rfl, rfl⟩, -⟩
      exact hput _ _ _ o₃ hplain.1 hstore

-- A property is given the value on top, if it can be written.
theorem set_follows {i : Instr} {p q : Nat} {v : View} {d : PropertyDef} {stack : List Value}
    {write : Setter → Calc Unit} (hat : L.At p i q) (hpc : v.pc = p)
    (hp : p < Plain.rangeEnd env v) (hs : i.Spares v) (hflow : i.flow = .next)
    (hnone : d.setter = none → Plain.effect env i { v with pc := q } =
      .error (.readOnly d.name) { v with pc := q })
    (hsome : ∀ set, d.setter = some set → Plain.effect env i { v with pc := q } =
      Plain.ofCalc (write set) { v with pc := q, stack := stack }) :
    Follows env D.strict v (Eval.ofCalc (Calc.setterOf d >>= write) v.outside) fun _ o v' =>
      v' = v.after q stack o := by
  cases hset : d.setter with
  | none =>
      have hfails := fails_of_at hL hat hpc hp hs (hnone hset)
      simp only [Calc.setterOf, hset]
      exact hfails
  | some set =>
      have hwrite := follows_quiet hL hat hpc hp hs hflow (hsome set hset)
      simp only [Calc.setterOf, hset]
      exact hwrite

theorem writeStatic_follows {p q id : Nat} {v : View} {x : Value} {d : PropertyDef}
    {stack : List Value} (hat : L.At p (.setStaticProperty (Int32.ofNat id)) q) (hpc : v.pc = p)
    (hq : q ≤ Plain.rangeEnd env v) (hd : D.registry.properties[id]? = some d)
    (hid : id < 4294967296) (hstack : v.stack = x :: stack) :
    Follows env D.strict v (Eval.ofCalc (Calc.setterOf d >>= fun set => Calc.writeStatic set x) v.outside)
      fun _ o v' => v' = v.after q stack o := by
  rw [hL.registry, ← hL.machine] at hd
  refine set_follows hL hat hpc (Nat.lt_of_lt_of_le hat.lt hq) trivial rfl (fun hset => ?_)
    fun set hset => ?_
  · simp only [Plain.effect, Plain.setStaticProperty, propertyAt_eq hd hid, ofCalc_pure, pure_bind,
      Calc.setterOf, hset]
    rfl
  · simp only [Plain.effect, Plain.setStaticProperty, propertyAt_eq hd hid, ofCalc_pure, pure_bind,
      Calc.setterOf, hset]
    simp only [bind, EStateM.bind, Plain.pop, hstack]

theorem writeProperty_follows {p q id : Nat} {v : View} {target x : Value} {d : PropertyDef}
    {stack : List Value} (hat : L.At p (.setProperty (Int32.ofNat id)) q) (hpc : v.pc = p)
    (hq : q ≤ Plain.rangeEnd env v) (hd : D.registry.properties[id]? = some d)
    (hid : id < 4294967296) (hstack : v.stack = x :: target :: stack) :
    Follows env D.strict v (Eval.ofCalc (Calc.setterOf d >>= fun set => Calc.writeProperty d set target x)
        v.outside) fun _ o v' => v' = v.after q stack o := by
  rw [hL.registry, ← hL.machine] at hd
  refine set_follows hL hat hpc (Nat.lt_of_lt_of_le hat.lt hq) trivial rfl (fun hset => ?_)
    fun set hset => ?_
  · simp only [Plain.effect, Plain.setProperty, propertyAt_eq hd hid, ofCalc_pure, pure_bind,
      Calc.setterOf, hset]
    rfl
  · simp only [Plain.effect, Plain.setProperty, propertyAt_eq hd hid, ofCalc_pure, pure_bind,
      Calc.setterOf, hset]
    simp only [bind, EStateM.bind, Plain.pop, hstack]

theorem writeNamed_follows {p q : Nat} {index : UInt16} {name : String} {v : View}
    {target x : Value} {stack : List Value} (htext : L.Text index name)
    (hat : L.At p (.setDynamicProperty index) q) (hpc : v.pc = p)
    (hq : q ≤ Plain.rangeEnd env v) (hstack : v.stack = x :: target :: stack) :
    Follows env D.strict v (Eval.ofCalc (Calc.writeNamed D.registry name target x) v.outside) fun _ o v' =>
      v' = v.after q stack o := by
  refine follows_quiet hL hat hpc (Nat.lt_of_lt_of_le hat.lt hq) trivial rfl ?_
  rw [Layout.Text, ← hL.script] at htext
  rw [hL.registry, ← hL.machine]
  simp only [Plain.effect, Plain.setDynamicProperty, Plain.poolString, htext, pure_bind]
  simp only [bind, EStateM.bind, Plain.pop, hstack]

omit hL in
-- What an instruction leaves that takes everything off the stack.
theorem quiet_executes {k p q : Nat} {c : Calc Unit} {s s₁ : Store} {v v₁ : View} {long : Nat}
    {J : Bool → Store → View → Prop} (hready : Ready L p s v) (hvars : s₁.vars = s.vars)
    (h : Follows env D.strict v₁ (Eval.ofCalc c s₁.outside) fun _ o v' => v' = v.after q [] o) :
    Executes env D.strict long 0 v₁ (Exec.perform c s₁) (fun _ s' v' => Rests L k v q s' v') J := by
  refine (Executes.perform h).imp (Nat.le_refl _) (Nat.le_refl _) ?_ fun _ _ _ hj => hj
  rintro _ ⟨_, o⟩ _ ⟨rfl, rfl⟩
  refine ⟨0, _, .refl _, ?_⟩
  rw [hvars]
  exact hready.rests o

theorem assignStatic_executes {k p q q₁ q₂ id : Nat} {value : Expr} {m : Mark} {name : String}
    {args : List Expr} {s : Store} {v : View} {long : Nat} {J : Bool → Store → View → Prop}
    (inLoop : Bool) (hplain : value.Plain) (hreg : value.Every D.Regular)
    (hvalue : ExprCode L value p q₁)
    (hcheck : CheckCode L ((L.registry.properties[id]?.map (·.ty)).getD .dynamic) value.ty q₁ q₂)
    (hat : L.At q₂ (.setStaticProperty (Int32.ofNat id)) q) (hready : Ready L p s v)
    (hq : q ≤ Plain.rangeEnd env v) :
    Executes env D.strict long 0 v (D.execAssign inLoop (.static m name args (.property id)) value s)
      (fun _ s' v' => Rests L k v q s' v') J := by
  have hq₂ := Nat.le_trans (Nat.le_of_lt hat.lt) hq
  refine (value_executes hL inLoop hplain hreg hvalue hready.pc hready.stack hready.outside
    hready.holds (Nat.le_trans hcheck.le hq₂)).bind ?_
  rintro x ⟨_, o⟩ _ ⟨rfl, rfl, -⟩
  refine .member fun d hd hid _ => ?_
  rw [← hL.registry, hd] at hcheck
  refine (Executes.perform (s := ⟨s.vars, o⟩)
    (check_follows hL (v := v.after q₁ [x] o) hcheck rfl hq₂ rfl)).bind ?_
  rintro _ ⟨_, o'⟩ _ ⟨rfl, rfl⟩
  rw [Exec.perform_bind]
  exact quiet_executes hready rfl
    (writeStatic_follows hL (v := v.after q₂ [x] o') hat rfl hq hd hid rfl)

theorem assignProperty_executes {k p q q₀ q₁ q₂ id : Nat} {owner value : Expr} {m : Mark}
    {name : String} {args : List Expr} {s : Store} {v : View} {long : Nat}
    {J : Bool → Store → View → Prop} (inLoop : Bool) (hplain : owner.Plain ∧ value.Plain)
    (hreg : owner.Every D.Regular ∧ value.Every D.Regular) (howner : ExprCode L owner p q₀)
    (hvalue : ExprCode L value q₀ q₁)
    (hcheck : CheckCode L ((L.registry.properties[id]?.map (·.ty)).getD .dynamic) value.ty q₁ q₂)
    (hat : L.At q₂ (.setProperty (Int32.ofNat id)) q) (hready : Ready L p s v)
    (hq : q ≤ Plain.rangeEnd env v) :
    Executes env D.strict long 0 v (D.execAssign inLoop (.member m owner name args (.property id)) value s)
      (fun _ s' v' => Rests L k v q s' v') J := by
  have hq₂ := Nat.le_trans (Nat.le_of_lt hat.lt) hq
  have hq₁ := Nat.le_trans hcheck.le hq₂
  refine (value_executes hL inLoop hplain.1 hreg.1 howner hready.pc hready.stack hready.outside
    hready.holds (Nat.le_trans (Nat.le_of_lt hvalue.lt) hq₁)).bind ?_
  rintro object ⟨_, o₀⟩ _ ⟨rfl, rfl, -⟩
  refine (value_executes hL inLoop (v := v.after q₀ [object] o₀) (s := ⟨s.vars, o₀⟩) hplain.2
    hreg.2 hvalue rfl rfl rfl hready.holds hq₁).bind ?_
  rintro x ⟨_, o⟩ _ ⟨rfl, rfl, -⟩
  refine .member fun d hd hid _ => ?_
  rw [← hL.registry, hd] at hcheck
  refine (Executes.perform (s := ⟨s.vars, o⟩)
    (check_follows hL (v := v.after q₁ [x, object] o) hcheck rfl hq₂ rfl)).bind ?_
  rintro _ ⟨_, o'⟩ _ ⟨rfl, rfl⟩
  rw [Exec.perform_bind]
  exact quiet_executes hready rfl
    (writeProperty_follows hL (v := v.after q₂ [x, object] o') hat rfl hq hd hid rfl)

theorem assignDynamic_executes {k p q q₀ q₁ : Nat} {index : UInt16} {owner value : Expr} {m : Mark}
    {name : String} {args : List Expr} {s : Store} {v : View} {long : Nat}
    {J : Bool → Store → View → Prop} (inLoop : Bool) (hplain : owner.Plain ∧ value.Plain)
    (hreg : owner.Every D.Regular ∧ value.Every D.Regular) (howner : ExprCode L owner p q₀)
    (hvalue : ExprCode L value q₀ q₁) (htext : L.Text index name)
    (hat : L.At q₁ (.setDynamicProperty index) q) (hready : Ready L p s v)
    (hq : q ≤ Plain.rangeEnd env v) :
    Executes env D.strict long 0 v (D.execAssign inLoop (.member m owner name args .dynamic) value s)
      (fun _ s' v' => Rests L k v q s' v') J := by
  have hq₁ := Nat.le_trans (Nat.le_of_lt hat.lt) hq
  refine (value_executes hL inLoop hplain.1 hreg.1 howner hready.pc hready.stack hready.outside
    hready.holds (Nat.le_trans (Nat.le_of_lt hvalue.lt) hq₁)).bind ?_
  rintro object ⟨_, o₀⟩ _ ⟨rfl, rfl, -⟩
  refine (value_executes hL inLoop (v := v.after q₀ [object] o₀) (s := ⟨s.vars, o₀⟩) hplain.2
    hreg.2 hvalue rfl rfl rfl hready.holds hq₁).bind ?_
  rintro x ⟨_, o⟩ _ ⟨rfl, rfl, -⟩
  exact quiet_executes hready rfl
    (writeNamed_follows hL (v := v.after q₁ [x, object] o) htext hat rfl hq rfl)

-- The end of the script, with a value to return or without one.
theorem stops_of_ret {p p' q : Nat} {x : Value} {s : Store} {v : View} {o : Outside}
    (hready : Ready L p' s v) (hat : L.At p .ret q) (hq : q ≤ Plain.rangeEnd env v) :
    Stops env (v.after p [x] o) x o := by
  have hp := Nat.lt_of_lt_of_le hat.lt hq
  refine ⟨0, _, { v.after q [] o with returned := x }, .refl _, spares_of_at hL hat rfl trivial, ?_,
    rfl, rfl, rfl, hready.warnings⟩
  rw [step_of_at hL (v := v.after p [x] o) hat rfl hp]
  rfl

theorem stops_of_exit {p q : Nat} {s : Store} {v : View} (hready : Ready L p s v)
    (hat : L.At p .exit q) (hq : q ≤ Plain.rangeEnd env v) : Stops env v .null s.outside := by
  have hp := Nat.lt_of_lt_of_le hat.lt hq
  have hunwind : Plain.unwind { v with pc := q } = .ok () { v with pc := q } := by
    simp only [Plain.unwind, hready.stack]
  refine ⟨0, v, { v with pc := q }, .refl _, spares_of_at hL hat hready.pc trivial, ?_,
    hready.returned, hready.outside, hready.stack, hready.warnings⟩
  rw [step_of_at hL hat hready.pc hp]
  simp only [EStateM.map, Plain.effect, hunwind]
  rfl

end

end HostScript
