import HostScript.Proofs.Levels.Loops

namespace HostScript

namespace Machine

-- The machine of the slow run, where it goes on alone.
def alone (m : Machine) (stack : List Cell) (locals : Array Cell) (pc : Nat) : Machine :=
  { m with stack, locals, loops := [], pc }

theorem standing_eq_alone (m : Machine) (locals : Array Cell) (pc : Nat) :
    m.standing locals [] pc = m.alone m.stack locals pc := rfl

-- The machine of the fast run in a loop whose rounds it counts, with so many rounds left. Without a
-- body there is nothing to do in them.
def inRounds (m : Machine) (locals : Array Cell) (loops : List LoopFrame) (start stop : Nat) :
    Nat → Machine
  | 0 => m.standing locals loops stop
  | left + 1 =>
    if start = stop then m.standing locals loops stop
    else m.standing locals (⟨start, stop, left⟩ :: loops) start

theorem inRounds_of_eq {m : Machine} {locals : Array Cell} {loops : List LoopFrame}
    {start stop : Nat} (left : Nat) (h : start = stop) :
    m.inRounds locals loops start stop left = m.standing locals loops stop := by
  cases left with
  | zero => rfl
  | succ left => rw [inRounds, if_pos h]

end Machine

namespace Work

variable {env : RunEnv} {m : Machine} {locals : Array Cell} {loops : List LoopFrame}
  {start stop count : Nat} {length : Int32}

theorem enterLoop_standing (hlength : 0 ≤ length.toInt) (hstop : start + length.toInt.toNat = stop)
    (hsize : stop ≤ env.script.code.size) : enterLoop env count length (m.standing locals loops start) =
      .ok () (m.inRounds locals loops start stop count) := by
  have hin : (decide (length.toInt < 0) || decide (env.script.code.size < stop)) = false := by
    simp only [Bool.or_eq_false_iff, decide_eq_false_iff_not]
    omega
  have hpc : (m.standing locals loops start).pc = start := rfl
  simp only [enterLoop, bind, EStateM.bind, get, getThe, MonadStateOf.get, EStateM.get, hpc, hstop,
    hin, Bool.false_eq_true, if_false]
  cases count with
  | zero => rfl
  | succ count =>
      by_cases hsame : start = stop
      · simp only [hsame, decide_true, Bool.or_true, if_true, Machine.inRounds]
        rfl
      · simp only [hsame, Nat.succ_ne_zero, decide_false, Bool.or_false, Bool.false_eq_true, if_false,
          Machine.inRounds]
        rfl

-- A check of a number changes nothing.
theorem checked_number {r : Registry} {expected : Ty} {x : Float} {stack : List Cell} {u : Unit}
    {m' : Machine} (hstack : m.stack = .number x :: stack) (h : checkAt r expected 0 m = .ok u m') :
    m' = m := by
  have htype : typeOf r (.number x) m = .ok (if Number.isWhole x then .long else .double) m := by
    simp only [typeOf]
    split <;> rfl
  simp only [checkAt, bind, EStateM.bind, peek, hstack, List.getElem?_cons_zero, htype] at h
  generalize (if Number.isWhole x then Ty.long else Ty.double) = actual at h
  cases hadmits : expected.admits actual with
  | true =>
      rw [hadmits, if_pos rfl] at h
      cases h
      rfl
  | false =>
      rw [hadmits, if_neg Bool.false_ne_true] at h
      cases h

variable [HostHooks]

theorem enterLoopNum_standing {x : Float} {stack : List Cell} (hstack : m.stack = .number x :: stack) :
    enterLoopNum env length (m.standing locals loops start) =
      enterLoop env (Number.wholesBelow x) length ({ m with stack }.standing locals loops start) := by
  have hfull : (m.standing locals loops start).stack = .number x :: stack := hstack
  simp only [enterLoopNum, bind, EStateM.bind, pop, hfull]
  rfl

-- The end of a round.
theorem step_round (hne : start ≠ stop) (left : Nat) :
    step env (m.standing locals (⟨start, stop, left⟩ :: loops) stop) =
      .ok .next (m.inRounds locals loops start stop left) := by
  have hend : ¬(m.standing locals (⟨start, stop, left⟩ :: loops) stop).pc <
      rangeEnd env (m.standing locals (⟨start, stop, left⟩ :: loops) stop) :=
    Nat.lt_irrefl stop
  simp only [step, bind, EStateM.bind, get, getThe, MonadStateOf.get, EStateM.get, hend, if_false]
  cases left with
  | zero => rfl
  | succ left =>
      rw [Machine.inRounds, if_neg hne]
      rfl

-- Only numbers are computed with.
theorem computed {f : Float → Float → Cell} {u : Unit} {a b : Cell} {stack : List Cell} {m' : Machine}
    (hstack : m.stack = b :: a :: stack) (h : binaryNum f m = .ok u m') :
    ∃ x y, a = .number x ∧ b = .number y ∧ m' = { m with stack := f x y :: stack } := by
  simp only [binaryNum, bind, EStateM.bind, pop, hstack] at h
  have hrefuse : ∀ {m₂ : Machine}, (do release a; release b; throw .notNumbers : Work Unit) m₂ ≠
      .ok u m' := by
    intro m₂
    simp only [bind, EStateM.bind]
    cases release a m₂ with
    | ok _ m₃ => exact refuse_ne_ok
    | error _ _ => exact fun h => by cases h
  cases a with
  | number x =>
      cases b with
      | number y => exact ⟨x, y, rfl, rfl, pushed h⟩
      | _ => exact absurd h hrefuse
  | _ => exact absurd h hrefuse

end Work

-- A body without code, however it is laid out.
theorem StmtsCode.of_empty {L L' : Layout} {exits exits' : Option (Nat × Nat)}
    {k k' j j' p q a b : Nat} {ss : List Stmt} (h : StmtsCode L exits k ss p q k') (hpq : p = q)
    (h' : StmtsCode L' exits' j ss a b j') : a = b := by
  induction ss generalizing k p j a with
  | nil =>
      cases h'
      rfl
  | cons s rest ih =>
      cases h with
      | cons hs hrest =>
          cases h' with
          | cons hs' hrest' =>
              have hle := hrest.le
              cases hd : s.declares with
              | false =>
                  have := hs.lt hd
                  omega
              | true =>
                  cases hs with
                  | «using» =>
                      cases hs'
                      exact ih hrest hpq hrest'
                  | input =>
                      cases hs'
                      exact ih hrest hpq hrest'
                  | _ => cases hd

-- A count that is written down is put on the stack as it is, and has the rounds that the fast run is
-- told.
theorem literalCount_eq [HostHooks] {count : Expr} {k : Int32}
    (h : Emit.literalCount? count = some k) :
    ∃ mark value x, count = .literal mark value ∧ k.toInt.toNat = Number.wholesBelow x ∧
      ∀ L p q, LiteralCode L value p q → ∃ i, L.At p i q ∧ i.flow = .next ∧
        (∀ env m, Machine.callsOf env i m = []) ∧ ∀ env, Work.effect env i = Work.push (.number x) := by
  have hsmall : ∀ {a : Nat}, a < 2147483648 → (Int32.ofNat a).toInt.toNat = a := fun ha => by
    rw [Int32.toInt_ofNat_of_lt (by omega), Int.toNat_natCast]
  cases count with
  | literal mark value =>
      simp only [Emit.literalCount?, Expr.literal?] at h
      cases value with
      | long n =>
          simp only at h
          split at h
          · rename_i hlt
            cases h
            refine ⟨mark, .long n, Number.ofLong n, rfl, ?_, fun L p q hcode => ?_⟩
            · rw [hsmall (by omega), Number.wholesBelow_ofLong hlt]
            · cases hcode with
              | long hat => exact ⟨_, hat, rfl, fun _ _ => rfl, fun _ => rfl⟩
          · cases h
      | double x =>
          simp only at h
          split at h
          · rename_i hlt
            cases h
            refine ⟨mark, .double x, x, rfl, hsmall hlt, fun L p q hcode => ?_⟩
            cases hcode with
            | double hat => exact ⟨_, hat, rfl, fun _ _ => rfl, fun _ => rfl⟩
          · cases h
      | _ => cases h
  | _ => cases h

namespace Levels

variable [HostHooks] {T : Levels} {n : Nat} {m m₁ : Machine} {stack : List Cell} {l₀ l₁ : Array Cell}
  {loops : List LoopFrame} {i : Instr} {p q : Nat} {c : Cell} {s index limit : UInt8}

-- The slow run takes a step alone.
theorem alone_mirrors (hat : T.slow.At p i q) (hflow : i.flow = .next)
    (hcalls : ∀ m, Machine.callsOf T.slow.env i m = [])
    (hnext : ∀ m', Work.effect T.slow.env i (m.alone stack l₀ q) = .ok () m' → T.Mirrors n m' m₁) :
    T.Mirrors n (m.alone stack l₀ p) m₁ := by
  have hlt : p < Work.rangeEnd T.slow.env (m.alone stack l₀ p) := hat.lt_size
  exact (Mirrors.left hat rfl hlt hflow (hcalls _) hnext).mono (Nat.le_succ n)

theorem alone_push (hat : T.slow.At p i q) (hflow : i.flow = .next)
    (hcalls : ∀ m, Machine.callsOf T.slow.env i m = [])
    (heffect : Work.effect T.slow.env i (m.alone stack l₀ q) = Work.push c (m.alone stack l₀ q))
    (hnext : T.Mirrors n (m.alone (c :: stack) l₀ q) m₁) : T.Mirrors n (m.alone stack l₀ p) m₁ := by
  refine alone_mirrors hat hflow hcalls fun m' h => ?_
  rw [heffect] at h
  rw [Work.pushed h]
  exact hnext

theorem alone_load (hat : T.slow.At p (.loadLocNoRef s) q) (hc : l₀[s.toNat]? = some c)
    (hnext : T.Mirrors n (m.alone (c :: stack) l₀ q) m₁) : T.Mirrors n (m.alone stack l₀ p) m₁ := by
  have hlocals : (m.alone stack l₀ q).locals[s.toNat]? = some c := hc
  have hat' : T.slow.At p (Layout.loadInstr false s) q := hat
  exact alone_push hat' rfl (fun _ => rfl) (Work.effect_load hlocals) hnext

theorem alone_store (hat : T.slow.At p (.setLocNoRef s) q)
    (hnext : s.toNat < l₀.size → T.Mirrors n (m.alone stack (l₀.setIfInBounds s.toNat c) q) m₁) :
    T.Mirrors n (m.alone (c :: stack) l₀ p) m₁ := by
  have hat' : T.slow.At p (Layout.storeInstr false s) q := hat
  refine alone_mirrors hat' rfl (fun _ => rfl) fun m' h => ?_
  obtain ⟨old, c', stack', hold, hstack⟩ := Work.stored h
  rw [Work.effect_store hold hstack] at h
  cases hstack
  cases h
  exact hnext (Array.getElem?_eq_some_iff.mp hold).1

theorem alone_compute {f : Float → Float → Cell} {a b : Cell} (hat : T.slow.At p i q)
    (hflow : i.flow = .next) (hcalls : ∀ m, Machine.callsOf T.slow.env i m = [])
    (heffect : Work.effect T.slow.env i = Work.binaryNum f)
    (hnext : ∀ x y, a = .number x → b = .number y → T.Mirrors n (m.alone (f x y :: stack) l₀ q) m₁) :
    T.Mirrors n (m.alone (b :: a :: stack) l₀ p) m₁ := by
  refine alone_mirrors hat hflow hcalls fun m' h => ?_
  rw [heffect] at h
  obtain ⟨x, y, ha, hb, rfl⟩ := Work.computed rfl h
  exact hnext x y ha hb

theorem alone_jumpIf {on b : Bool} {target : Nat} (h : T.slow.JumpIf on p q target)
    (hnext : T.Mirrors n (m.alone stack l₀ (if b = on then target else q)) m₁) :
    T.Mirrors n (m.alone (.bool b :: stack) l₀ p) m₁ := by
  obtain ⟨a, hat, hgoes⟩ := h
  refine alone_mirrors hat rfl (fun _ => rfl) fun m' h => ?_
  rw [Work.effect_jumpIf hgoes rfl] at h
  cases h
  exact hnext

-- The comparison of a counter with its limit, which must be a number.
theorem alone_compare {t₁ t₂ t₃ t₄ : Nat} {i : Float} (hload : T.slow.At p (.loadLocNoRef index) t₁)
    (hload' : T.slow.At t₁ (.loadLocNoRef limit) t₂) (hlt : T.slow.At t₂ (.orderNum .lt) t₃)
    (hif : T.slow.JumpIf false t₃ t₄ q) (hindex : l₀[index.toNat]? = some (.number i))
    (hlimit : l₀[limit.toNat]? = some c)
    (hnext : ∀ x, c = .number x → T.Mirrors n (m.alone stack l₀ (if i < x then t₄ else q)) m₁) :
    T.Mirrors n (m.alone stack l₀ p) m₁ := by
  refine alone_load hload hindex (alone_load hload' hlimit ?_)
  refine alone_compute hlt rfl (fun _ => rfl) rfl fun y x hy hx => alone_jumpIf hif ?_
  cases hy
  have hthere := hnext x hx
  by_cases hix : i < x
  · rw [if_pos hix] at hthere
    simpa [Order.apply, hix] using hthere
  · rw [if_neg hix] at hthere
    simpa [Order.apply, hix] using hthere

-- The counter goes up by one.
theorem alone_advance {t n₁ n₂ n₃ n₄ : Nat} {i : Float} (h₁ : T.slow.At p (.loadLocNoRef index) n₁)
    (h₂ : T.slow.At n₁ (.pushLong 1) n₂) (h₃ : T.slow.At n₂ (.arithNum .add) n₃)
    (h₄ : T.slow.At n₃ (.setLocNoRef index) n₄) (h₅ : T.slow.Jump n₄ q t)
    (hindex : l₀[index.toNat]? = some (.number i))
    (hnext : index.toNat < l₀.size → T.Mirrors n (m.alone stack
      (l₀.setIfInBounds index.toNat (.number (i + Number.ofLong 1))) t) m₁) :
    T.Mirrors n (m.alone stack l₀ p) m₁ := by
  refine alone_load h₁ hindex (alone_push h₂ rfl (fun _ => rfl) rfl ?_)
  refine alone_compute h₃ rfl (fun _ => rfl) rfl fun x y hx hy => alone_store h₄ fun hsize => ?_
  obtain ⟨a, hat, hgoes⟩ := h₅
  refine alone_mirrors hat rfl (fun _ => rfl) fun m' h => ?_
  rw [Work.effect_jump hgoes] at h
  cases h
  cases hx
  cases hy
  exact hnext hsize

variable {k₀ k₁ k₀' p₀ q₀ j : Nat} {stmts : List Stmt} {e₁ : Option (Nat × Nat)}

-- A limit that is no number ends the run at the first comparison.
theorem hopeless_mirrors (h₀ : CountedCode T.slow index limit Eq (k₀ + 1) stmts p₀ q₀ k₀')
    (hindex : T.slow.Slot (hiddenName "index" (k₀ + 1)) index)
    (hlimit : T.slow.Slot (hiddenName "limit" j) limit) (hvalue : l₀[limit.toNat]? = some c)
    (hnumber : ∀ x, c ≠ .number x) : T.Mirrors n (m.alone stack l₀ p₀) m₁ := by
  cases h₀ with
  | mk hzero hset hload hload' hlt hif hthis hcode hget hone hadd hput hback =>
      refine alone_push hzero rfl (fun _ => rfl) rfl (alone_store hset fun hsize => ?_)
      refine alone_compare hload hload' hlt hif (Array.getElem?_setIfInBounds_self_of_lt hsize)
        (c := c) ?_ fun x hx => absurd hx (hnumber x)
      rw [Layout.getElem?_set_ne T.slowNodup hindex hlimit fun he =>
        absurd (hiddenName_inj (by simp [hiddenWords]) (by simp [hiddenWords]) he).1 (by decide)]
      exact hvalue

-- The slow run counts a variable up, and the machine counts the rounds of the fast one.
theorem rounds_mirrors {x : Float} {start stop : Nat} (hcount : Number.Countable x)
    (h₀ : CountedCode T.slow index limit Eq (k₀ + 1) stmts p₀ q₀ k₀')
    (hindex : T.slow.Slot (hiddenName "index" (k₀ + 1)) index) (hj : j ≤ k₀)
    (hlimit : T.slow.Slot (hiddenName "limit" j) limit)
    (hvalue : l₀[limit.toNat]? = some (.number x))
    (hbody : ∀ {b₀ c₀}, StmtsCode T.slow (some (q₀, c₀)) (k₀ + 1) stmts b₀ c₀ k₀' →
      T.Runs false (some (q₀, c₀)) e₁ (k₀ + 1) k₁ b₀ start c₀ stop)
    (hempty : start = stop → ∀ {b₀ c₀}, StmtsCode T.slow (some (q₀, c₀)) (k₀ + 1) stmts b₀ c₀ k₀' →
      b₀ = c₀)
    (halike : T.Alike k₀ k₁ l₀ l₁) (hnext : T.Leads (T.After k₀ k₁ l₀ l₁) n loops q₀ stop) :
    T.Mirrors n (m.standing l₀ [] p₀) (m.inRounds l₁ loops start stop (Number.wholesBelow x)) := by
  cases h₀ with
  | @mk _ z₀ _ t _ _ _ _ _ _ _ next _ _ b₀ _ _ _ _ _ hzero hset hload hload' hlt hif hthis hcode hget
      hone hadd hput hback =>
      cases hthis
      have hbound := hcount.wholesBelow_le
      have hstart : Number.ofLong 0 = Number.whole 0 := by decide +kernel
      have hone' : Number.ofLong 1 = Number.whole 1 := by decide +kernel
      -- Before every comparison the counter says how many rounds have been done.
      have htop : ∀ left i (m : Machine) l₀' l₁', T.After k₀ k₁ l₀ l₁ l₀' l₁' →
          l₀'[index.toNat]? = some (.number (Number.whole i)) → i + left = Number.wholesBelow x →
          T.Mirrors n (m.standing l₀' [] t) (m.inRounds l₁' loops start stop left) := by
        intro left
        induction left with
        | zero =>
            intro i m l₀' l₁' hafter hi htotal
            have hdone : ¬Number.whole i < x := by
              rw [hcount.whole_lt_iff (by omega)]
              omega
            rw [Machine.standing_eq_alone]
            refine alone_compare hload hload' hlt hif hi
              ((hafter.kept₀ _ j limit (by simp [hiddenWords]) hj hlimit).trans hvalue)
              fun y hy => ?_
            cases hy
            rw [if_neg hdone]
            exact hnext m l₀' l₁' hafter
        | succ left ih =>
            intro i m l₀' l₁' hafter hi htotal
            have hmore : Number.whole i < x := by
              rw [hcount.whole_lt_iff (by omega)]
              omega
            rw [Machine.standing_eq_alone]
            refine alone_compare hload hload' hlt hif hi
              ((hafter.kept₀ _ j limit (by simp [hiddenWords]) hj hlimit).trans hvalue)
              fun y hy => ?_
            cases hy
            rw [if_pos hmore]
            have hadvance : ∀ (m₂ : Machine) l₀₂ l₁₂, T.After (k₀ + 1) k₁ l₀' l₁' l₀₂ l₁₂ →
                T.Mirrors n (m₂.standing l₀₂ [] next) (m₂.inRounds l₁₂ loops start stop left) := by
              intro m₂ l₀₂ l₁₂ hafter₂
              have hi₂ := (hafter₂.kept₀ _ _ index (by simp [hiddenWords]) (Nat.le_refl _) hindex).trans hi
              rw [Machine.standing_eq_alone]
              refine alone_advance hget hone hadd hput hback hi₂ fun hsize => ?_
              have hall := hafter.within hafter₂ (Nat.le_succ _) (Nat.le_refl _)
              have hhide := hall.alike.hideSlow (c := .number (Number.whole (i + 1)))
                (by simp [hiddenWords]) hindex fun he => absurd he (by decide)
              rw [hone', Number.whole_add_one (by omega)]
              refine ih (i + 1) m₂ _ l₁₂ ⟨hhide, ?_, hall.kept₁⟩
                (Array.getElem?_setIfInBounds_self_of_lt hsize) (by omega)
              exact hall.kept₀.trans (Layout.kept_hide T.slowNodup (by simp [hiddenWords]) hindex
                (Nat.lt_succ_self _) _) (Nat.le_refl _)
            by_cases hsame : start = stop
            · cases hempty hsame hcode
              have hround := hadvance m l₀' l₁' (.refl (hafter.alike.mono (Nat.le_succ _) (Nat.le_refl _)))
              rw [Machine.inRounds_of_eq _ hsame] at hround ⊢
              exact hround
            · rw [Machine.inRounds, if_neg hsame]
              refine (hbody hcode).go (hafter.alike.mono (Nat.le_succ _) (Nat.le_refl _))
                (Nat.le_refl stop) (fun m₂ l₀₂ l₁₂ hafter₂ => ?_) (by simp)
              exact .round rfl rfl (Work.step_round hsame left) (hadvance m₂ l₀₂ l₁₂ hafter₂)
      rw [Machine.standing_eq_alone]
      refine alone_push hzero rfl (fun _ => rfl) rfl (alone_store hset fun hsize => ?_)
      rw [hstart]
      refine htop _ 0 m _ l₁ ⟨?_, ?_, .refl⟩ (Array.getElem?_setIfInBounds_self_of_lt hsize)
        (Nat.zero_add _)
      · exact halike.hideSlow (by simp [hiddenWords]) hindex fun he => absurd he (by decide)
      · exact Layout.kept_hide T.slowNodup (by simp [hiddenWords]) hindex (Nat.lt_succ_self _) _

-- The check of a limit that is a number.
theorem alone_check {actual : Ty} {x : Float} (h : CheckCode T.slow .double actual p q)
    (hnext : T.Mirrors n (m.alone (.number x :: stack) l₀ q) m₁) :
    T.Mirrors n (m.alone (.number x :: stack) l₀ p) m₁ := by
  cases h with
  | skipped _ => exact hnext
  | needed _ hat =>
      refine alone_mirrors hat rfl (fun _ => rfl) fun m' h => ?_
      rw [Work.checked_number rfl h]
      exact hnext

-- The slow run has kept the limit, and the fast one has begun its rounds.
theorem limit_mirrors {x : Float} {start stop : Nat}
    (h₀ : CountedCode T.slow index limit Eq (k₀ + 2) stmts p₀ q₀ k₀')
    (hindex : T.slow.Slot (hiddenName "index" (k₀ + 2)) index)
    (hlimit : T.slow.Slot (hiddenName "limit" (k₀ + 1)) limit) (hsize : limit.toNat < l₀.size)
    (hbody : ∀ {b₀ c₀}, StmtsCode T.slow (some (q₀, c₀)) (k₀ + 2) stmts b₀ c₀ k₀' →
      T.Runs false (some (q₀, c₀)) e₁ (k₀ + 2) k₁ b₀ start c₀ stop)
    (hempty : start = stop → ∀ {b₀ c₀}, StmtsCode T.slow (some (q₀, c₀)) (k₀ + 2) stmts b₀ c₀ k₀' →
      b₀ = c₀)
    (halike : T.Alike k₀ k₁ l₀ l₁) (hnext : T.Leads (T.After k₀ k₁ l₀ l₁) n loops q₀ stop) :
    T.Mirrors n (m.standing (l₀.setIfInBounds limit.toNat (.number x)) [] p₀)
      (m.inRounds l₁ loops start stop (Number.wholesBelow x)) := by
  have hvalue := Array.getElem?_setIfInBounds_self_of_lt (a := Cell.number x) hsize
  refine .bounded fun hbounded => ?_
  have hcount : Number.Countable x := hbounded limit.toNat (k₀ + 1) x hlimit hvalue
  have hafter : T.After k₀ k₁ l₀ l₁ (l₀.setIfInBounds limit.toNat (.number x)) l₁ :=
    ⟨halike.hideSlow (by simp [hiddenWords]) hlimit fun he => absurd he (by decide),
      Layout.kept_hide T.slowNodup (by simp [hiddenWords]) hlimit (Nat.lt_succ_self _) _, .refl⟩
  exact rounds_mirrors hcount h₀ hindex (Nat.le_refl _) hlimit hvalue hbody hempty
    (hafter.alike.mono (Nat.le_succ _) (Nat.le_refl _))
    (hnext.imp fun _ _ hlater => hafter.within hlater (Nat.le_succ _) (Nat.le_refl _))

-- A loop whose rounds the machine counts in the fast run only.
theorem Runs.machineLoop {offset k₁' p₁ q₁ : Nat} {e₀ : Option (Nat × Nat)} {count : Expr}
    (hplain : count.Plain) (hslow : T.slow.counts stmts = false) (hfast : T.fast.counts stmts = true)
    (h₀ : StmtCode T.slow e₀ k₀ (.countLoop offset count stmts) p₀ q₀ k₀')
    (h₁ : StmtCode T.fast e₁ k₁ (.countLoop offset count stmts) p₁ q₁ k₁')
    (hbody : ∀ {x₀ b₀ b₁ c₀ c₁}, StmtsCode T.slow (some (x₀, c₀)) (k₀ + 2) stmts b₀ c₀ k₀' →
      StmtsCode T.fast e₁ k₁ stmts b₁ c₁ k₁' →
      T.Runs false (some (x₀, c₀)) e₁ (k₀ + 2) k₁ b₀ b₁ c₀ c₁) :
    T.Runs false e₀ e₁ k₀ k₁ p₀ p₁ q₀ q₁ := by
  cases h₀ with
  | machineLoop hcounts => exact absurd hcounts (by simp [hslow])
  | countLoop _ hlimit hindex hcount₀ hcheck₀ hset hcode₀ =>
      cases h₁ with
      | countLoop hcounts => exact absurd hfast (by simp [hcounts])
      | machineLoop _ hhead hlength hstop hsize hcode₁ =>
          have hle := hcode₁.le
          cases hhead with
          | literal hliteral hat =>
              obtain ⟨mark, value, x, rfl, hrounds, hpush⟩ := literalCount_eq hliteral
              have hlt := hat.lt
              refine ⟨by omega, fun {n m l₀ l₁ loops} halike hq hnext _ => ?_⟩
              have henter : Work.enterLoop T.fast.env (Number.wholesBelow x) _ (m.standing l₁ loops _) =
                  _ := Work.enterLoop_standing hlength hstop hsize
              rw [← hrounds] at henter
              have hlt₁ : p₁ < Work.rangeEnd T.fast.env (m.standing l₁ loops p₁) :=
                Nat.lt_of_lt_of_le (by omega) hq
              refine .right hat rfl hlt₁ rfl rfl henter ?_
              cases hcount₀ with
              | literal hliteral₀ =>
                  obtain ⟨i, hat₀, hflow, hcalls, heffect⟩ := hpush _ _ _ hliteral₀
                  rw [Machine.standing_eq_alone]
                  refine alone_push hat₀ hflow (hcalls _) (congrFun (heffect T.slow.env) _) ?_
                  refine alone_check hcheck₀ (alone_store hset fun hsize₀ => ?_)
                  rw [hrounds]
                  exact limit_mirrors hcode₀ hindex hlimit hsize₀ (hbody · hcode₁)
                    (fun he _ _ h => hcode₁.of_empty he h) halike hnext
          | computed _ hcount₁ hcheck₁ hat =>
              have hflows := (Flows.expr count hplain hcount₀ hcount₁).trans (.check hcheck₀ hcheck₁)
              have hlt := hat.lt
              have hle₁ := hflows.le
              refine ⟨by omega, fun {n m l₀ l₁ loops} halike hq hnext _ => ?_⟩
              refine hflows.go halike.named (by omega) fun m' => ?_
              -- The slow run keeps the limit first.
              have hset' : T.slow.At _ (Layout.storeInstr false _) _ := hset
              rw [Machine.standing_eq_alone]
              refine alone_mirrors hset' rfl (fun _ => rfl) fun m₂ hkeep => ?_
              obtain ⟨old, c, stack, hold, hstack⟩ := Work.stored hkeep
              rw [Work.effect_store hold hstack] at hkeep
              cases hkeep
              have hsize₀ : _ < l₀.size := (Array.getElem?_eq_some_iff.mp hold).1
              cases c with
              | number x =>
                  have hlt₁ := Nat.lt_of_lt_of_le (Nat.lt_of_lt_of_le hat.lt hle) hq
                  have henter : Work.enterLoopNum T.fast.env _ (m'.standing l₁ loops _) = _ :=
                    (Work.enterLoopNum_standing hstack).trans
                      (Work.enterLoop_standing hlength hstop hsize)
                  refine .right hat rfl hlt₁ rfl rfl henter ?_
                  exact limit_mirrors (m := { m' with stack }) hcode₀ hindex hlimit hsize₀
                    (hbody · hcode₁) (fun he _ _ h => hcode₁.of_empty he h) halike hnext
              | _ =>
                  exact hopeless_mirrors (m := { m' with stack }) hcode₀ hindex hlimit
                    (Array.getElem?_setIfInBounds_self_of_lt hsize₀) fun x => by simp

end Levels

end HostScript
