import HostScript.Proofs.Meaning.Statements

namespace HostScript

-- A machine that statements have sent out of their code, to where the loop around them is left or
-- goes on. Only those that `may` do so ever do.
def Escapes (L : Layout) (k : Nat) (v₀ : View) (exits : Option (Nat × Nat)) (may leave : Bool)
    (s : Store) (v : View) : Prop :=
  may = true ∧ ∃ a b, exits = some (a, b) ∧ Rests L k v₀ (if leave then a else b) s v

-- The code from `p` to `q` carries out `x`, whatever the variables are.
def Performs (L : Layout) (env : RunEnv) (strict : Bool) (exits : Option (Nat × Nat))
    (may : Bool) (rounds k p q : Nat) (x : Exec Unit) : Prop :=
  ∀ s v, Ready L p s v → q ≤ Plain.rangeEnd env v →
    Executes env strict rounds 0 v (x s) (fun _ => Rests L k v q) (Escapes L k v exits may)

section

variable {L : Layout} {env : RunEnv} {exits : Option (Nat × Nat)} {strict may may' : Bool}
  {rounds k k₁ p q r : Nat} {x y : Exec Unit} {s s' : Store} {v₀ v₁ v₂ : View}

theorem Escapes.after {leave : Bool} (h : Escapes L k₁ v₁ exits may leave s' v₂)
    (hrests : Rests L k v₀ p s v₁) (hk : k ≤ k₁) (hmay : may = true → may' = true) :
    Escapes L k v₀ exits may' leave s' v₂ := by
  obtain ⟨hm, a, b, hexits, hrests'⟩ := h
  exact ⟨hmay hm, a, b, hexits, hrests.trans hrests' hk⟩

-- Code that goes on where other code has left off.
theorem Performs.after (h : Performs L env strict exits may rounds k₁ p q x)
    (hrests : Rests L k v₀ p s v₁) (hk : k ≤ k₁) (hq : q ≤ Plain.rangeEnd env v₀)
    (hmay : may = true → may' = true) :
    Executes env strict rounds 0 v₁ (x s) (fun _ => Rests L k v₀ q) (Escapes L k v₀ exits may') := by
  rw [← hrests.rangeEnd env] at hq
  exact (h s v₁ hrests.ready hq).imp (Nat.le_refl _) (Nat.le_refl _)
    (fun _ _ v' hpost => ⟨0, v', .refl v', hrests.trans hpost hk⟩)
    fun _ _ _ hpost => hpost.after hrests hk hmay

theorem Performs.seq (hx : Performs L env strict exits may rounds k p q x)
    (hy : Performs L env strict exits may' rounds k₁ q r y) (hk : k ≤ k₁) (hr : q ≤ r) :
    Performs L env strict exits (may || may') rounds k p r (do x; y) := by
  intro s v hready hrange
  refine (hx.after (.refl hready) (Nat.le_refl k) (Nat.le_trans hr hrange) ?_).bind ?_
  · intro hm
    rw [hm, Bool.true_or]
  · intro _ s' v' hrests
    refine hy.after hrests hk hrange fun hm => ?_
    rw [hm, Bool.or_true]

theorem Performs.nothing : Performs L env strict exits may rounds k p p (return) :=
  fun _ _ hready _ => .pure (.refl hready)

variable {D : Dialect}

theorem Rests.jump (hL : L.Suits env D) (hrests : Rests L k v₀ p s v₁) (hjump : L.Jump p r q)
    (hp : r ≤ Plain.rangeEnd env v₀) : ∃ n v', Path env n v₁ v' ∧ Rests L k v₀ q s v' := by
  rw [← hrests.rangeEnd env] at hp
  have hpath := path_of_jump hL hjump hrests.ready.pc (Nat.lt_of_lt_of_le hjump.lt hp)
  rw [hrests.ready.stack, hrests.ready.outside] at hpath
  refine ⟨1, _, hpath, hrests.trans ?_ (Nat.le_refl k)⟩
  exact hrests.ready.rests s.outside

end

section

variable {L : Layout} {env : RunEnv} {D : Dialect} (hL : L.Suits env D)
  {exits : Option (Nat × Nat)} {may : Bool} {k p q q₁ q₂ q₃ q₄ : Nat} {body rest : Exec Unit}
  {test : Expr}

include hL

-- One of two parts is carried out, and both lead to the same place.
theorem cond_performs {k₁ : Nat} {may' : Bool} (inLoop : Bool) (hplain : test.Plain)
    (hreg : test.Every D.Regular) (htest : ExprCode L test p q₁)
    (hjump : L.JumpIf false q₁ q₂ q₄) (hout : L.Jump q₃ q₄ q)
    (hbody : Performs L env D.strict exits may D.rounds k q₂ q₃ body)
    (hrest : Performs L env D.strict exits may' D.rounds k₁ q₄ q rest) (hle : q₂ ≤ q₃) (hk : k ≤ k₁)
    (hq : q₄ ≤ q) :
    Performs L env D.strict exits (may || may') D.rounds k p q
      (do if ← D.condition inLoop test then body else rest) := by
  intro s v hready hrange
  have hq₄ := Nat.le_trans hq hrange
  have hq₃ := Nat.le_trans (Nat.le_of_lt hout.lt) hq₄
  refine ((condition_executes hL k inLoop hplain hreg htest hjump hready
    (Nat.le_trans hle hq₃)).weaken (Nat.zero_le _) (Nat.le_refl _)).bind ?_
  intro b s' v' hrests
  cases b with
  | true =>
      refine (hbody.after hrests (Nat.le_refl k) hq₃ ?_).imp (Nat.le_refl _) (Nat.le_refl _)
        (fun _ _ _ hpost => hpost.jump hL hout hq₄) fun _ _ _ hj => hj
      intro hm
      rw [hm, Bool.true_or]
  | false =>
      refine hrest.after hrests hk hrange fun hm => ?_
      rw [hm, Bool.or_true]

-- The test comes before every round.
theorem while_performs (hplain : test.Plain) (hreg : test.Every D.Regular)
    (htest : ExprCode L test p q₁) (hjump : L.JumpIf false q₁ q₂ q) (hback : L.Jump q₃ q p)
    (hbody : Performs L env D.strict (some (q, p)) may D.rounds k q₂ q₃ body) (hle : q₂ ≤ q₃) :
    Performs L env D.strict exits false D.rounds k p q
      (Exec.repeatWhile
        (do if ← D.condition true test then Exec.goesOn body else return false) D.rounds) := by
  intro s v hready hrange
  have hq₃ := Nat.le_trans (Nat.le_of_lt hback.lt) hrange
  refine (Executes.repeatWhile (I := Rests L k v p) (R := Rests L k v q) ?_ D.rounds
    (.refl hready)).weaken (Nat.le_refl _)
    (Nat.le_of_eq (Nat.min_self D.rounds).symm)
  intro s₁ v₁ hround
  have hsame := hround.rangeEnd env
  refine (condition_executes hL k true hplain hreg htest hjump hround.ready
    (hsame ▸ Nat.le_trans hle hq₃)).bind ?_
  intro b s₂ v₂ hrests
  have hall := hround.trans hrests (Nat.le_refl k)
  cases b with
  | false => exact .pure hall
  | true =>
      refine .goesOn ?_
      refine (hbody.after hall (Nat.le_refl k) hq₃ id).imp (Nat.le_refl _) (Nat.le_refl _)
        (fun _ _ _ hpost => hpost.jump hL hback hrange) ?_
      rintro leave s₃ v₃ ⟨-, a, b, hexits, hpost⟩
      cases hexits
      cases leave <;> exact hpost

-- The same with something done first and something after every round.
theorem for_performs {p₁ : Nat} {init step : VarStmt} (hinit : VarCode L init p p₁)
    (hplain : init.Plain ∧ test.Plain ∧ step.Plain)
    (hreg : init.Every D.Regular ∧ test.Every D.Regular ∧ step.Every D.Regular)
    (htest : ExprCode L test p₁ q₁) (hjump : L.JumpIf false q₁ q₂ q)
    (hstep : VarCode L step q₃ q₄) (hback : L.Jump q₄ q p₁)
    (hbody : Performs L env D.strict (some (q, q₃)) may D.rounds k q₂ q₃ body) (hle : q₂ ≤ q₃) :
    Performs L env D.strict exits false D.rounds k p q (do
      D.execVar true init
      Exec.repeatWhile (do
        if ← D.condition true test then
          if ← Exec.goesOn body then
            D.execVar true step
            return true
          else return false
        else return false) D.rounds) := by
  intro s v hready hrange
  have hq₄ := Nat.le_trans (Nat.le_of_lt hback.lt) hrange
  have hq₃ := Nat.le_trans (Nat.le_of_lt hstep.lt) hq₄
  have hq₂ := Nat.le_trans hle hq₃
  have hp₁ := Nat.le_trans (Nat.le_of_lt (Nat.lt_trans htest.lt hjump.lt)) hq₂
  refine (var_executes hL k true hplain.1 hreg.1 hinit hready hp₁).bind ?_
  intro _ s₀ v₀ hstart
  refine (Executes.repeatWhile (I := Rests L k v p₁) (R := Rests L k v q) ?_ D.rounds
    hstart).weaken (Nat.le_refl _)
    (Nat.le_of_eq (Nat.min_self D.rounds).symm)
  intro s₁ v₁ hround
  have hsame := hround.rangeEnd env
  refine (condition_executes hL k true hplain.2.1 hreg.2.1 htest hjump hround.ready
    (hsame ▸ hq₂)).bind ?_
  intro b s₂ v₂ hrests
  have hall := hround.trans hrests (Nat.le_refl k)
  cases b with
  | false => exact .pure hall
  | true =>
      refine (Executes.goesOn (I := Rests L k v q₃) (R := Rests L k v q) ?_).bind ?_
      · refine (hbody.after hall (Nat.le_refl k) hq₃ id).imp (Nat.le_refl _) (Nat.le_refl _)
          (fun _ _ v' hpost => ⟨0, v', .refl v', hpost⟩) ?_
        rintro leave s₃ v₃ ⟨-, a, b, hexits, hpost⟩
        cases hexits
        cases leave <;> exact hpost
      · intro more s₃ v₃ hpost
        cases more with
        | false => exact .pure hpost
        | true =>
            have hsame := Rests.rangeEnd hpost env
            refine (var_executes hL k true hplain.2.2 hreg.2.2 hstep hpost.ready
              (hsame ▸ hq₄)).bind ?_
            intro _ s₄ v₄ hstepped
            obtain ⟨n, v₅, hpath, htop⟩ := (hpost.trans hstepped (Nat.le_refl k)).jump hL hback hrange
            exact ⟨n, v₅, Nat.zero_le _, hpath, htop⟩

theorem path_of_number {n : UInt8} {x : Float} {v : View} (hat : L.At p (.loadLocNoRef n) q)
    (hpc : v.pc = p) (hq : q ≤ Plain.rangeEnd env v)
    (h : v.locals[n.toNat]? = some (.number x)) :
    Path env 1 v (v.after q (.number x :: v.stack) v.outside) := by
  refine path_of_at hL hat hpc (Nat.lt_of_lt_of_le hat.lt hq) ?_ rfl
    (effect_load false (v := { v with pc := q }) h)
  intro y hy
  rw [h] at hy
  cases hy
  rfl

-- The comparison of a counter with its limit before every round.
theorem path_of_comparison {index limit : UInt8} {i top : Float} {t₁ t₂ t₃ t₄ : Nat} {s : Store}
    {v : View} (h₁ : L.At p (.loadLocNoRef index) t₁) (h₂ : L.At t₁ (.loadLocNoRef limit) t₂)
    (h₃ : L.At t₂ (.orderNum .lt) t₃) (h₄ : L.JumpIf false t₃ t₄ q) (hready : Ready L p s v)
    (hq : t₄ ≤ Plain.rangeEnd env v) (hindex : v.locals[index.toNat]? = some (.number i))
    (hlimit : v.locals[limit.toNat]? = some (.number top)) :
    ∃ n, Path env (3 + n) v (v.after (if i < top then t₄ else q) [] s.outside) := by
  have ht₃ := Nat.le_trans (Nat.le_of_lt h₄.lt) hq
  have ht₂ := Nat.le_trans (Nat.le_of_lt h₃.lt) ht₃
  have ht₁ := Nat.le_trans (Nat.le_of_lt h₂.lt) ht₂
  have hpath₁ := path_of_number hL h₁ hready.pc ht₁ hindex
  rw [hready.stack, hready.outside] at hpath₁
  have hpath₂ := path_of_number hL (v := v.after t₁ [.number i] s.outside) h₂ rfl ht₂ hlimit
  have hpath₃ : Path env 1 (v.after t₂ [.number top, .number i] s.outside)
      (v.after t₃ [.bool (decide (i < top))] s.outside) :=
    path_of_at hL h₃ rfl (Nat.lt_of_lt_of_le h₃.lt ht₃) trivial rfl rfl
  have hjump := follows_jumpIf hL (v := v.after t₃ [.bool (decide (i < top))] s.outside) h₄ rfl
    (Nat.lt_of_lt_of_le h₄.lt hq) rfl
  obtain ⟨n, v', hpath₄, rfl⟩ := hjump
  refine ⟨n, ?_⟩
  have hall := (hpath₁.trans (hpath₂.trans hpath₃)).trans hpath₄
  by_cases hlt : i < top
  · simpa [hlt] using hall
  · simpa [hlt] using hall

-- The counter goes up by one after every round.
theorem path_of_advance {m t n₁ n₂ n₃ n₄ : Nat} {index : UInt8} {i : Float} {s : Store}
    {v₀ v : View} (hindex : L.Slot (hiddenName "index" (m + 1)) index)
    (h₁ : L.At p (.loadLocNoRef index) n₁) (h₂ : L.At n₁ (.pushLong 1) n₂)
    (h₃ : L.At n₂ (.arithNum .add) n₃) (h₄ : L.At n₃ (.setLocNoRef index) n₄)
    (h₅ : L.Jump n₄ q t) (hrests : Rests L m v₀ p s v) (hq : q ≤ Plain.rangeEnd env v₀)
    (hvalue : v.locals[index.toNat]? = some (.number i)) :
    ∃ n v', Path env n v v' ∧ Rests L m v₀ t s v' ∧
      v'.locals[index.toNat]? = some (.number (i + Number.ofLong 1)) := by
  have hsame := hrests.rangeEnd env
  have hn₄ : n₄ ≤ Plain.rangeEnd env v := by
    rw [hsame]
    exact Nat.le_trans (Nat.le_of_lt h₅.lt) hq
  have hn₃ := Nat.le_trans (Nat.le_of_lt h₄.lt) hn₄
  have hn₂ := Nat.le_trans (Nat.le_of_lt h₃.lt) hn₃
  have hn₁ := Nat.le_trans (Nat.le_of_lt h₂.lt) hn₂
  have hpath₁ := path_of_number hL h₁ hrests.ready.pc hn₁ hvalue
  rw [hrests.ready.stack, hrests.ready.outside] at hpath₁
  have hpath₂ : Path env 1 (v.after n₁ [.number i] s.outside)
      (v.after n₂ [.number (Number.ofLong 1), .number i] s.outside) :=
    path_of_at hL h₂ rfl (Nat.lt_of_lt_of_le h₂.lt hn₂) trivial rfl rfl
  have hpath₃ : Path env 1 (v.after n₂ [.number (Number.ofLong 1), .number i] s.outside)
      (v.after n₃ [.number (i + Number.ofLong 1)] s.outside) :=
    path_of_at hL h₃ rfl (Nat.lt_of_lt_of_le h₃.lt hn₃) trivial rfl rfl
  obtain ⟨v₁, hpath₄, hstored, -, hnew⟩ := hrests.hide hL false
    (x := .number (i + Number.ofLong 1)) (o := s.outside) h₄ (by simp [hiddenWords]) hindex
    (Nat.lt_succ_self m) (hsame ▸ hn₄) (by simp) fun _ => rfl
  have hready := hstored.ready
  have hpath₅ := path_of_jump hL h₅ hready.pc (Nat.lt_of_lt_of_le h₅.lt (hstored.rangeEnd env ▸ hq))
  rw [hready.stack, hready.outside] at hpath₅
  exact ⟨_, _, (hpath₁.trans (hpath₂.trans (hpath₃.trans hpath₄))).trans hpath₅,
    hstored.trans (hready.rests s.outside) (Nat.le_refl m), hnew⟩

-- The counter starts from zero.
theorem path_of_zero {m t : Nat} {index : UInt8} {s : Store} {v : View}
    (hindex : L.Slot (hiddenName "index" (m + 1)) index) (hzero : L.At p (.pushLong 0) q₁)
    (hset : L.At q₁ (.setLocNoRef index) t) (hready : Ready L p s v)
    (ht : t ≤ Plain.rangeEnd env v) :
    ∃ v₁, Path env 2 v v₁ ∧ Rests L m v t s v₁ ∧
      v₁.locals[index.toNat]? = some (.number (Number.ofLong 0)) := by
  have hq₁ := Nat.le_trans (Nat.le_of_lt hset.lt) ht
  have hpath₀ : Path env 1 v (v.after q₁ [.number (Number.ofLong 0)] s.outside) := by
    rw [← hready.outside, ← hready.stack]
    exact path_of_at hL hzero hready.pc (Nat.lt_of_lt_of_le hzero.lt hq₁) trivial rfl rfl
  obtain ⟨v₁, hpath₁, hstart, -, hnew⟩ := (Rests.refl hready).hide hL false
    (x := .number (Number.ofLong 0)) (o := s.outside) hset (by simp [hiddenWords]) hindex
    (Nat.lt_succ_self m) ht (by simp) fun _ => rfl
  exact ⟨v₁, hpath₀.trans hpath₁, hstart, hnew⟩

-- A loop that counts a hidden variable up. `step` is done with its value before the body.
theorem counted_executes (step : Float → Exec Unit) {m k' j : Nat} {what : String}
    {index limit : UInt8} {top : Float} {item : Nat → Nat → Prop} {stmts : List Stmt} {s : Store}
    {v : View}
    (h : CountedCode L index limit item (m + 1) stmts p q k')
    (hindex : L.Slot (hiddenName "index" (m + 1)) index) (hw : what ∈ hiddenWords) (hj : j ≤ m)
    (hlimit : L.Slot (hiddenName what j) limit)
    (hvalue : v.locals[limit.toNat]? = some (.number top))
    (hle : ∀ t₄ t₅, item t₄ t₅ → t₄ ≤ t₅)
    (hitem : ∀ i t₄ t₅ s' v', item t₄ t₅ → t₅ ≤ Plain.rangeEnd env v → Rests L m v t₄ s' v' →
      v'.locals[index.toNat]? = some (.number i) →
      Executes env D.strict D.rounds 0 v' (step i s') (fun _ => Rests L (m + 1) v' t₅)
        (Escapes L m v exits false))
    (hbody : ∀ t₅ next, StmtsCode L (some (q, next)) (m + 1) stmts t₅ next k' →
      Performs L env D.strict (some (q, next)) may D.rounds (m + 1) t₅ next body)
    (hready : Ready L p s v) (hq : q ≤ Plain.rangeEnd env v) :
    Executes env D.strict D.rounds 0 v
      (Exec.countUp top (fun i => do step i; Exec.goesOn body) D.rounds (Number.ofLong 0) s)
      (fun _ => Rests L m v q) (Escapes L m v exits false) := by
  cases h with
  | @mk _ q₁ _ t t₁ _ t₂ t₃ t₄ _ _ next _ _ t₅ _ n₁ n₂ n₃ n₄ hzero hset h₁ h₂ h₃ h₄ hthis hcode h₅ h₆ h₇
      h₈ h₉ =>
      have hn₁ := Nat.le_trans (Nat.le_of_lt (Nat.lt_trans h₆.lt (Nat.lt_trans h₇.lt
        (Nat.lt_trans h₈.lt h₉.lt)))) hq
      have hnext := Nat.le_trans (Nat.le_of_lt h₅.lt) hn₁
      have ht₅ := Nat.le_trans hcode.le hnext
      have ht₄ := Nat.le_trans (hle t₄ t₅ hthis) ht₅
      have ht := Nat.le_trans (Nat.le_of_lt (Nat.lt_trans h₁.lt (Nat.lt_trans h₂.lt
        (Nat.lt_trans h₃.lt h₄.lt)))) ht₄
      obtain ⟨v₁, hpath₁, hstart, hnew⟩ := path_of_zero hL hindex hzero hset hready ht
      have htop : ∀ {s' v'}, Rests L m v t s' v' → v'.locals[limit.toNat]? = some (.number top) :=
        fun hrests => (hrests.hidden what j limit hw hj hlimit).trans hvalue
      have hlong : D.rounds ≤ 2 + min D.rounds D.rounds := by omega
      refine (Executes.prepend hpath₁ (Executes.countUp
        (I := fun i s' v' => Rests L m v t s' v' ∧ v'.locals[index.toNat]? = some (.number i))
        (R := Rests L m v q) ?_ ?_ D.rounds ⟨hstart, hnew⟩)).weaken (Nat.zero_le _) hlong
      · rintro i s' v' ⟨hrests, hi⟩ hge
        have hsame := hrests.rangeEnd env
        obtain ⟨n, hpath⟩ := path_of_comparison hL h₁ h₂ h₃ h₄ hrests.ready (hsame ▸ ht₄) hi
          (htop hrests)
        rw [if_neg hge] at hpath
        exact ⟨_, _, hpath, hrests.trans (hrests.ready.rests s'.outside) (Nat.le_refl m)⟩
      · rintro i s' v' ⟨hrests, hi⟩ hlt
        have hsame := hrests.rangeEnd env
        obtain ⟨n, hpath⟩ := path_of_comparison hL h₁ h₂ h₃ h₄ hrests.ready (hsame ▸ ht₄) hi
          (htop hrests)
        rw [if_pos hlt] at hpath
        have hround := hrests.trans (hrests.ready.rests (q := t₄) s'.outside) (Nat.le_refl m)
        refine (Executes.prepend hpath (?_ : Executes env D.strict D.rounds 0 _ _ _ _)).weaken (by omega)
          (by omega)
        refine (hitem i t₄ t₅ s' _ hthis ht₅ hround hi).bind ?_
        intro _ s₂ v₂ hafter
        have hall := hround.trans hafter (Nat.le_succ m)
        have hkept : ∀ {s₃ v₃ t}, Rests L (m + 1) v₂ t s₃ v₃ → Rests L m v t s₃ v₃ ∧
            v₃.locals[index.toNat]? = some (.number i) := fun hpost => by
          refine ⟨hall.trans hpost (Nat.le_succ m), ?_⟩
          rw [hpost.hidden "index" (m + 1) index (by simp [hiddenWords]) (Nat.le_refl _) hindex,
            hafter.hidden "index" (m + 1) index (by simp [hiddenWords]) (Nat.le_refl _) hindex]
          exact hi
        refine (Executes.goesOn (R := Rests L m v q) (I := fun s₃ v₃ => Rests L m v next s₃ v₃ ∧
          v₃.locals[index.toNat]? = some (.number i)) ?_).imp (Nat.le_refl _) (Nat.le_refl _) ?_
            fun _ _ _ hj => hj
        · refine (hbody t₅ next hcode s₂ v₂ hafter.ready (hall.rangeEnd env ▸ hnext)).imp
            (Nat.le_refl _) (Nat.le_refl _) (fun _ _ v' hpost => ⟨0, v', .refl v', hkept hpost⟩) ?_
          rintro leave s₃ v₃ ⟨-, a, b, hexits, hpost⟩
          cases hexits
          cases leave with
          | true => exact (hkept hpost).1
          | false => exact hkept hpost
        · intro more s₃ v₃ hpost
          cases more with
          | true => exact path_of_advance hL hindex h₅ h₆ h₇ h₈ h₉ hpost.1 hq hpost.2
          | false => exact ⟨0, v₃, .refl v₃, hpost⟩

theorem roundCount_executes {count : Expr} {s : Store} {v : View} {long : Nat}
    {J : Bool → Store → View → Prop} (hplain : count.Plain) (hreg : count.Every D.Regular)
    (hcount : ExprCode L count p q₁) (hcheck : CheckCode L .double count.ty q₁ q)
    (hready : Ready L p s v) (hq : q ≤ Plain.rangeEnd env v) :
    Executes env D.strict long 0 v (D.roundCount count s)
      (fun x s' v' => s'.vars = s.vars ∧ v' = v.after q [x] s'.outside) J := by
  refine (value_executes hL true hplain hreg hcount hready.pc hready.stack hready.outside
    hready.holds (Nat.le_trans hcheck.le hq)).bind ?_
  rintro x ⟨_, o⟩ _ ⟨rfl, rfl, -⟩
  refine (Executes.perform (s := ⟨s.vars, o⟩)
    (check_follows hL (v := v.after q₁ [x] o) hcheck rfl hq rfl)).bind ?_
  rintro _ ⟨_, o'⟩ _ ⟨rfl, rfl⟩
  exact .pure ⟨rfl, rfl⟩

-- A limit that is no number is found out by the first comparison, if it can be stored at all.
theorem limit_executes {m j : Nat} {what : String} {index limit : UInt8}
    {item : Nat → Nat → Prop} {stmts : List Stmt} {k' p' : Nat} {s : Store} {v : View} {x : Value}
    {o : Outside} {long : Nat} {J : Bool → Store → View → Prop}
    (hset : L.At p (.setLocNoRef limit) q₁)
    (hcode : CountedCode L index limit item (m + 1) stmts q₁ q k')
    (hle : ∀ t₄ t₅, item t₄ t₅ → t₄ ≤ t₅)
    (hindex : L.Slot (hiddenName "index" (m + 1)) index) (hw : what ∈ hiddenWords)
    (hiter : what ≠ "iter") (hj : j + 1 ≤ m) (hlimit : L.Slot (hiddenName what (j + 1)) limit)
    (hready : Ready L p' s v) (hq : q ≤ Plain.rangeEnd env v) :
    Executes env D.strict long 0 (v.after p [x] o) (Dialect.limit x ⟨s.vars, o⟩)
      (fun top s' v' => x = .number top ∧ s' = ⟨s.vars, o⟩ ∧ v' = v.after p [x] o) J := by
  have hq₁ := Nat.le_trans (Nat.le_of_lt (hcode.lt hle fun _ _ _ h => h.le)) hq
  have hstray : x.isRef = true → Strays env (v.after p [x] o) := fun hx =>
    strays_of_store hL (v := v.after p [x] o) hset rfl hq₁ rfl hx
  have hfails : x.isRef = false → (∀ y, x ≠ .number y) →
      Fails env (v.after p [x] o) .notNumbers o := by
    intro hx hnumber
    obtain ⟨v₁, hpath₁, hstart, -, hnew⟩ := (Rests.refl (k := j) hready).hide hL false (x := x)
      (o := o) hset hw hlimit (Nat.lt_succ_self j) hq₁ (by simp [hiter]) fun _ => hx
    cases hcode with
    | @mk _ q₂ _ t t₁ _ t₂ t₃ t₄ _ _ next _ _ t₅ _ _ _ _ _ hzero hset' h₁ h₂ h₃ h₄ hthis hbody h₅ h₆
        h₇ h₈ h₉ =>
        have ht₃ : t₃ ≤ Plain.rangeEnd env v := by
          have := h₄.lt
          have := hle t₄ t₅ hthis
          have := hbody.le
          have := h₅.lt
          have := h₆.lt
          have := h₇.lt
          have := h₈.lt
          have := h₉.lt
          omega
        have ht₂ := Nat.le_trans (Nat.le_of_lt h₃.lt) ht₃
        have ht₁ := Nat.le_trans (Nat.le_of_lt h₂.lt) ht₂
        have ht := Nat.le_trans (Nat.le_of_lt h₁.lt) ht₁
        rw [← hstart.rangeEnd env] at ht ht₁ ht₂ ht₃
        obtain ⟨v₂, hpath₂, hrests, hcounter⟩ := path_of_zero hL hindex hzero hset' hstart.ready ht
        have hkept : v₂.locals[limit.toNat]? = some x :=
          (hrests.hidden what (j + 1) limit hw hj hlimit).trans hnew
        rw [← hrests.rangeEnd env] at ht₁ ht₂ ht₃
        have hpath₃ := path_of_number hL h₁ hrests.ready.pc ht₁ hcounter
        rw [hrests.ready.stack, hrests.ready.outside] at hpath₃
        have hpath₄ : Path env 1 (v₂.after t₁ [.number (Number.ofLong 0)] o)
            (v₂.after t₂ [x, .number (Number.ofLong 0)] o) := by
          refine path_of_at hL h₂ rfl (Nat.lt_of_lt_of_le h₂.lt ht₂) ?_ rfl
            (effect_load false (v := v₂.after t₂ [.number (Number.ofLong 0)] o) hkept)
          intro y hy
          rw [View.after_locals, hkept] at hy
          cases hy
          exact hx
        have hcompare : Plain.effect env (.orderNum .lt)
            (v₂.after t₃ [x, .number (Number.ofLong 0)] o) = .error .notNumbers (v₂.after t₃ [] o) := by
          cases x with
          | number y => exact absurd rfl (hnumber y)
          | _ => rfl
        have hfault := fails_of_at hL (v := v₂.after t₂ [x, .number (Number.ofLong 0)] o) h₃ rfl
          (Nat.lt_of_lt_of_le h₃.lt ht₃) trivial hcompare
        exact Fails.prepend (hpath₁.trans (hpath₂.trans (hpath₃.trans hpath₄))) hfault
  cases x with
  | number top => exact .pure ⟨rfl, rfl, rfl⟩
  | null => exact hfails rfl fun _ h => by cases h
  | bool b => exact hfails rfl fun _ h => by cases h
  | text t => exact hstray rfl
  | object r => exact hstray rfl

-- A loop with a number of rounds, counted by a variable of its own.
theorem countLoop_performs {k' : Nat} {limit index : UInt8} {count : Expr} {stmts : List Stmt}
    (hplain : count.Plain) (hreg : count.Every D.Regular)
    (hlimit : L.Slot (hiddenName "limit" (k + 1)) limit)
    (hindex : L.Slot (hiddenName "index" (k + 2)) index) (hcount : ExprCode L count p q₁)
    (hcheck : CheckCode L .double count.ty q₁ q₂) (hset : L.At q₂ (.setLocNoRef limit) q₃)
    (hcode : CountedCode L index limit Eq (k + 2) stmts q₃ q k')
    (hbody : ∀ t next, StmtsCode L (some (q, next)) (k + 2) stmts t next k' →
      Performs L env D.strict (some (q, next)) may D.rounds (k + 2) t next body) (hle : q₃ ≤ q) :
    Performs L env D.strict exits false D.rounds k p q (do
      let top ← Dialect.limit (← D.roundCount count)
      Exec.countUp top (fun _ => Exec.goesOn body) D.rounds (Number.ofLong 0)) := by
  intro s v hready hq
  have hq₃ := Nat.le_trans hle hq
  refine (roundCount_executes hL hplain hreg hcount hcheck hready
    (Nat.le_trans (Nat.le_of_lt hset.lt) hq₃)).bind ?_
  rintro x ⟨_, o⟩ _ ⟨rfl, rfl⟩
  refine (limit_executes hL hset hcode (fun t₄ t₅ h => Nat.le_of_eq h) hindex
    (by simp [hiddenWords]) (by simp) (Nat.le_refl _) hlimit hready hq).bind ?_
  rintro top _ _ ⟨rfl, rfl, rfl⟩
  obtain ⟨v₁, hpath, hstart, -, hnew⟩ := (Rests.refl hready).hide hL false (x := .number top)
    (o := o) hset (by simp [hiddenWords]) hlimit (Nat.lt_succ_self k) hq₃ (by simp) fun _ => rfl
  have hloop : Executes env D.strict D.rounds 0 v₁
      (Exec.countUp top (fun _ => Exec.goesOn body) D.rounds (Number.ofLong 0) ⟨s.vars, o⟩)
      (fun _ => Rests L (k + 1) v₁ q) (Escapes L (k + 1) v₁ exits false) := by
    refine counted_executes hL (fun _ => pure ()) hcode hindex (by simp [hiddenWords])
      (Nat.le_refl _) hlimit hnew (fun t₄ t₅ h => Nat.le_of_eq h) ?_ hbody hstart.ready (hstart.rangeEnd env ▸ hq)
    rintro i t₄ t₅ s' v' rfl - hrests -
    exact .pure (.refl hrests.ready)
  exact (Executes.behind hpath hloop).imp (Nat.le_refl _) (Nat.le_refl _)
    (fun _ _ v' hpost => ⟨0, v', .refl v', hstart.trans hpost (Nat.le_succ k)⟩)
    fun leave s' v' hescapes => hescapes.after hstart (Nat.le_succ k) id

theorem itemCount_executes {how : Iteration} {x : Value} {s : Store} {v : View} {long : Nat}
    {J : Bool → Store → View → Prop} (h : CountCode L how p q) (hpc : v.pc = p)
    (hstack : v.stack = [x]) (hout : v.outside = s.outside) (hq : q ≤ Plain.rangeEnd env v) :
    Executes env D.strict long 0 v (D.itemCount how x s)
      (fun y s' v' => s'.vars = s.vars ∧ v' = v.after q [y] s'.outside) J := by
  cases h with
  | members hat =>
      simp only [Dialect.itemCount]
      refine .member fun d hd hid _ => ?_
      have hread := readProperty_follows hL hat hpc hq hd hid hstack
      rw [← Eval.ofCalc_bind, hout] at hread
      rw [Exec.perform_bind]
      exact .perform hread
  | @dynamic index _ q₁ _ htext hat hcheck =>
      have hq₁ := Nat.le_trans (Nat.le_of_lt hcheck.lt) hq
      have hread := readNamed_follows hL htext hat hpc hq₁ hstack
      rw [hout] at hread
      simp only [Dialect.itemCount]
      refine (Executes.perform hread).bind ?_
      rintro y ⟨_, o⟩ _ ⟨rfl, rfl⟩
      have hguard : Follows env D.strict (v.after q₁ [y] o)
          (Eval.ofCalc (Calc.require D.registry .double y) o) fun _ o' v' => v' = v.after q [y] o' := by
        refine follows_quiet hL (v := v.after q₁ [y] o) hcheck rfl (Nat.lt_of_lt_of_le hcheck.lt hq)
          trivial rfl ?_
        rw [hL.registry, ← hL.machine]
        rfl
      refine (Executes.perform (s := ⟨s.vars, o⟩) hguard).bind ?_
      rintro _ ⟨_, o'⟩ _ ⟨rfl, rfl⟩
      exact .pure ⟨rfl, rfl⟩

theorem itemAt_executes {how : Iteration} {item : String} {iter index : UInt8} {x : Value}
    {i : Float} {s : Store} {v : View} {J : Bool → Store → View → Prop} {long : Nat}
    (h : ItemCode L item iter index how p q) (hname : PlainName item) (hready : Ready L p s v)
    (hq : q ≤ Plain.rangeEnd env v) (hiter : v.locals[iter.toNat]? = some x)
    (hindex : v.locals[index.toNat]? = some (.number i)) :
    Executes env D.strict long 0 v ((do D.assign item (← D.itemAt how x i)) s)
      (fun _ => Rests L k v q) J := by
  have hloads : ∀ {q₁ q₂}, L.At p (.loadLoc iter) q₁ → L.At q₁ (.loadLocNoRef index) q₂ →
      q₂ ≤ Plain.rangeEnd env v →
      Path env 2 v (v.after q₂ [.number i, x] s.outside) := fun {q₁ q₂} h₁ h₂ hq₂ => by
    have hq₁ := Nat.le_trans (Nat.le_of_lt h₂.lt) hq₂
    have hpath₁ : Path env 1 v (v.after q₁ [x] s.outside) := by
      rw [← hready.outside, ← hready.stack]
      exact path_of_at hL h₁ hready.pc (Nat.lt_of_lt_of_le h₁.lt hq₁) trivial rfl
        (effect_load true (v := { v with pc := q₁ }) hiter)
    exact hpath₁.trans (path_of_number hL (v := v.after q₁ [x] s.outside) h₂ rfl hq₂ hindex)
  have hput : ∀ {p' y o}, L.Store item p' q → Executes env D.strict long 0 (v.after p' [y] o)
      (D.assign item y ⟨s.vars, o⟩) (fun _ => Rests L k v q) J := fun {p' y o} hstore =>
    (assign_executes hL hstore hname (hready.after o) hq rfl).imp (Nat.le_refl _)
      (Nat.le_refl _)
      (fun _ _ v' hrests => ⟨0, v', .refl v', (hready.rests o).trans hrests (Nat.le_refl k)⟩)
      fun _ _ _ hj => hj
  cases h with
  | @members _ q₁ q₂ getItem q₃ _ count h₁ h₂ hat hstore =>
      have hq₃ := Nat.le_trans (Nat.le_of_lt hstore.lt) hq
      have hpath := hloads h₁ h₂ (Nat.le_trans (Nat.le_of_lt hat.lt) hq₃)
      simp only [Dialect.itemAt, bind_assoc]
      refine .member fun d hd hid hparams => ?_
      have hcall := callMethod_follows hL (v := v.after q₂ [.number i, x] s.outside) hat rfl hq₃ hd
        hid (by simpa using hparams : d.params.length = [Value.number i].length) rfl
      refine (Executes.perform (Follows.prepend hpath hcall)).bind ?_
      rintro y ⟨_, o⟩ _ ⟨rfl, rfl⟩
      exact hput hstore
  | @dynamic _ q₁ q₂ name q₃ _ h₁ h₂ htext hat hstore =>
      have hq₃ := Nat.le_trans (Nat.le_of_lt hstore.lt) hq
      have hpath := hloads h₁ h₂ (Nat.le_trans (Nat.le_of_lt hat.lt) hq₃)
      have hcall := callNamed_follows hL (v := v.after q₂ [.number i, x] s.outside) htext
        hat rfl hq₃ (by simp : [Value.number i].length < 65536) rfl
      refine (Executes.perform (Follows.prepend hpath hcall)).bind ?_
      rintro y ⟨_, o⟩ _ ⟨rfl, rfl⟩
      exact hput hstore

-- A loop over the items of a source. The source and its number of items are kept in variables of
-- their own, and the source is given up behind the loop.
theorem eachLoop_performs {k' q₅ q₆ q₇ : Nat} {iter count index : UInt8} {source : Expr}
    {item : String} {how : Iteration} {stmts : List Stmt} (hname : PlainName item)
    (hplain : source.Plain) (hreg : source.Every D.Regular)
    (hiter : L.Slot (hiddenName "iter" (k + 1)) iter)
    (hcount : L.Slot (hiddenName "count" (k + 2)) count)
    (hindex : L.Slot (hiddenName "index" (k + 3)) index) (hsource : ExprCode L source p q₁)
    (hset : L.At q₁ (.setLoc iter) q₂) (hload : L.At q₂ (.loadLoc iter) q₃)
    (hitems : CountCode L how q₃ q₄) (hset' : L.At q₄ (.setLocNoRef count) q₅)
    (hcode : CountedCode L index count (ItemCode L item iter index how) (k + 3) stmts q₅ q₆ k')
    (hnull : L.At q₆ .pushNull q₇) (hdrop : L.At q₇ (.setLoc iter) q)
    (hbody : ∀ t next, StmtsCode L (some (q₆, next)) (k + 3) stmts t next k' →
      Performs L env D.strict (some (q₆, next)) may D.rounds (k + 3) t next body) (hle : q₅ ≤ q₆) :
    Performs L env D.strict exits false D.rounds k p q (do
      let object ← Exec.value fun vars => D.eval true vars source
      let top ← Dialect.limit (← D.itemCount how object)
      Exec.countUp top (fun i => do
        D.assign item (← D.itemAt how object i)
        Exec.goesOn body) D.rounds (Number.ofLong 0)) := by
  intro s v hready hq
  have hq₇ := Nat.le_trans (Nat.le_of_lt hdrop.lt) hq
  have hq₆ := Nat.le_trans (Nat.le_of_lt hnull.lt) hq₇
  have hq₅ := Nat.le_trans hle hq₆
  have hq₄ := Nat.le_trans (Nat.le_of_lt hset'.lt) hq₅
  have hq₃ := Nat.le_trans (Nat.le_of_lt hitems.lt) hq₄
  have hq₂ := Nat.le_trans (Nat.le_of_lt hload.lt) hq₃
  refine (value_executes hL true hplain hreg hsource hready.pc hready.stack hready.outside
    hready.holds (Nat.le_trans (Nat.le_of_lt hset.lt) hq₂)).bind ?_
  rintro x ⟨_, o⟩ _ ⟨rfl, rfl, -⟩
  obtain ⟨v₁, hpath₁, hkept, -, hiter₁⟩ := (Rests.refl hready).hide hL true (x := x) (o := o) hset
    (by simp [hiddenWords]) hiter (Nat.lt_succ_self k) hq₂ (by simp) fun h => absurd rfl h
  have hready₁ := hkept.ready
  have hsame₁ := hkept.rangeEnd env
  have hpath₂ : Path env 1 v₁ (v₁.after q₃ [x] o) := by
    rw [← hready₁.stack, show o = v₁.outside from hready₁.outside.symm]
    exact path_of_at hL hload hready₁.pc (Nat.lt_of_lt_of_le hload.lt (hsame₁ ▸ hq₃)) trivial rfl
      (effect_load true (v := { v₁ with pc := q₃ }) hiter₁)
  refine .behind (hpath₁.trans hpath₂) ?_
  refine (itemCount_executes (s := ⟨s.vars, o⟩) hL (v := v₁.after q₃ [x] o) hitems rfl rfl rfl
    (hsame₁ ▸ hq₄)).bind ?_
  rintro y ⟨_, o'⟩ _ ⟨rfl, rfl⟩
  refine (limit_executes hL hset' hcode (fun t₄ t₅ h => Nat.le_of_lt h.lt) hindex
    (by simp [hiddenWords]) (by simp) (Nat.le_refl _) hcount hready₁ (hsame₁ ▸ hq₆)).bind ?_
  rintro top _ _ ⟨rfl, rfl, rfl⟩
  obtain ⟨v₂, hpath₃, hstart, -, htop⟩ := (Rests.refl (k := k + 1) hready₁).hide hL false
    (x := .number top) (o := o') hset' (by simp [hiddenWords]) hcount (Nat.lt_succ_self (k + 1))
    (hsame₁ ▸ hq₅) (by simp) fun _ => rfl
  have hsame₂ := hstart.rangeEnd env
  have hiter₂ : v₂.locals[iter.toNat]? = some x :=
    (hstart.hidden "iter" (k + 1) iter (by simp [hiddenWords]) (Nat.le_refl _) hiter).trans hiter₁
  have hloop : Executes env D.strict D.rounds 0 v₂ (Exec.countUp top (fun i => do
        (do D.assign item (← D.itemAt how x i) : Exec Unit)
        Exec.goesOn body) D.rounds (Number.ofLong 0) ⟨s.vars, o'⟩)
      (fun _ => Rests L (k + 2) v₂ q₆) (Escapes L (k + 2) v₂ exits false) := by
    refine counted_executes hL (fun i => do D.assign item (← D.itemAt how x i)) hcode hindex
      (by simp [hiddenWords]) (Nat.le_refl _) hcount htop (fun t₄ t₅ h => Nat.le_of_lt h.lt) ?_ hbody
      hstart.ready (hsame₂ ▸ hsame₁ ▸ hq₆)
    intro i t₄ t₅ s' v' hitem ht₅ hrests hi
    refine itemAt_executes hL hitem hname hrests.ready (hrests.rangeEnd env ▸ ht₅) ?_ hi
    rw [hrests.hidden "iter" (k + 1) iter (by simp [hiddenWords]) (Nat.le_succ _) hiter]
    exact hiter₂
  simp only [bind_assoc] at hloop
  refine (Executes.behind hpath₃ hloop).imp (Nat.le_refl _) (Nat.le_refl _) ?_ ?_
  · -- The source is given up.
    intro _ s' v' hpost
    have hall := hkept.trans (hstart.trans hpost (Nat.le_succ _)) (Nat.le_succ _)
    have hpath₄ : Path env 1 v' (v'.after q₇ [.null] s'.outside) := by
      rw [← hall.ready.stack, ← hall.ready.outside]
      exact path_of_at hL hnull hall.ready.pc
        (Nat.lt_of_lt_of_le hnull.lt (hall.rangeEnd env ▸ hq₇)) trivial rfl rfl
    obtain ⟨v₃, hpath₅, hend, -, -⟩ := hall.hide hL true (x := .null) (o := s'.outside) hdrop
      (by simp [hiddenWords]) hiter (Nat.lt_succ_self k) hq (by simp) fun _ => rfl
    exact ⟨2, v₃, hpath₄.trans hpath₅, hend⟩
  · intro leave s' v' hescapes
    exact hescapes.after (hkept.trans hstart (Nat.le_succ _)) (by omega) id

omit hL in
-- The machine counts the rounds itself. Where there are none, or nothing to do in them, it goes on
-- behind the loop at once.
def View.enter (start stop count : Nat) (v : View) : View :=
  if count = 0 || start = stop then { v with pc := stop }
  else { v with loops := ⟨start, stop, count - 1⟩ :: v.loops }

theorem enterLoop_eq {start stop count : Nat} {length : Int32} {v : View} (hlength : 0 ≤ length.toInt)
    (hstop : start + length.toInt.toNat = stop) (hsize : stop ≤ L.script.code.size)
    (hpc : v.pc = start) : Plain.enterLoop env count length v = .ok () (v.enter start stop count) := by
  have hin : (decide (length.toInt < 0) || decide (env.script.code.size < stop)) = false := by
    rw [hL.script]
    simp only [Bool.or_eq_false_iff, decide_eq_false_iff_not]
    omega
  subst hpc
  simp only [Plain.enterLoop, bind, EStateM.bind, get, getThe, MonadStateOf.get, EStateM.get, hstop,
    hin, Bool.false_eq_true, if_false, View.enter]
  split <;> rfl

theorem machineRounds_executes {count : Expr} {length : Int32} {s : Store} {v : View} {long : Nat}
    {J : Bool → Store → View → Prop} {start : Nat} (hplain : count.Plain)
    (hreg : count.Every D.Regular) (h : HeadCode L count length p start)
    (hlength : 0 ≤ length.toInt) (hstop : start + length.toInt.toNat = q)
    (hsize : q ≤ L.script.code.size) (hready : Ready L p s v) (hq : q ≤ Plain.rangeEnd env v) :
    Executes env D.strict long 0 v (D.machineRounds count s) (fun n s' v' =>
      s'.vars = s.vars ∧ v' = (v.after start [] s'.outside).enter start q n) J := by
  have hstart : start ≤ Plain.rangeEnd env v := by omega
  cases h with
  | @literal n _ _ hn hat =>
      simp only [Dialect.machineRounds, hn]
      refine ⟨1, _, Nat.zero_le _, path_of_at hL hat hready.pc (Nat.lt_of_lt_of_le hat.lt hstart)
        trivial rfl (enterLoop_eq hL hlength hstop hsize rfl), rfl, ?_⟩
      rw [← hready.outside, ← hready.stack]
      rfl
  | @computed _ q₁ q₂ _ hn hcount hcheck hat =>
      have hq₂ := Nat.le_trans (Nat.le_of_lt hat.lt) hstart
      simp only [Dialect.machineRounds, hn]
      refine (value_executes hL true hplain hreg hcount hready.pc hready.stack hready.outside
        hready.holds (Nat.le_trans hcheck.le hq₂)).bind ?_
      rintro x ⟨_, o⟩ _ ⟨rfl, rfl, -⟩
      refine (Executes.perform (s := ⟨s.vars, o⟩)
        (check_follows hL (v := v.after q₁ [x] o) hcheck rfl hq₂ rfl)).bind ?_
      rintro _ ⟨_, o'⟩ _ ⟨rfl, rfl⟩
      have heffect : Plain.effect env (.loopNum length) { v.after q₂ [x] o' with pc := start } =
          (Plain.ofCalc (Calc.asCount x) >>= fun n =>
            modify (View.enter start q (Number.wholesBelow n))) (v.after start [] o') := by
        have hpop : Plain.effect env (.loopNum length) { v.after q₂ [x] o' with pc := start } =
            (Plain.ofCalc (Calc.asCount x) >>= fun n =>
              Plain.enterLoop env (Number.wholesBelow n) length) (v.after start [] o') := rfl
        rw [hpop]
        simp only [bind, EStateM.bind, Plain.ofCalc]
        cases Calc.asCount x (v.after start [] o').outside with
        | ok n o₂ => exact enterLoop_eq hL (v := v.after start [] o₂) hlength hstop hsize rfl
        | error f o₂ => rfl
      have henter := follows_apply hL (v := v.after q₂ [x] o') hat rfl
        (Nat.lt_of_lt_of_le hat.lt hstart) trivial rfl heffect
      refine (Executes.perform (s := ⟨s.vars, o'⟩) henter).bind ?_
      rintro n ⟨_, o₂⟩ _ ⟨rfl, rfl⟩
      exact .pure ⟨rfl, rfl⟩

omit hL in
-- The end of a round of a loop that the machine counts.
theorem path_of_round (env : RunEnv) {start left q : Nat} {v : View} {outer : List LoopFrame}
    (hpc : v.pc = q) (hloops : v.loops = ⟨start, q, left⟩ :: outer) :
    Path env 1 v (match left with
      | n + 1 => { v with pc := start, loops := ⟨start, q, n⟩ :: outer }
      | 0 => { v with pc := q, loops := outer }) := by
  have hend : ¬v.pc < Plain.rangeEnd env v := by
    simp only [Plain.rangeEnd, hloops, hpc, Nat.lt_irrefl, not_false_eq_true]
  refine .single (fun hlt => absurd hlt hend) ?_
  simp only [Plain.step, hend, if_false, hloops]
  cases left <;> rfl

-- While rounds are left, the loop is the innermost one of the machine.
def RoundsRest (L : Layout) (k : Nat) (v : View) (start q : Nat) : Nat → Store → View → Prop
  | 0 => Rests L k v q
  | left + 1 => Rests L k { v with loops := ⟨start, q, left⟩ :: v.loops } start

theorem machineLoop_performs {count : Expr} {length : Int32} {start : Nat} (hplain : count.Plain)
    (hreg : count.Every D.Regular) (h : HeadCode L count length p start)
    (hlength : 0 ≤ length.toInt) (hstop : start + length.toInt.toNat = q)
    (hsize : q ≤ L.script.code.size)
    (hbody : Performs L env D.strict exits false D.rounds k start q body)
    (hempty : start = q → body = (return)) :
    Performs L env D.strict exits false D.rounds k p q
      (do Exec.times body (← D.machineRounds count)) := by
  intro s v hready hq
  refine (machineRounds_executes hL hplain hreg h hlength hstop hsize hready hq).bind ?_
  rintro n ⟨_, o⟩ _ ⟨rfl, rfl⟩
  by_cases hskip : n = 0 || start = q
  · have hnothing : Exec.times body n = (return) := by
      rcases Bool.or_eq_true_iff.mp hskip with hzero | hsame
      · rw [of_decide_eq_true hzero]
        rfl
      · rw [hempty (of_decide_eq_true hsame)]
        exact Exec.times_pure n
    rw [hnothing, View.enter, if_pos hskip]
    exact .pure (hready.rests o)
  · rw [View.enter, if_neg hskip]
    simp only [Bool.or_eq_true, decide_eq_true_eq, not_or] at hskip
    obtain ⟨m, rfl⟩ := Nat.exists_eq_succ_of_ne_zero hskip.1
    refine Executes.times (I := RoundsRest L k v start q) ?_ (m + 1) ?_
    · intro left s' v' hrests
      refine (hbody.after hrests (Nat.le_refl k) (Nat.le_refl q) id).imp (Nat.le_refl _)
        (Nat.le_refl _) ?_ fun _ _ _ hescapes => absurd hescapes.1 (by simp)
      intro _ s₂ v₂ hpost
      have hpath := path_of_round env hpost.ready.pc hpost.loops
      cases left with
      | zero => exact ⟨1, _, hpath, { hpost.ready with pc := rfl }, rfl, hpost.size, hpost.hidden⟩
      | succ left => exact ⟨1, _, hpath, { hpost.ready with pc := rfl }, rfl, hpost.size, hpost.hidden⟩
    · have hstart := hready.after (q := start) o
      exact ⟨{ hstart with pc := rfl }, rfl, rfl, fun _ _ _ _ _ _ => rfl⟩

end

end HostScript
