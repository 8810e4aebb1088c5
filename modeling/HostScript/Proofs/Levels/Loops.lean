import HostScript.Proofs.Levels.Statements

namespace HostScript

namespace Levels

variable {T : Levels} {may : Bool} {e₀ e₁ : Option (Nat × Nat)} {n : Nat} {m : Machine}
  {k₀ k₁ j₀ j₁ p₀ p₁ q₀ q₁ : Nat} {l₀ l₁ : Array Cell} {loops : List LoopFrame}
  {s₀ s₁ index₀ index₁ limit₀ limit₁ iter₀ iter₁ : UInt8} {what : String}

-- Both runs are in a loop with counters that are the same.
structure Counting (T : Levels) (k₀ k₁ : Nat) (index₀ index₁ : UInt8) (l₀ l₁ l₀' l₁' : Array Cell) :
    Prop where
  after : T.After k₀ k₁ l₀ l₁ l₀' l₁'
  count : l₁'[index₁.toNat]? = l₀'[index₀.toNat]?

-- They get the same value.
theorem After.counting {l₀' l₁' : Array Cell} (h : T.After k₀ k₁ l₀ l₁ l₀' l₁')
    (hindex₀ : T.slow.Slot (hiddenName "index" (k₀ + 1)) index₀)
    (hindex₁ : T.fast.Slot (hiddenName "index" (k₁ + 1)) index₁)
    (hlt₀ : index₀.toNat < l₀'.size) (hlt₁ : index₁.toNat < l₁'.size) (c : Cell) :
    T.Counting k₀ k₁ index₀ index₁ l₀ l₁ (l₀'.setIfInBounds index₀.toNat c)
      (l₁'.setIfInBounds index₁.toNat c) where
  after := h.trans (h.alike.hide (by simp [hiddenWords]) (by simp) hindex₀ hindex₁
    (Nat.lt_succ_self _) (Nat.lt_succ_self _) c)
  count := by
    rw [Array.getElem?_setIfInBounds_self_of_lt hlt₀, Array.getElem?_setIfInBounds_self_of_lt hlt₁]

-- The body leaves them alone.
theorem Counting.keep {l₀' l₁' l₀'' l₁'' : Array Cell}
    (h : T.Counting k₀ k₁ index₀ index₁ l₀ l₁ l₀' l₁')
    (hindex₀ : T.slow.Slot (hiddenName "index" (k₀ + 1)) index₀)
    (hindex₁ : T.fast.Slot (hiddenName "index" (k₁ + 1)) index₁)
    (h' : T.After (k₀ + 1) (k₁ + 1) l₀' l₁' l₀'' l₁'') :
    T.Counting k₀ k₁ index₀ index₁ l₀ l₁ l₀'' l₁'' where
  after := h.after.within h' (Nat.le_succ _) (Nat.le_succ _)
  count := h'.hidden (by simp [hiddenWords]) (Nat.le_refl _) (Nat.le_refl _) hindex₀ hindex₁ h.count

variable [HostHooks]

-- Both runs read a hidden variable.
theorem loadHidden_mirrors (h₀ : T.slow.At p₀ (.loadLocNoRef s₀) q₀)
    (h₁ : T.fast.At p₁ (.loadLocNoRef s₁) q₁) (hq : q₁ ≤ T.fast.rangeEnd loops)
    (hsame : l₁[s₁.toNat]? = l₀[s₀.toNat]?)
    (hnext : ∀ m' : Machine, T.Mirrors n (m'.standing l₀ [] q₀) (m'.standing l₁ loops q₁)) :
    T.Mirrors n (m.standing l₀ [] p₀) (m.standing l₁ loops p₁) := by
  have hat₀ : T.slow.At p₀ (Layout.loadInstr false s₀) q₀ := h₀
  have hat₁ : T.fast.At p₁ (Layout.loadInstr false s₁) q₁ := h₁
  exact load_mirrors hat₀ hat₁ hq hsame hnext

-- Both runs write a hidden variable that holds no reference.
theorem storeHidden_mirrors {name : String} (h₀ : T.slow.At p₀ (.setLocNoRef s₀) q₀)
    (h₁ : T.fast.At p₁ (.setLocNoRef s₁) q₁) (hq : q₁ ≤ T.fast.rangeEnd loops)
    (halike : T.Alike k₀ k₁ l₀ l₁) (hs₁ : T.fast.Slot name s₁)
    (hnext : ∀ (m' : Machine) (c : Cell), s₀.toNat < l₀.size → s₁.toNat < l₁.size →
      T.Mirrors n (m'.standing (l₀.setIfInBounds s₀.toNat c) [] q₀)
        (m'.standing (l₁.setIfInBounds s₁.toNat c) loops q₁)) :
    T.Mirrors n (m.standing l₀ [] p₀) (m.standing l₁ loops p₁) := by
  have hat₀ : T.slow.At p₀ (Layout.storeInstr false s₀) q₀ := h₀
  have hat₁ : T.fast.At p₁ (Layout.storeInstr false s₁) q₁ := h₁
  exact store_mirrors hat₀ hat₁ hq (halike.old hs₁ (by simp)) fun m' c _ hlt₀ hlt₁ =>
    hnext m' c hlt₀ hlt₁

-- Both runs keep the source of a loop, where there was none before.
theorem keep_mirrors (h₀ : T.slow.At p₀ (.setLoc s₀) q₀) (h₁ : T.fast.At p₁ (.setLoc s₁) q₁)
    (hq : q₁ ≤ T.fast.rangeEnd loops) (halike : T.Alike k₀ k₁ l₀ l₁)
    (hs₀ : T.slow.Slot (hiddenName "iter" (k₀ + 1)) s₀)
    (hs₁ : T.fast.Slot (hiddenName "iter" (k₁ + 1)) s₁)
    (hnext : ∀ (m' : Machine) (c : Cell),
      T.Alike (k₀ + 1) (k₁ + 1) (l₀.setIfInBounds s₀.toNat c) (l₁.setIfInBounds s₁.toNat c) →
      (l₁.setIfInBounds s₁.toNat c)[s₁.toNat]? = (l₀.setIfInBounds s₀.toNat c)[s₀.toNat]? →
      T.Mirrors n (m'.standing (l₀.setIfInBounds s₀.toNat c) [] q₀)
        (m'.standing (l₁.setIfInBounds s₁.toNat c) loops q₁)) :
    T.Mirrors n (m.standing l₀ [] p₀) (m.standing l₁ loops p₁) := by
  have hat₀ : T.slow.At p₀ (Layout.storeInstr true s₀) q₀ := h₀
  have hat₁ : T.fast.At p₁ (Layout.storeInstr true s₁) q₁ := h₁
  have hlt₁ : s₁.toNat < l₁.size := Nat.lt_of_lt_of_le (Layout.slot_lt hs₁) halike.room
  have hcell := Array.getElem?_eq_getElem hlt₁
  refine store_mirrors hat₀ hat₁ hq (fun old hold => ⟨_, hcell, fun _ => ?_⟩) fun m' c _ hlt₀ _ => ?_
  · rw [halike.vacant₀ (k₀ + 1) s₀ old (Nat.lt_succ_self _) hs₀ hold]
    exact halike.vacant₁ (k₁ + 1) s₁ _ (Nat.lt_succ_self _) hs₁ hcell
  · refine hnext m' c ?_ ?_
    · exact ((halike.mono (Nat.le_succ _) (Nat.le_succ _)).hideSlow (by simp [hiddenWords]) hs₀
        fun _ => .inl (Nat.le_refl _)).hideFast (by simp [hiddenWords]) hs₁
          fun _ => .inl (Nat.le_refl _)
    · rw [Array.getElem?_setIfInBounds_self_of_lt hlt₀, Array.getElem?_setIfInBounds_self_of_lt hlt₁]

-- Both runs read it.
theorem source_mirrors (h₀ : T.slow.At p₀ (.loadLoc s₀) q₀) (h₁ : T.fast.At p₁ (.loadLoc s₁) q₁)
    (hq : q₁ ≤ T.fast.rangeEnd loops) (hsame : l₁[s₁.toNat]? = l₀[s₀.toNat]?)
    (hnext : ∀ m' : Machine, T.Mirrors n (m'.standing l₀ [] q₀) (m'.standing l₁ loops q₁)) :
    T.Mirrors n (m.standing l₀ [] p₀) (m.standing l₁ loops p₁) := by
  have hat₀ : T.slow.At p₀ (Layout.loadInstr true s₀) q₀ := h₀
  have hat₁ : T.fast.At p₁ (Layout.loadInstr true s₁) q₁ := h₁
  exact load_mirrors hat₀ hat₁ hq hsame hnext

-- A loop that counts a hidden variable up in both runs. `item` is done before every round.
theorem counted_mirrors {item₀ item₁ : Nat → Nat → Prop} {stmts : List Stmt} {k₀' k₁' : Nat}
    (h₀ : CountedCode T.slow index₀ limit₀ item₀ (k₀ + 1) stmts p₀ q₀ k₀')
    (h₁ : CountedCode T.fast index₁ limit₁ item₁ (k₁ + 1) stmts p₁ q₁ k₁')
    (hindex₀ : T.slow.Slot (hiddenName "index" (k₀ + 1)) index₀)
    (hindex₁ : T.fast.Slot (hiddenName "index" (k₁ + 1)) index₁)
    (hw : what ∈ hiddenWords) (hj₀ : j₀ ≤ k₀) (hj₁ : j₁ ≤ k₁)
    (hlimit₀ : T.slow.Slot (hiddenName what j₀) limit₀)
    (hlimit₁ : T.fast.Slot (hiddenName what j₁) limit₁)
    (hsame : l₁[limit₁.toNat]? = l₀[limit₀.toNat]?)
    (hle : ∀ a b, item₁ a b → a ≤ b)
    (hitem : ∀ {i a₀ a₁ b₀ b₁ l₀' l₁'} {m' : Machine}, item₀ a₀ b₀ → item₁ a₁ b₁ →
      b₁ ≤ T.fast.rangeEnd loops → T.After k₀ k₁ l₀ l₁ l₀' l₁' →
      l₁'[index₁.toNat]? = l₀'[index₀.toNat]? →
      T.Leads (T.After (k₀ + 1) (k₁ + 1) l₀' l₁') i loops b₀ b₁ →
      T.Mirrors i (m'.standing l₀' [] a₀) (m'.standing l₁' loops a₁))
    (hbody : ∀ {b₀ b₁ c₀ c₁}, StmtsCode T.slow (some (q₀, c₀)) (k₀ + 1) stmts b₀ c₀ k₀' →
      StmtsCode T.fast (some (q₁, c₁)) (k₁ + 1) stmts b₁ c₁ k₁' →
      T.Runs may (some (q₀, c₀)) (some (q₁, c₁)) (k₀ + 1) (k₁ + 1) b₀ b₁ c₀ c₁)
    (halike : T.Alike k₀ k₁ l₀ l₁) (hq : q₁ ≤ T.fast.rangeEnd loops)
    (hnext : T.Leads (T.After k₀ k₁ l₀ l₁) n loops q₀ q₁) :
    T.Mirrors n (m.standing l₀ [] p₀) (m.standing l₁ loops p₁) := by
  cases h₀ with
  | @mk _ z₀ _ t₀ u₀ _ v₀ w₀ x₀ _ _ next₀ _ _ b₀ _ a₀ c₀ d₀ f₀ hzero₀ hset₀ hload₀ hload₀' hlt₀ hif₀
      hthis₀ hcode₀ hget₀ hone₀ hadd₀ hput₀ hback₀ =>
      cases h₁ with
      | @mk _ z₁ _ t₁ u₁ _ v₁ w₁ x₁ _ _ next₁ _ _ b₁ _ a₁ c₁ d₁ f₁ hzero₁ hset₁ hload₁ hload₁' hlt₁
          hif₁ hthis₁ hcode₁ hget₁ hone₁ hadd₁ hput₁ hback₁ =>
          have := hset₁.lt
          have := hload₁.lt
          have := hload₁'.lt
          have := hlt₁.lt
          have := hif₁.lt
          have := hle x₁ b₁ hthis₁
          have := hcode₁.le
          have := hget₁.lt
          have := hone₁.lt
          have := hadd₁.lt
          have := hput₁.lt
          have := hback₁.lt
          have htop : T.Leads (T.Counting k₀ k₁ index₀ index₁ l₀ l₁) n loops t₀ t₁ := by
            refine Leads.again fun j hj htop => ?_
            have hdone : T.Leads (T.After k₀ k₁ l₀ l₁) (j + 1) loops q₀ q₁ := hnext.mono (by omega)
            have hagain : T.Leads (T.Counting k₀ k₁ index₀ index₁ l₀ l₁) (j + 1) loops next₀ next₁ := by
              intro m' l₀' l₁' ⟨hafter, hcount⟩
              refine loadHidden_mirrors hget₀ hget₁ (by omega) hcount fun _ => ?_
              refine ((Flows.same hone₀ hone₁ rfl rfl rfl).trans
                (Flows.same hadd₀ hadd₁ rfl rfl rfl)).go hafter.alike.named (by omega) fun _ => ?_
              refine storeHidden_mirrors hput₀ hput₁ (by omega) hafter.alike hindex₁
                fun m₂ c hsize₀ hsize₁ => ?_
              exact jump_mirrors hback₀ hback₁ hq (htop m₂ _ _
                (hafter.counting hindex₀ hindex₁ hsize₀ hsize₁ c))
            intro m' l₀' l₁' ⟨hafter, hcount⟩
            have hlimit : l₁'[limit₁.toNat]? = l₀'[limit₀.toNat]? :=
              hafter.hidden hw hj₀ hj₁ hlimit₀ hlimit₁ hsame
            refine loadHidden_mirrors hload₀ hload₁ (by omega) hcount fun _ => ?_
            refine loadHidden_mirrors hload₀' hload₁' (by omega) hlimit fun _ => ?_
            refine (Flows.same hlt₀ hlt₁ rfl rfl rfl).go hafter.alike.named (by omega) fun _ => ?_
            refine jumpIf_mirrors hif₀ hif₁ (by omega) (fun m₂ => hdone m₂ l₀' l₁' hafter) fun _ => ?_
            refine hitem hthis₀ hthis₁ (by omega) hafter hcount fun m₂ l₀₂ l₁₂ hafter₂ => ?_
            have hkept := fun l₀₃ l₁₃ (hafter₃ : T.After (k₀ + 1) (k₁ + 1) l₀₂ l₁₂ l₀₃ l₁₃) =>
              (Counting.mk hafter hcount).keep
              hindex₀ hindex₁ (hafter₂.trans hafter₃)
            refine (hbody hcode₀ hcode₁).go hafter₂.alike (by omega) (hagain.imp hkept) fun _ => ?_
            rintro _ _ _ _ i ⟨⟩ ⟨⟩ hi
            exact ⟨(hdone.mono (by omega)).imp fun l₀₃ l₁₃ hafter₃ => (hkept l₀₃ l₁₃ hafter₃).after,
              (hagain.mono (by omega)).imp hkept⟩
          refine (Flows.same hzero₀ hzero₁ rfl rfl rfl).go halike.named (by omega) fun _ => ?_
          refine storeHidden_mirrors hset₀ hset₁ (by omega) halike hindex₁
            fun m₂ c hsize₀ hsize₁ => ?_
          exact htop m₂ _ _ ((After.refl halike).counting hindex₀ hindex₁ hsize₀ hsize₁ c)

-- Putting null on the stack, to be stored at once.
theorem null_mirrors {r₀ r₁ : Nat} (h₀ : T.slow.At p₀ .pushNull q₀) (h₁ : T.fast.At p₁ .pushNull q₁)
    (hset₀ : T.slow.At q₀ (.setLoc s₀) r₀) (hset₁ : T.fast.At q₁ (.setLoc s₁) r₁)
    (hr : r₁ ≤ T.fast.rangeEnd loops)
    (hold : ∀ old, l₀[s₀.toNat]? = some old → l₁[s₁.toNat]? = some old)
    (hnext : ∀ m' : Machine, T.Mirrors n (m'.standing (l₀.setIfInBounds s₀.toNat .null) [] r₀)
      (m'.standing (l₁.setIfInBounds s₁.toNat .null) loops r₁)) :
    T.Mirrors n (m.standing l₀ [] p₀) (m.standing l₁ loops p₁) := by
  have hat₀ : T.slow.At q₀ (Layout.storeInstr true s₀) r₀ := hset₀
  have hat₁ : T.fast.At q₁ (Layout.storeInstr true s₁) r₁ := hset₁
  have htwin : T.Twin .pushNull .pushNull := .same rfl rfl
  refine (htwin.mirrors h₀ h₁ (Nat.le_trans (Nat.le_of_lt hset₁.lt) hr) rfl
    fun m' hpush => ?_).mono (Nat.le_succ n)
  refine store_mirrors hat₀ hat₁ hr (fun old h => ⟨old, hold old h, fun _ => rfl⟩)
    fun m₂ c hc _ _ => ?_
  have hnull : m'.stack.head? = some .null := by
    rw [Work.pushed hpush]
    rfl
  cases hnull.symm.trans hc
  exact hnext m₂

namespace Runs

-- A loop with a number of rounds that both runs count in variables.
theorem countLoop {offset k₀' k₁' : Nat} {count : Expr} {stmts : List Stmt} (hplain : count.Plain)
    (hslow : T.slow.counts stmts = false) (hfast : T.fast.counts stmts = false)
    (h₀ : StmtCode T.slow e₀ k₀ (.countLoop offset count stmts) p₀ q₀ k₀')
    (h₁ : StmtCode T.fast e₁ k₁ (.countLoop offset count stmts) p₁ q₁ k₁')
    (hbody : ∀ {x₀ x₁ b₀ b₁ c₀ c₁}, StmtsCode T.slow (some (x₀, c₀)) (k₀ + 2) stmts b₀ c₀ k₀' →
      StmtsCode T.fast (some (x₁, c₁)) (k₁ + 2) stmts b₁ c₁ k₁' →
      T.Runs may (some (x₀, c₀)) (some (x₁, c₁)) (k₀ + 2) (k₁ + 2) b₀ b₁ c₀ c₁) :
    T.Runs false e₀ e₁ k₀ k₁ p₀ p₁ q₀ q₁ := by
  cases h₀ with
  | machineLoop hcounts => exact absurd hcounts (by simp [hslow])
  | countLoop _ hlimit₀ hindex₀ hcount₀ hcheck₀ hset₀ hcode₀ =>
      cases h₁ with
      | machineLoop hcounts => exact absurd hcounts (by simp [hfast])
      | countLoop _ hlimit₁ hindex₁ hcount₁ hcheck₁ hset₁ hcode₁ =>
          have hflows := (Flows.expr count hplain hcount₀ hcount₁).trans (.check hcheck₀ hcheck₁)
          have := hflows.le
          have := hset₁.lt
          have := hcode₁.lt (fun _ _ h => Nat.le_of_eq h) fun _ _ _ h => h.le
          refine ⟨by omega, fun halike hq hnext _ => ?_⟩
          refine hflows.go halike.named (by omega) fun _ => ?_
          refine storeHidden_mirrors hset₀ hset₁ (by omega) halike hlimit₁ fun m₂ c hlt₀ hlt₁ => ?_
          have hafter := halike.hide (by simp [hiddenWords]) (by simp) hlimit₀ hlimit₁
            (Nat.lt_succ_self k₀) (Nat.lt_succ_self k₁) c
          refine counted_mirrors hcode₀ hcode₁ hindex₀ hindex₁ (by simp [hiddenWords])
            (Nat.le_refl _) (Nat.le_refl _) hlimit₀ hlimit₁ ?_ (fun _ _ h => Nat.le_of_eq h) ?_ hbody
            (hafter.alike.mono (Nat.le_succ _) (Nat.le_succ _)) hq (hnext.imp fun _ _ hlater =>
              hafter.within hlater (Nat.le_succ _) (Nat.le_succ _))
          · rw [Array.getElem?_setIfInBounds_self_of_lt hlt₀,
              Array.getElem?_setIfInBounds_self_of_lt hlt₁]
          · rintro i a₀ a₁ b₀ b₁ l₀' l₁' m' rfl rfl hb hlater - hthere
            exact hthere m' l₀' l₁' (.refl (hlater.alike.mono (Nat.le_succ _) (Nat.le_succ _)))

-- Reading the current item of a loop's source.
theorem item_mirrors {item : String} {how : Iteration} {l₀' l₁' : Array Cell} (hname : PlainName item)
    (h₀ : ItemCode T.slow item iter₀ index₀ how p₀ q₀)
    (h₁ : ItemCode T.fast item iter₁ index₁ how p₁ q₁) (hq : q₁ ≤ T.fast.rangeEnd loops)
    (halike : T.Alike k₀ k₁ l₀' l₁') (hiter : l₁'[iter₁.toNat]? = l₀'[iter₀.toNat]?)
    (hindex : l₁'[index₁.toNat]? = l₀'[index₀.toNat]?)
    (hnext : T.Leads (T.After k₀ k₁ l₀' l₁') n loops q₀ q₁) :
    T.Mirrors n (m.standing l₀' [] p₀) (m.standing l₁' loops p₁) := by
  have hloads : ∀ {a₀ a₁ b₀ b₁}, T.slow.At p₀ (.loadLoc iter₀) a₀ → T.fast.At p₁ (.loadLoc iter₁) a₁ →
      T.slow.At a₀ (.loadLocNoRef index₀) b₀ → T.fast.At a₁ (.loadLocNoRef index₁) b₁ →
      b₁ ≤ T.fast.rangeEnd loops →
      (∀ m' : Machine, T.Mirrors n (m'.standing l₀' [] b₀) (m'.standing l₁' loops b₁)) →
      T.Mirrors n (m.standing l₀' [] p₀) (m.standing l₁' loops p₁) := by
    intro a₀ a₁ b₀ b₁ hget₀ hget₁ hget₀' hget₁' hb hthere
    exact source_mirrors hget₀ hget₁ (Nat.le_trans (Nat.le_of_lt hget₁'.lt) hb) hiter fun _ =>
      loadHidden_mirrors hget₀' hget₁' hb hindex hthere
  cases h₀ with
  | members hget₀ hget₀' hat₀ hstore₀ =>
      cases h₁ with
      | members hget₁ hget₁' hat₁ hstore₁ =>
          have hrest : T.Runs false none none k₀ k₁ _ _ q₀ q₁ :=
            (Flows.same hat₀ hat₁ rfl rfl rfl).runs.seq (store hname hstore₀ hstore₁)
          exact hloads hget₀ hget₁ hget₀' hget₁' (Nat.le_trans hrest.le hq) fun _ =>
            hrest.go halike hq hnext (by simp)
  | dynamic hget₀ hget₀' htext₀ hat₀ hstore₀ =>
      cases h₁ with
      | dynamic hget₁ hget₁' htext₁ hat₁ hstore₁ =>
          have hrest : T.Runs false none none k₀ k₁ _ _ q₀ q₁ :=
            (Flows.twin (.invokeDynamic htext₀ htext₁) hat₀ hat₁ rfl).runs.seq
              (store hname hstore₀ hstore₁)
          exact hloads hget₀ hget₁ hget₀' hget₁' (Nat.le_trans hrest.le hq) fun _ =>
            hrest.go halike hq hnext (by simp)

-- A loop over the items of a source. The source is kept in a hidden variable, which is vacant before
-- and behind the loop.
theorem eachLoop {offset k₀' k₁' : Nat} {item : String} {source : Expr} {stmts : List Stmt}
    {how : Iteration} (hname : PlainName item) (hplain : source.Plain)
    (h₀ : StmtCode T.slow e₀ k₀ (.eachLoop offset item source stmts how) p₀ q₀ k₀')
    (h₁ : StmtCode T.fast e₁ k₁ (.eachLoop offset item source stmts how) p₁ q₁ k₁')
    (hbody : ∀ {x₀ x₁ b₀ b₁ c₀ c₁}, StmtsCode T.slow (some (x₀, c₀)) (k₀ + 3) stmts b₀ c₀ k₀' →
      StmtsCode T.fast (some (x₁, c₁)) (k₁ + 3) stmts b₁ c₁ k₁' →
      T.Runs may (some (x₀, c₀)) (some (x₁, c₁)) (k₀ + 3) (k₁ + 3) b₀ b₁ c₀ c₁) :
    T.Runs false e₀ e₁ k₀ k₁ p₀ p₁ q₀ q₁ := by
  cases h₀ with
  | eachLoop hiter₀ hcount₀ hindex₀ hsource₀ hkeep₀ hload₀ hitems₀ hput₀ hcode₀ hnull₀ hdrop₀ =>
      cases h₁ with
      | eachLoop hiter₁ hcount₁ hindex₁ hsource₁ hkeep₁ hload₁ hitems₁ hput₁ hcode₁ hnull₁ hdrop₁ =>
          have hsource := Flows.expr source hplain hsource₀ hsource₁
          have hitems := Flows.count hitems₀ hitems₁
          have := hsource.le
          have := hkeep₁.lt
          have := hload₁.lt
          have := hitems.le
          have := hput₁.lt
          have := hcode₁.lt (fun _ _ h => Nat.le_of_lt h.lt) fun _ _ _ h => h.le
          have := hnull₁.lt
          have := hdrop₁.lt
          refine ⟨by omega, fun {n m l₀ l₁ loops} halike hq hnext _ => ?_⟩
          refine hsource.go halike.named (by omega) fun _ => ?_
          refine keep_mirrors hkeep₀ hkeep₁ (by omega) halike hiter₀ hiter₁
            fun m₂ c halike₂ hsame₂ => ?_
          refine source_mirrors hload₀ hload₁ (by omega) hsame₂ fun _ => ?_
          refine hitems.go halike₂.named (by omega) fun _ => ?_
          refine storeHidden_mirrors hput₀ hput₁ (by omega) halike₂ hcount₁ fun m₃ d hlt₀ hlt₁ => ?_
          have hafter₃ := halike₂.hide (by simp [hiddenWords]) (by simp) hcount₀ hcount₁
            (Nat.lt_succ_self (k₀ + 1)) (Nat.lt_succ_self (k₁ + 1)) d
          refine counted_mirrors hcode₀ hcode₁ hindex₀ hindex₁ (by simp [hiddenWords])
            (Nat.le_refl _) (Nat.le_refl _) hcount₀ hcount₁ ?_ (fun _ _ h => Nat.le_of_lt h.lt) ?_ hbody
            (hafter₃.alike.mono (Nat.le_succ _) (Nat.le_succ _)) (by omega) ?_
          · rw [Array.getElem?_setIfInBounds_self_of_lt hlt₀,
              Array.getElem?_setIfInBounds_self_of_lt hlt₁]
          · intro i a₀ a₁ b₀ b₁ l₀' l₁' m' hitem₀ hitem₁ hb hafter hindex hthere
            have hall := hafter₃.within hafter (Nat.le_succ _) (Nat.le_succ _)
            exact item_mirrors hname hitem₀ hitem₁ hb (hafter.alike.mono (Nat.le_succ _) (Nat.le_succ _))
              (hall.hidden (by simp [hiddenWords]) (Nat.le_refl _) (Nat.le_refl _) hiter₀ hiter₁ hsame₂)
              hindex hthere
          · intro m₄ l₀' l₁' hafter
            have hall := hafter₃.within hafter (Nat.le_succ _) (Nat.le_succ _)
            refine null_mirrors hnull₀ hnull₁ hdrop₀ hdrop₁ hq (fun old hold => ?_) fun m' =>
              hnext m' _ _ (hall.clear hiter₀ hiter₁)
            exact (hall.hidden (by simp [hiddenWords]) (Nat.le_refl _) (Nat.le_refl _) hiter₀ hiter₁
              hsame₂).trans hold

end Runs

end Levels

end HostScript
