import HostScript.Proofs.Compile.Script
import HostScript.Proofs.Meaning.Loops

namespace HostScript

-- A piece of code without any length stands for declarations only, which do nothing.
theorem execAll_of_empty {L : Layout} {D : Dialect} {exits : Option (Nat × Nat)} {k k' p q : Nat}
    {ss : List Stmt} (inLoop : Bool) (h : StmtsCode L exits k ss p q k') (hpq : p = q) :
    D.execAll inLoop ss = (return) := by
  induction ss generalizing k p with
  | nil => rfl
  | cons s rest ih =>
      cases h with
      | @cons _ _ _ _ q₁ k₁ _ _ _ hs hrest =>
          have hle := hrest.le
          cases hd : s.declares with
          | false =>
              have := hs.lt hd
              omega
          | true =>
              cases hs with
              | «using» => exact ih hrest hpq
              | input => exact ih hrest hpq
              | _ => cases hd

mutual

-- The code of a statement does what the statement means, one case for every way to write one.
theorem exec_performs {L : Layout} {env : RunEnv} {D : Dialect} (hL : L.Suits env D)
    (inLoop : Bool) (s : Stmt) (hplain : s.Plain) (hreg : s.Every D.Regular)
    {exits : Option (Nat × Nat)} {k k' p q : Nat} (h : StmtCode L exits k s p q k') :
    Performs L env D.strict exits (Emit.escapes s) D.rounds k p q (D.exec inLoop s) := by
  cases s with
  | «using» offset ns =>
      cases h
      exact .nothing
  | input offset name typeName declared =>
      cases h
      exact .nothing
  | var v =>
      cases h with
      | var hcode =>
          intro s v hready hq
          exact var_executes hL k inLoop hplain hreg hcode hready hq
  | cond offset test body rest =>
      cases h with
      | cond htest hjump hbody hout hrest =>
          unfold Dialect.exec Emit.escapes
          exact cond_performs hL inLoop hplain.1 hreg.1 htest hjump hout
            (execAll_performs hL inLoop body hplain.2.1 hreg.2.1 hbody)
            (execBranches_performs hL inLoop rest hplain.2.2 hreg.2.2 hrest) hbody.le hbody.hidden_le
            hrest.le
  | whileLoop offset test body =>
      cases h with
      | whileLoop htest hjump hbody hback =>
          unfold Dialect.exec
          exact while_performs hL hplain.1 hreg.1 htest hjump hback
            (execAll_performs hL true body hplain.2 hreg.2 hbody) hbody.le
  | forLoop offset init test step body =>
      cases h with
      | forLoop hinit htest hjump hbody hstep hback =>
          obtain ⟨hp₁, hp₂, hp₃, hp₄⟩ := hplain
          obtain ⟨hr₁, hr₂, hr₃, hr₄⟩ := hreg
          unfold Dialect.exec
          exact for_performs hL hinit ⟨hp₁, hp₂, hp₃⟩ ⟨hr₁, hr₂, hr₃⟩ htest hjump hstep hback
            (execAll_performs hL true body hp₄ hr₄ hbody) hbody.le
  | eachLoop offset item source body how =>
      cases h with
      | eachLoop hiter hcount hindex hsource hset hload hitems hset' hcode hnull hdrop =>
          unfold Dialect.exec
          exact eachLoop_performs hL hplain.1 hplain.2.1 hreg.1 hiter hcount hindex hsource hset hload
            hitems hset' hcode hnull hdrop
            (fun t next hbody => execAll_performs hL true body hplain.2.2 hreg.2 hbody)
            (Nat.le_of_lt (hcode.lt (fun _ _ h => Nat.le_of_lt h.lt) fun _ _ _ h => h.le))
  | countLoop offset count body =>
      cases h with
      | countLoop hcounts hlimit hindex hcount hcheck hset hcode =>
          have hway : (D.counts && !Emit.anyEscapes body) = false := by
            rw [hL.counts]
            exact hcounts
          simp only [Dialect.exec, hway, Bool.false_eq_true, if_false]
          exact countLoop_performs hL hplain.1 hreg.1 hlimit hindex hcount hcheck hset hcode
            (fun t next hbody => execAll_performs hL true body hplain.2 hreg.2 hbody)
            (Nat.le_of_lt (hcode.lt (fun _ _ h => Nat.le_of_eq h) fun _ _ _ h => h.le))
      | machineLoop hcounts hhead hlength hstop hsize hbody =>
          have hway : (D.counts && !Emit.anyEscapes body) = true := by
            rw [hL.counts]
            exact hcounts
          have hstay : Emit.anyEscapes body = false := by
            simp only [Bool.and_eq_true, Bool.not_eq_true'] at hway
            exact hway.2
          have hperforms := execAll_performs hL true body hplain.2 hreg.2 hbody
          rw [hstay] at hperforms
          simp only [Dialect.exec, hway, if_true]
          exact machineLoop_performs hL hplain.1 hreg.1 hhead hlength hstop hsize hperforms
            (execAll_of_empty true hbody)
  | leave offset =>
      cases h with
      | leave hjump =>
          intro s v hready hq
          obtain ⟨n, v', hpath, hrests⟩ := (Rests.refl (k := k) hready).jump hL hjump hq
          exact ⟨n, v', Nat.zero_le _, hpath, rfl, _, _, rfl, hrests⟩
  | again offset =>
      cases h with
      | again hjump =>
          intro s v hready hq
          obtain ⟨n, v', hpath, hrests⟩ := (Rests.refl (k := k) hready).jump hL hjump hq
          exact ⟨n, v', Nat.zero_le _, hpath, rfl, _, _, rfl, hrests⟩
  | ret offset value =>
      cases h with
      | @ret value _ q₁ _ _ _ _ hvalue hat =>
          intro s v hready hq
          refine (value_executes hL inLoop (hplain value rfl) (hreg value rfl) hvalue hready.pc
            hready.stack hready.outside hready.holds
            (Nat.le_trans (Nat.le_of_lt hat.lt) hq)).bind ?_
          rintro x ⟨_, o⟩ _ ⟨rfl, rfl, -⟩
          exact stops_of_ret hL hready hat hq
      | @retNull _ q₁ _ _ _ _ hnull hat =>
          intro s v hready hq
          have hq₁ := Nat.le_trans (Nat.le_of_lt hat.lt) hq
          have hpath : Path env 1 v (v.after q₁ [.null] s.outside) := by
            rw [← hready.stack, ← hready.outside]
            exact path_of_at hL hnull hready.pc (Nat.lt_of_lt_of_le hnull.lt hq₁) trivial rfl rfl
          exact Stops.prepend hpath (stops_of_ret hL hready hat hq)
  | exit offset =>
      cases h with
      | exit hat =>
          intro s v hready hq
          exact stops_of_exit hL hready hat hq
  | func offset name params body => cases h
  | call offset target =>
      cases h with
      | @call _ _ q₁ _ _ _ _ htarget hat =>
          intro s v hready hq
          refine (value_executes hL inLoop hplain hreg htarget hready.pc hready.stack hready.outside
            hready.holds (Nat.le_trans (Nat.le_of_lt hat.lt) hq)).bind ?_
          rintro x ⟨_, o⟩ _ ⟨rfl, rfl, -⟩
          have hpath : Path env 1 (v.after q₁ [x] o) (v.after q [] o) :=
            path_of_at hL hat rfl (Nat.lt_of_lt_of_le hat.lt hq) trivial rfl rfl
          exact ⟨1, _, Nat.zero_le _, hpath, hready.rests o⟩
  | assign offset target value =>
      unfold Dialect.exec
      cases h with
      | assignStatic hvalue hcheck hat =>
          intro s v hready hq
          exact assignStatic_executes hL inLoop hplain.2 hreg.2 hvalue hcheck hat hready hq
      | assignProperty howner hvalue hcheck hat =>
          intro s v hready hq
          exact assignProperty_executes hL inLoop ⟨hplain.1.1, hplain.2⟩ ⟨hreg.1.2.1, hreg.2⟩ howner
            hvalue hcheck hat hready hq
      | assignDynamic howner hvalue htext hat =>
          intro s v hready hq
          exact assignDynamic_executes hL inLoop ⟨hplain.1.1, hplain.2⟩ ⟨hreg.1.2.1, hreg.2⟩ howner
            hvalue htext hat hready hq

theorem execAll_performs {L : Layout} {env : RunEnv} {D : Dialect} (hL : L.Suits env D)
    (inLoop : Bool) (ss : List Stmt) (hplain : Stmt.AllPlain ss) (hreg : Stmt.EveryOne D.Regular ss)
    {exits : Option (Nat × Nat)} {k k' p q : Nat} (h : StmtsCode L exits k ss p q k') :
    Performs L env D.strict exits (Emit.anyEscapes ss) D.rounds k p q (D.execAll inLoop ss) := by
  cases ss with
  | nil =>
      cases h
      exact .nothing
  | cons s rest =>
      cases h with
      | cons hs hrest =>
          unfold Dialect.execAll Emit.anyEscapes
          exact (exec_performs hL inLoop s hplain.1 hreg.1 hs).seq
            (execAll_performs hL inLoop rest hplain.2 hreg.2 hrest) hs.hidden_le hrest.le

theorem execBranches_performs {L : Layout} {env : RunEnv} {D : Dialect} (hL : L.Suits env D)
    (inLoop : Bool) (b : Branches) (hplain : Stmt.BranchesPlain b)
    (hreg : Stmt.EveryBranch D.Regular b) {exits : Option (Nat × Nat)} {k k' p q : Nat}
    (h : BranchesCode L exits k q b p q k') :
    Performs L env D.strict exits (Emit.branchesEscape b) D.rounds k p q (D.execBranches inLoop b) := by
  cases b with
  | done =>
      cases h
      exact .nothing
  | otherwise body =>
      cases h with
      | otherwise hbody =>
          unfold Dialect.execBranches Emit.branchesEscape
          exact execAll_performs hL inLoop body hplain hreg hbody
  | elseIf test body rest =>
      cases h with
      | elseIf htest hjump hbody hout hrest =>
          unfold Dialect.execBranches Emit.branchesEscape
          exact cond_performs hL inLoop hplain.1 hreg.1 htest hjump hout
            (execAll_performs hL inLoop body hplain.2.1 hreg.2.1 hbody)
            (execBranches_performs hL inLoop rest hplain.2.2 hreg.2.2 hrest) hbody.le hbody.hidden_le
            hrest.le

end

-- How a run of a whole script ends, by what the script means.
def Ends (env : RunEnv) (strict : Bool) (rounds : Nat) (v : View) : EStateM.Result Stop Store Unit → Prop
  | .ok _ s | .error .exit s => Stops env v .null s.outside
  | .error (.ret x) s => Stops env v x s.outside
  | .error (.fault f) s => Fails env v f s.outside
  | .error .outOfFuel _ => Lasts env rounds v
  | .error .stray _ => Strays env v
  | .error (.mistyped _) _ => strict = true
  | .error .malformed _ => True
  | .error .leave _ | .error .again _ => False

theorem script_ends {L : Layout} {env : RunEnv} {D : Dialect} (hL : L.Suits env D)
    {inputs : List InputVar} {script : List Stmt} (hplain : Stmt.AllPlain script)
    (hreg : Stmt.EveryOne D.Regular script) (hcarries : L.Carries inputs script) {s : Store}
    {v : View} (hready : Ready L 0 s v) (hloops : v.loops = []) :
    Ends env D.strict D.rounds v (D.execAll false script s) := by
  obtain ⟨q, k, hcode, hexit⟩ := hcarries.code
  have hrange : L.script.code.size = Plain.rangeEnd env v := by
    simp only [Plain.rangeEnd, hloops, hL.script]
  have hq := Nat.le_of_lt hexit.lt
  have hall := execAll_performs hL false script hplain hreg hcode s v hready (hrange ▸ hq)
  cases hresult : D.execAll false script s with
  | ok _ s' =>
      rw [hresult] at hall
      obtain ⟨n, v', -, hpath, hrests⟩ := hall
      refine Stops.prepend hpath (stops_of_exit hL hrests.ready hexit ?_)
      exact Nat.le_of_eq (hrange.trans (hrests.rangeEnd env).symm)
  | error e s' =>
      rw [hresult] at hall
      cases e with
      | leave =>
          obtain ⟨_, _, _, _, _, a, b, hexits, _⟩ := hall
          cases hexits
      | again =>
          obtain ⟨_, _, _, _, _, a, b, hexits, _⟩ := hall
          cases hexits
      | _ => exact hall

end HostScript
