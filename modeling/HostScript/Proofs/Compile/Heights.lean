import HostScript.Proofs.Compile.Discipline
import HostScript.Proofs.Compile.Script

namespace HostScript

open Spot

variable {L : Layout} {B : Bounds} {ctx : List (Nat × Nat)} {n p q h lo hi : Nat}

-- Between `p` and `q` the stack must be empty at the given places only.
def Spot.Bounds.Marked (B : Bounds) (marks : List Nat) (p q : Nat) : Prop :=
  ∀ x, p ≤ x → x < q → B.edge x → x ∈ marks

namespace Spot.Bounds.Marked

variable {marks : List Nat} {a b : Nat}

theorem room (hm : B.Marked marks p q) (hloops : ctx.length ≤ B.loops) (hlo : p ≤ a) (hhi : b ≤ q)
    (hclear : ∀ x ∈ marks, x ≤ a ∨ b ≤ x) : L.Room B ctx a b := by
  refine ⟨hloops, fun x hax hxb hedge => ?_⟩
  have := hclear x (hm x (by omega) (by omega) hedge)
  omega

theorem take {l : List Nat} (hm : B.Marked (marks ++ l) p q) (hhi : b ≤ q)
    (hbehind : ∀ x ∈ l, b ≤ x) : B.Marked marks p b := by
  intro x hlo hlt hedge
  refine (List.mem_append.mp (hm x hlo (by omega) hedge)).resolve_right fun hx => ?_
  have := hbehind x hx
  omega

theorem shrink (hm : B.Marked marks p q) (hhi : b ≤ q) : B.Marked marks p b :=
  fun x hlo hlt hedge => hm x hlo (Nat.lt_of_lt_of_le hlt hhi) hedge

theorem drop {l : List Nat} (hm : B.Marked (l ++ marks) p q) (hlo : p ≤ a)
    (hbefore : ∀ x ∈ l, x < a) : B.Marked marks a q := by
  intro x hle hlt hedge
  refine (List.mem_append.mp (hm x (by omega) hlt hedge)).resolve_left fun hx => ?_
  have := hbefore x hx
  omega

theorem tail {y : Nat} (hm : B.Marked (y :: marks) p q) (hlo : p ≤ a) (hy : y < a) :
    B.Marked marks a q :=
  drop (l := [y]) hm hlo (List.forall_mem_singleton.mpr hy)

-- A place that stands first and at the start of the part is there in the part as well.
theorem rest {l : List Nat} (hm : B.Marked (l ++ marks) p q) (hlo : p ≤ a)
    (hbefore : ∀ x ∈ l, x ≤ a) (hstart : a ∈ marks) : B.Marked marks a q := by
  intro x hle hlt hedge
  rcases List.mem_append.mp (hm x (by omega) hlt hedge) with hx | hx
  · have := hbefore x hx
    rwa [Nat.le_antisymm hle this] at hstart
  · exact hx

end Spot.Bounds.Marked

theorem Stmt.start_mem_bounds (r : Registry) (level p : Nat) (s : Stmt) :
    p ∈ s.bounds r level p := by
  cases s <;> simp [Stmt.bounds]

theorem Stmt.start_mem_boundsAll (r : Registry) (level p : Nat) (ss : List Stmt) :
    p ∈ Stmt.boundsAll r level p ss := by
  cases ss with
  | nil => simp [Stmt.boundsAll]
  | cons s rest =>
      simp only [Stmt.boundsAll, List.mem_append]
      exact .inl (s.start_mem_bounds r level p)

-- Where a statement may leave the loop around it, a run is ready.
def Layout.Exits (L : Layout) (B : Bounds) (n : Nat) (ctx : List (Nat × Nat)) :
    Option (Nat × Nat) → Prop
  | none => True
  | some (leaving, again) => L.Ready B n ctx leaving 0 ∧ L.Ready B n ctx again 0

-- Wherever statements stand, a run is ready at their start if it is at their end, and where they may
-- leave the loop around them.
def Layout.Passes (L : Layout) (B : Bounds) (ctx : List (Nat × Nat)) (body : List Stmt) : Prop :=
  ∀ {m : Nat} {exits : Option (Nat × Nat)} {k k' a b : Nat}, StmtsCode L exits k body a b k' →
    B.Marked (Stmt.boundsAll L.registry L.level a body) a b →
    (Emit.anyEscapes body = true → L.Exits B m ctx exits) → L.Ready B m ctx b 0 →
    L.Ready B m ctx a 0

namespace Layout.Ready

section

variable (hroom : L.Room B ctx lo hi)

include hroom

theorem change {how : Change} (hcode : ChangeCode L how p q) (hlinked : how.Linked L.registry)
    (hp : Inside lo p h) (hq : q ≤ hi) (hheight : h + how.need ≤ B.height)
    (hnext : L.Ready B n ctx q (h + 1)) : L.Ready B (n + 1) ctx p h := by
  have hone : h ≤ B.height := Nat.le_trans (Nat.le_add_right h _) hheight
  cases hcode with
  | compound hvalue => exact expr hroom hvalue hlinked hp hq hheight hnext
  | increment hat =>
      exact inside hroom hat ⟨rfl, fun _ _ _ hy => hy⟩ hp hq hone (Nat.zero_le _) rfl hnext
  | decrement hat =>
      exact inside hroom hat ⟨rfl, fun _ _ _ hy => hy⟩ hp hq hone (Nat.zero_le _) rfl hnext

theorem var {v : VarStmt} (hcode : VarCode L v p q) (hlinked : v.Linked L.registry)
    (hp : Inside lo p 0) (hq : q ≤ hi) (hheight : v.need ≤ B.height) (hnext : L.Ready B n ctx q 0) :
    L.Ready B n ctx p 0 := by
  cases hcode with
  | @declare value _ q₁ name _ offset hvalue hstore =>
      have hone := value.one_le_need
      have hneed : value.need ≤ B.height := hheight
      have hlt := hvalue.lt
      have hstored := store hroom hstore (hp.right hlt) hq (by omega) hnext
      exact (expr hroom hvalue hlinked hp (Nat.le_trans (Nat.le_of_lt hstore.lt) hq) (by omega)
        hstored).le (by omega)
  | @update name _ q₁ how q₂ current q₃ _ offset result hload hchange hat hstore =>
      have hneed : how.need + 1 ≤ B.height := hheight
      have hone : 1 ≤ how.need := by
        cases how with
        | compound op value => exact value.one_le_need
        | increment => exact Nat.le_refl 1
        | decrement => exact Nat.le_refl 1
      have h₁ := hload.lt
      have h₂ := hchange.lt
      have h₃ := hat.lt
      have h₄ := hstore.lt
      have hstored := store hroom hstore (hp.right (by omega)) hq (by omega) hnext
      have hchanged := binary hroom (by simp) (by simp) hat (hp.right (by omega)) (by omega)
        (by omega) hstored
      have hbrought := change hroom hchange hlinked (hp.right h₁) (by omega) (by omega) hchanged
      exact (load hroom hload hp (by omega) (by omega) hbrought).le (by omega)

-- Reading the number of items puts it in the place of the source.
theorem count {how : Iteration} (hcode : CountCode L how p q) (hp : Inside lo p 1) (hq : q ≤ hi)
    (hheight : 1 ≤ B.height) (hnext : L.Ready B n ctx q 1) : L.Ready B n ctx p 1 := by
  cases hcode with
  | members hat =>
      exact (inside hroom hat ⟨rfl, fun _ _ _ hy => hy⟩ hp hq hheight (Nat.le_refl 1) rfl hnext).le
        (Nat.le_succ n)
  | dynamic _ hread hcheck =>
      have hlt := hcheck.lt
      have hchecked := inside hroom hcheck ⟨rfl, fun _ _ _ hy => hy⟩ (hp.right hread.lt) hq hheight
        (Nat.le_refl 1) rfl hnext
      exact (inside hroom hread ⟨rfl, fun _ _ _ hy => hy⟩ hp (by omega) hheight (Nat.le_refl 1) rfl
        hchecked).le (by omega)

theorem item {name : String} {iter index : UInt8} {how : Iteration}
    (hcode : ItemCode L name iter index how p q) (hlinked : how.Linked L.registry)
    (hp : Inside lo p 0) (hq : q ≤ hi) (hheight : 2 ≤ B.height) (hnext : L.Ready B n ctx q 0) :
    L.Ready B n ctx p 0 := by
  cases hcode with
  | members hiter hindex hcall hstore =>
      have h₁ := hiter.lt
      have h₂ := hindex.lt
      have h₃ := hcall.lt
      have h₄ := hstore.lt
      have hstored := store hroom hstore (hp.right (by omega)) hq (by omega) hnext
      have hcalled := inside hroom hcall ⟨rfl, fun _ _ _ hy => hy⟩ (hp.right (by omega)) (by omega)
        hheight (by simp only [Instr.needs, hlinked.2.arity, Nat.le_refl])
        (by simp only [Instr.after, hlinked.2.arity]) hstored
      have hindexed := inside hroom hindex ⟨rfl, fun _ _ _ hy => hy⟩ (hp.right h₁) (by omega)
        (Nat.le_of_succ_le hheight) (Nat.zero_le _) rfl hcalled
      exact (inside hroom hiter ⟨rfl, fun _ _ _ hy => hy⟩ hp (by omega) (Nat.zero_le _)
        (Nat.zero_le _) rfl hindexed).le (by omega)
  | dynamic hiter hindex _ hcall hstore =>
      have h₁ := hiter.lt
      have h₂ := hindex.lt
      have h₃ := hcall.lt
      have h₄ := hstore.lt
      have hstored := store hroom hstore (hp.right (by omega)) hq (by omega) hnext
      have hcalled := inside hroom hcall ⟨rfl, fun _ _ _ hy => hy⟩ (hp.right (by omega)) (by omega)
        hheight (Nat.le_refl 2) rfl hstored
      have hindexed := inside hroom hindex ⟨rfl, fun _ _ _ hy => hy⟩ (hp.right h₁) (by omega)
        (Nat.le_of_succ_le hheight) (Nat.zero_le _) rfl hcalled
      exact (inside hroom hiter ⟨rfl, fun _ _ _ hy => hy⟩ hp (by omega) (Nat.zero_le _)
        (Nat.zero_le _) rfl hindexed).le (by omega)

-- A count that is computed has to be a number.
theorem limit {e : Expr} {ty : Ty} {q₁ : Nat} (hcode : ExprCode L e p q₁)
    (hcheck : CheckCode L .double ty q₁ q) (hlinked : e.Linked L.registry) (hp : Inside lo p 0)
    (hq : q ≤ hi) (hheight : e.need ≤ B.height) (hnext : L.Ready B n ctx q 1) :
    L.Ready B n ctx p 0 := by
  have hone := e.one_le_need
  have hle := hcheck.le
  have hchecked := check hroom hcheck (hp.right hcode.lt) hq (by omega) hnext
  exact (expr hroom hcode hlinked hp (by omega) (by omega) hchecked).le (Nat.le_succ n)

-- In front of a loop that the machine counts, its body and what follows it come next.
theorem head {e : Expr} {length : Int32} (hcode : HeadCode L e length p q)
    (hlinked : e.Linked L.registry) (hp : Inside lo p 0) (hq : q ≤ hi)
    (hheight : Stmt.headNeed e ≤ B.height) (hstop : q ≤ L.script.stop ctx)
    (hbody : Safe L.env B n ⟨(q, q + length.toInt.toNat) :: ctx, q, 0⟩)
    (hnext : Safe L.env B n ⟨ctx, q + length.toInt.toNat, 0⟩) : L.Ready B n ctx p 0 := by
  unfold Stmt.headNeed at hheight
  cases hcode with
  | literal hcount hat =>
      refine (instr hat hroom.loops (fun _ => rfl) (Nat.zero_le _) (Nat.zero_le _) (.inl rfl) hstop
        fun y hy => ?_).le (Nat.le_succ n)
      rcases hy with rfl | rfl
      · exact hnext
      · exact hbody
  | computed hcount hexpr hcheck hat =>
      simp only [hcount] at hheight
      have hone := e.one_le_need
      have h₁ := hexpr.lt
      have h₂ := hcheck.le
      have h₃ := hat.lt
      have hhead : L.Ready B (n + 1) ctx _ 1 :=
        instr hat hroom.loops (hroom.edge (hp.right (by omega)) (by omega)) (by omega)
          (Nat.le_refl 1) (.inl rfl) hstop fun y hy => by
            rcases hy with rfl | rfl
            · exact hnext
            · exact hbody
      exact (limit hroom hexpr hcheck hlinked hp (by omega) hheight hhead).le (Nat.le_succ n)

end

-- A loop with a hidden counter: what the item and the body do is left open.
theorem counted {index limit : UInt8} {I : Nat → Nat → Prop} {body : List Stmt} {k k' w v hi' : Nat}
    (hcode : CountedCode L index limit I k body p q k') (hwidth : ∀ a b, I a b → b = a + w)
    (hwidth' : ∀ exits a b, StmtsCode L exits k body a b k' → b = a + v)
    (hhead : L.Room B ctx lo hi) (hp : Inside lo p 0) (hstart : p + counterHead ≤ hi)
    (htail : L.Room B ctx (p + counterHead + w + v) hi') (hend : q ≤ hi') (hheight : 2 ≤ B.height)
    (hitem : ∀ m b, I (p + counterHead) b → L.Ready B m ctx b 0 →
      L.Ready B m ctx (p + counterHead) 0)
    (hbody : ∀ m exits b, StmtsCode L exits k body (p + counterHead + w) b k' →
      L.Exits B m ctx exits → L.Ready B m ctx b 0 → L.Ready B m ctx (p + counterHead + w) 0)
    (hnext : L.Ready B n ctx q 0) : L.Ready B n ctx p 0 := by
  cases hcode with
  | @mk _ q₁ _ top t₁ _ t₂ t₃ t₄ _ _ next _ _ t₅ _ n₁ n₂ n₃ n₄ g₁ g₂ g₃ g₄ g₅ g₆ g₇ g₈ g₉ g₁₀ g₁₁
      g₁₂ g₁₃ =>
      have w₁ : q₁ = p + 9 := g₁.width
      have w₂ : top = q₁ + 2 := g₂.width
      have w₃ : t₁ = top + 2 := g₃.width
      have w₄ : t₂ = t₁ + 2 := g₄.width
      have w₅ : t₃ = t₂ + 1 := g₅.width
      have w₆ := g₆.width
      have w₇ := hwidth _ _ g₇
      have w₈ := hwidth' _ _ _ g₈
      have w₉ := g₉.lt
      have w₁₀ := g₁₀.lt
      have w₁₁ := g₁₁.lt
      have w₁₂ := g₁₂.lt
      have w₁₃ := g₁₃.lt
      have hinto : t₄ = p + counterHead := by
        simp only [counterHead]
        omega
      rw [← hinto] at hstart htail hitem hbody
      rw [← w₇] at htail hbody
      rw [← w₈] at htail
      -- From round to round, by the number of steps that are left.
      have hround : ∀ m, L.Ready B m ctx q 0 → L.Ready B m ctx top 0 := by
        intro m
        induction m with
        | zero => exact fun hq => ⟨Nat.le_trans (by omega) hq.1, trivial⟩
        | succ m ih =>
            intro hq
            have hq := hq.le (Nat.le_succ m)
            have htop := ih hq
            have hback := jump g₁₃ htail.loops (fun _ => rfl) (Nat.zero_le _) hq.1 htop
            have hset := inside htail g₁₂ ⟨rfl, fun _ _ _ hy => hy⟩ (h := 1) (.inl (by omega))
              (by omega) (Nat.le_of_succ_le hheight) (Nat.le_refl 1) rfl hback
            have hadd := inside htail g₁₁ ⟨rfl, fun _ _ _ hy => hy⟩ (h := 2) (.inl (by omega))
              (by omega) hheight (Nat.le_refl 2) rfl hset
            have hpush := inside htail g₁₀ ⟨rfl, fun _ _ _ hy => hy⟩ (.inl w₉) (by omega)
              (Nat.le_of_succ_le hheight) (Nat.zero_le _) rfl hadd
            have hagain := (inside htail g₉ ⟨rfl, fun _ _ _ hy => hy⟩ (.start next) (by omega)
              (Nat.zero_le _) (Nat.zero_le _) rfl hpush).le (m := m) (by omega)
            have hstarted := hitem m _ g₇ (hbody m _ _ g₈ ⟨hq, hagain⟩ hagain)
            have hp' : ∀ x j, p < x → Inside lo x j := fun x j hx => hp.right hx
            have htest := jumpIf g₆ hhead.loops
              (fun he => absurd (hhead.edge (hp' t₃ 1 (by omega)) (by omega) he) Nat.one_ne_zero)
              (Nat.le_of_succ_le hheight) hstarted hq
            have hcompare := inside hhead g₅ ⟨rfl, fun _ _ _ hy => hy⟩ (h := 2)
              (hp' t₂ 2 (by omega)) (by omega) hheight (Nat.le_refl 2) rfl htest
            have hload := inside hhead g₄ ⟨rfl, fun _ _ _ hy => hy⟩ (hp' t₁ 1 (by omega)) (by omega)
              (Nat.le_of_succ_le hheight) (Nat.zero_le _) rfl hcompare
            exact (inside hhead g₃ ⟨rfl, fun _ _ _ hy => hy⟩ (hp' top 0 (by omega)) (by omega)
              (Nat.zero_le _) (Nat.zero_le _) rfl hload).le (by omega)
      have hset := inside hhead g₂ ⟨rfl, fun _ _ _ hy => hy⟩ (h := 1) (hp.right g₁.lt) (by omega)
        (Nat.le_of_succ_le hheight) (Nat.le_refl 1) rfl (hround n hnext)
      exact (inside hhead g₁ ⟨rfl, fun _ _ _ hy => hy⟩ hp (by omega) (Nat.zero_le _)
        (Nat.zero_le _) rfl hset).le (by omega)

-- A loop that the machine counts: its body leads back to its start or behind it.
theorem machine {start : Nat} (hloops : ctx.length + 1 ≤ B.loops) (hle : start ≤ q)
    (hbody : ∀ m, L.Ready B m ((start, q) :: ctx) q 0 → L.Ready B m ((start, q) :: ctx) start 0)
    (hnext : L.Ready B n ctx q 0) : L.Ready B n ((start, q) :: ctx) start 0 := by
  suffices h : ∀ m, m ≤ n → L.Ready B m ((start, q) :: ctx) start 0 from h n (Nat.le_refl n)
  intro m
  induction m with
  | zero => exact fun _ => ⟨hle, trivial⟩
  | succ m ih =>
      intro hm
      have hagain := ih (Nat.le_of_succ_le hm)
      refine hbody (m + 1) ⟨Nat.le_refl q, ⟨Nat.zero_le _, hloops, fun _ => rfl, ?_⟩, ?_⟩
      · exact fun hlt => absurd hlt (Nat.lt_irrefl q)
      · intro y hy
        cases hy with
        | instr hlt => exact absurd hlt (Nat.lt_irrefl q)
        | again _ hloops =>
            cases hloops
            exact hagain.2
        | leave _ hloops =>
            cases hloops
            exact (hnext.le (Nat.le_of_succ_le hm)).2

-- A condition that leads into a body or past it.
theorem test {e : Expr} {q₁ t : Nat} (hroom : L.Room B ctx p q) (hcode : ExprCode L e p q₁)
    (hjump : L.JumpIf false q₁ q t) (hlinked : e.Linked L.registry) (hheight : e.need ≤ B.height)
    (hthen : L.Ready B n ctx q 0) (helse : L.Ready B n ctx t 0) : L.Ready B (n + 1) ctx p 0 := by
  have hone := e.one_le_need
  have hlt := hjump.lt
  have hedge : ¬B.edge q₁ := hroom.clear q₁ hcode.lt hlt
  have hjumps := jumpIf hjump hroom.loops hedge (by omega) hthen helse
  exact (expr hroom hcode hlinked (.start p) (by omega) (by omega) hjumps).le (by omega)

-- One branch of a conditional, whose body and whose other branches are left open.
theorem branch {e : Expr} {body : List Stmt} {rest : Branches} {q₁ q₂ q₃ q₄ done : Nat}
    (htest : ExprCode L e p q₁) (hjump : L.JumpIf false q₁ q₂ q₄) (hout : L.Jump q₃ q₄ done)
    (hwidth : q₃ = q₂ + Stmt.widthAll L.registry L.level body) (hle : q₄ ≤ q)
    (hlinked : e.Linked L.registry) (hloops : ctx.length ≤ B.loops) (hheight : e.need ≤ B.height)
    (hmarks : B.Marked (p :: Stmt.boundsAll L.registry L.level q₂ body ++
      Stmt.boundsBranches L.registry L.level q₄ rest) p q)
    (hrest : B.Marked (Stmt.boundsBranches L.registry L.level q₄ rest) q₄ q →
      L.Ready B n ctx q₄ 0)
    (hbody : B.Marked (Stmt.boundsAll L.registry L.level q₂ body) q₂ q₃ → L.Ready B n ctx q₃ 0 →
      L.Ready B n ctx q₂ 0)
    (hdone : L.Ready B n ctx done 0) : L.Ready B n ctx p 0 := by
  have h₁ := htest.lt
  have h₂ := hjump.lt
  have h₃ := hout.lt
  have hbefore : ∀ x ∈ p :: Stmt.boundsAll L.registry L.level q₂ body, x < q₄ :=
    List.forall_mem_cons.mpr ⟨by omega, fun x hx => by
      have := Stmt.boundsAll_within body hx
      omega⟩
  have hfirst := hmarks.take (b := q₃) (by omega) fun x hx => by
    have := Stmt.boundsBranches_within rest hx
    omega
  have hroom : L.Room B ctx p q₂ := hfirst.room hloops (Nat.le_refl p) (by omega) <|
    List.forall_mem_cons.mpr ⟨.inl (Nat.le_refl p), fun x hx =>
      .inr (Stmt.boundsAll_within body hx).1⟩
  have hothers := hrest (hmarks.drop (by omega) hbefore)
  have hleft := (jump hout hloops (fun _ => rfl) (Nat.zero_le _) hothers.1 hdone).le (Nat.le_succ n)
  have hinner := hbody (hfirst.tail (by omega) (by omega)) hleft
  exact (test hroom htest hjump hlinked hheight hinner hothers).le (Nat.le_succ n)

-- A loop that tests in front of each round.
theorem whileLoop {exits : Option (Nat × Nat)} {k k' offset : Nat} {e : Expr} {body : List Stmt}
    (hcode : StmtCode L exits k (.whileLoop offset e body) p q k') (hlinked : e.Linked L.registry)
    (hloops : ctx.length ≤ B.loops) (hheight : e.need ≤ B.height)
    (hmarks : B.Marked ((Stmt.whileLoop offset e body).bounds L.registry L.level p) p q)
    (hbody : L.Passes B ctx body) (hnext : L.Ready B n ctx q 0) : L.Ready B n ctx p 0 := by
  cases hcode with
  | @whileLoop _ _ q₁ q₂ _ _ _ q₃ _ _ _ htest hjump hinner hback =>
      have w₁ := htest.width
      have w₂ := hjump.width
      have w₃ := hinner.width
      have w₄ := hback.lt
      rw [Stmt.bounds, ← w₁, ← w₂] at hmarks
      have hroom : L.Room B ctx p q₂ := hmarks.room hloops (Nat.le_refl p) (by omega) <|
        List.forall_mem_cons.mpr ⟨.inl (Nat.le_refl p), fun x hx =>
          .inr (Stmt.boundsAll_within body hx).1⟩
      have hmarked := (hmarks.tail (a := q₂) (by omega) (by omega)).shrink (b := q₃) (by omega)
      -- From round to round, by the number of steps that are left.
      induction n with
      | zero => exact ⟨Nat.le_trans (by omega) hnext.1, trivial⟩
      | succ n ih =>
          have hq := hnext.le (Nat.le_succ n)
          have htop := ih hq
          have hagain := (jump hback hloops (fun _ => rfl) (Nat.zero_le _) hq.1 htop).le
            (Nat.le_succ n)
          have hround := hbody hinner hmarked (fun _ => ⟨hq, htop⟩) hagain
          exact test hroom htest hjump hlinked hheight hround hq

theorem forLoop {exits : Option (Nat × Nat)} {k k' offset : Nat} {init step : VarStmt} {e : Expr}
    {body : List Stmt} (hcode : StmtCode L exits k (.forLoop offset init e step body) p q k')
    (hinitLinked : init.Linked L.registry) (hlinked : e.Linked L.registry)
    (hstepLinked : step.Linked L.registry) (hloops : ctx.length ≤ B.loops)
    (hheight : init.need ≤ B.height ∧ e.need ≤ B.height ∧ step.need ≤ B.height)
    (hmarks : B.Marked ((Stmt.forLoop offset init e step body).bounds L.registry L.level p) p q)
    (hbody : L.Passes B ctx body) (hnext : L.Ready B n ctx q 0) : L.Ready B n ctx p 0 := by
  obtain ⟨hinitHeight, htestHeight, hstepHeight⟩ := hheight
  cases hcode with
  | @forLoop _ _ p₁ _ q₁ q₂ _ q₃ _ _ _ _ q₄ _ _ hinit htest hjump hinner hstep hback =>
      have w₀ := hinit.width
      have w₁ := htest.width
      have w₂ := hjump.width
      have w₃ := hinner.width
      have w₄ := hstep.width
      have w₅ := hback.lt
      have hlt := htest.lt
      rw [Stmt.bounds, ← w₀, ← w₁, ← w₂, ← w₃, ← w₄] at hmarks
      have hmem : ∀ x ∈ p :: p₁ :: Stmt.boundsAll L.registry L.level q₂ body ++ [q₄],
          x = p ∨ x = p₁ ∨ (q₂ ≤ x ∧ x ≤ q₃) ∨ x = q₄ := by
        intro x hx
        simp only [List.mem_append, List.mem_cons, List.not_mem_nil, or_false] at hx
        rcases hx with (hx | hx | hx) | hx
        · exact .inl hx
        · exact .inr (.inl hx)
        · exact .inr (.inr (.inl (w₃ ▸ Stmt.boundsAll_within body hx)))
        · exact .inr (.inr (.inr hx))
      have hroom : L.Room B ctx p p₁ := hmarks.room hloops (Nat.le_refl p) (by omega)
        fun x hx => by have := hmem x hx; omega
      have hroom' : L.Room B ctx p₁ q₂ := hmarks.room hloops (by omega) (by omega)
        fun x hx => by have := hmem x hx; omega
      have hroom'' : L.Room B ctx q₃ q₄ := hmarks.room hloops (by omega) (by omega)
        fun x hx => by have := hmem x hx; omega
      have hmarked := ((hmarks.take (b := q₃) (by omega) (by simp; omega)).tail (a := p₁)
        (by omega) hinit.lt).tail (a := q₂) (by omega) (by omega)
      refine var hroom hinit hinitLinked (.start p) (Nat.le_refl p₁) hinitHeight ?_
      induction n with
      | zero => exact ⟨Nat.le_trans (by omega) hnext.1, trivial⟩
      | succ n ih =>
          have hq := hnext.le (Nat.le_succ n)
          have htop := ih hq
          have hback' := (jump hback hloops (fun _ => rfl) (Nat.zero_le _) hq.1 htop).le
            (Nat.le_succ n)
          have hagain := var hroom'' hstep hstepLinked (.start q₃) (Nat.le_refl q₄) hstepHeight
            hback'
          have hround := hbody hinner hmarked (fun _ => ⟨hq, hagain⟩) hagain
          exact test hroom' htest hjump hlinked htestHeight hround hq

theorem eachLoop {exits : Option (Nat × Nat)} {k k' offset : Nat} {name : String} {source : Expr}
    {body : List Stmt} {how : Iteration}
    (hcode : StmtCode L exits k (.eachLoop offset name source body how) p q k')
    (hhow : how.Linked L.registry) (hlinked : source.Linked L.registry)
    (hloops : ctx.length ≤ B.loops) (hheight : max source.need 2 ≤ B.height)
    (hmarks : B.Marked ((Stmt.eachLoop offset name source body how).bounds L.registry L.level p) p q)
    (hbody : L.Passes B ctx body) (hnext : L.Ready B n ctx q 0) : L.Ready B n ctx p 0 := by
  cases hcode with
  | @eachLoop _ iter _ index _ _ q₁ q₂ q₃ _ q₄ q₅ _ _ q₆ _ q₇ _ _ _ _ _ _ hsource hset
      hload hitems hset' hcounted hnull hdrop =>
      have w₁ := hsource.width
      have w₂ : q₂ = q₁ + 2 := hset.width
      have w₃ : q₃ = q₂ + 2 := hload.width
      have w₄ := hitems.width
      have w₅ : q₅ = q₄ + 2 := hset'.width
      have w₆ := hcounted.width (fun _ _ h => h.width) fun _ _ _ h => h.width
      have w₇ := hnull.lt
      have w₈ := hdrop.lt
      have hstart : p + Stmt.eachStart L.registry source how =
          q₅ + counterHead + how.itemWidth := by
        simp only [Stmt.eachStart]
        omega
      rw [Stmt.bounds, hstart] at hmarks
      have hin : ∀ x ∈ p :: Stmt.boundsAll L.registry L.level (q₅ + counterHead + how.itemWidth)
          body, x = p ∨ q₅ + counterHead + how.itemWidth ≤ x ∧
            x ≤ q₅ + counterHead + how.itemWidth + Stmt.widthAll L.registry L.level body :=
        List.forall_mem_cons.mpr ⟨.inl rfl, fun x hx => .inr (Stmt.boundsAll_within body hx)⟩
      have hroom : L.Room B ctx p (q₅ + counterHead + how.itemWidth) :=
        hmarks.room hloops (Nat.le_refl p) (by omega) fun x hx => by have := hin x hx; omega
      have hroom' : L.Room B ctx (q₅ + counterHead + how.itemWidth +
          Stmt.widthAll L.registry L.level body) q :=
        hmarks.room hloops (by omega) (Nat.le_refl q) fun x hx => by have := hin x hx; omega
      have hone := source.one_le_need
      -- The source is dropped behind the loop.
      have hdropped := inside hroom' hdrop ⟨rfl, fun _ _ _ hy => hy⟩ (h := 1) (.inl (by omega))
        (Nat.le_refl q) (by omega) (Nat.le_refl 1) rfl hnext
      have hnulled := inside hroom' hnull ⟨rfl, fun _ _ _ hy => hy⟩ (h := 0) (.inl (by
        simp only [counterTail] at w₆
        omega)) (by omega) (Nat.zero_le _) (Nat.zero_le _) rfl hdropped
      have hrounds : L.Ready B (n + 1 + 1) ctx q₅ 0 := by
        refine counted hcounted (fun _ _ h => h.width) (fun _ _ _ h => h.width) hroom
          (.inl (by omega)) (Nat.le_add_right _ _) hroom' (by omega) (by omega)
          (fun m b hitem hb => ?_) (fun m exits b hinner hexits hb => ?_) hnulled
        · exact item hroom hitem hhow (.inl (by omega)) (Nat.le_of_eq hitem.width) (by omega) hb
        · have w := hinner.width
          have hmarked := (hmarks.tail (a := q₅ + counterHead + how.itemWidth) (by omega)
            (by omega)).shrink (b := b) (by omega)
          exact hbody hinner hmarked (fun _ => hexits) hb
      have hcounting := inside hroom hset' ⟨rfl, fun _ _ _ hy => hy⟩ (h := 1) (.inl (by omega))
        (by omega) (by omega) (Nat.le_refl 1) rfl hrounds
      have hsize := count hroom hitems (.inl (by omega)) (by omega) (by omega) hcounting
      have hloaded := inside hroom hload ⟨rfl, fun _ _ _ hy => hy⟩ (.inl (by omega)) (by omega)
        (Nat.zero_le _) (Nat.zero_le _) rfl hsize
      have hstored := inside hroom hset ⟨rfl, fun _ _ _ hy => hy⟩ (h := 1) (.inl hsource.lt)
        (by omega) (by omega) (Nat.le_refl 1) rfl hloaded
      exact (expr hroom hsource hlinked (.start p) (by omega) (by omega) hstored).le (by omega)

-- A loop with a count has a hidden counter, or it is the machine that counts and the body is run
-- inside one more loop.
theorem countLoop {exits : Option (Nat × Nat)} {k k' offset : Nat} {e : Expr} {body : List Stmt}
    (hcode : StmtCode L exits k (.countLoop offset e body) p q k') (hlinked : e.Linked L.registry)
    (hloops : ctx.length + 1 ≤ B.loops) (hheight : Stmt.countNeed L.level e body ≤ B.height)
    (hmarks : B.Marked ((Stmt.countLoop offset e body).bounds L.registry L.level p) p q)
    (hbody : L.Passes B ctx body) (hbody' : ∀ frame, L.Passes B (frame :: ctx) body)
    (hnext : L.Ready B n ctx q 0) : L.Ready B n ctx p 0 := by
  have hloops' : ctx.length ≤ B.loops := Nat.le_of_succ_le hloops
  have hin : ∀ start, ∀ x ∈ p :: Stmt.boundsAll L.registry L.level start body,
      x = p ∨ start ≤ x ∧ x ≤ start + Stmt.widthAll L.registry L.level body := fun start =>
    List.forall_mem_cons.mpr ⟨.inl rfl, fun x hx => .inr (Stmt.boundsAll_within body hx)⟩
  cases hcode with
  | @countLoop _ _ _ _ _ _ q₁ q₂ q₃ _ _ _ _ hcounts _ _ hcount hcheck hset hcounted =>
      have hway : (decide (L.level ≥ 1) && !Emit.anyEscapes body) = false := hcounts
      simp only [Stmt.countNeed, hway, Bool.false_eq_true, if_false] at hheight
      have w₁ := hcount.width
      have w₂ := hcheck.width
      have w₃ : q₃ = q₂ + 2 := hset.width
      have w₄ := hcounted.width (n := 0) (fun _ _ h => h.symm) fun _ _ _ h => h.width
      have hstart : p + Stmt.countStart L.registry L.level e body = q₃ + counterHead := by
        simp only [Stmt.countStart, hway, Bool.false_eq_true, if_false]
        omega
      rw [Stmt.bounds, hstart] at hmarks
      have hroom : L.Room B ctx p (q₃ + counterHead) :=
        hmarks.room hloops' (Nat.le_refl p) (by omega) fun x hx => by
          have := hin _ x hx; omega
      have hroom' : L.Room B ctx (q₃ + counterHead + 0 +
          Stmt.widthAll L.registry L.level body) q :=
        hmarks.room hloops' (by omega) (Nat.le_refl q) fun x hx => by
          have := hin _ x hx; omega
      have hlt := hcount.lt
      have hrounds : L.Ready B n ctx q₃ 0 := by
        refine counted hcounted (w := 0) (fun _ _ h => h.symm) (fun _ _ _ h => h.width) hroom
          (.inl (by omega)) (Nat.le_refl _) hroom' (Nat.le_refl q) (by omega)
          (fun m b hitem hb => hitem ▸ hb) (fun m exits b hinner hexits hb => ?_) hnext
        have w := hinner.width
        have hmarked := (hmarks.tail (a := q₃ + counterHead) (by omega) (by omega)).shrink
          (b := b) (by omega)
        exact hbody hinner hmarked (fun _ => hexits) hb
      have hstored := inside hroom hset ⟨rfl, fun _ _ _ hy => hy⟩ (h := 1) (.inl (by omega))
        (by omega) (by omega) (Nat.le_refl 1) rfl hrounds
      exact (limit hroom hcount hcheck hlinked (.start p) (by omega) (by omega) hstored).le
        (Nat.le_succ n)
  | @machineLoop _ _ length _ start _ _ _ _ _ hcounts hhead hlength hend hsize hinner =>
      have hway : (decide (L.level ≥ 1) && !Emit.anyEscapes body) = true := hcounts
      simp only [Stmt.countNeed, hway, if_true] at hheight
      have w₁ := hhead.width
      have hle := hinner.le
      have hlt := hhead.lt
      have hstart : p + Stmt.countStart L.registry L.level e body = start := by
        simp only [Stmt.countStart, hway, if_true]
        exact w₁.symm
      rw [Stmt.bounds, hstart] at hmarks
      have hroom : L.Room B ctx p start :=
        hmarks.room hloops' (Nat.le_refl p) hle fun x hx => by
          have := hin _ x hx; omega
      have hstill : Emit.anyEscapes body = false := by
        simpa using (Bool.and_eq_true_iff.mp hway).2
      have hrounds := machine hloops hle (fun m hm => hbody' _ hinner
        (hmarks.tail (a := start) (by omega) hlt)
        (fun he => absurd (hstill.symm.trans he) Bool.false_ne_true) hm) hnext
      refine head hroom hhead hlinked (.start p) (Nat.le_refl start) hheight
        (Nat.le_trans hle hnext.1) ?_ ?_
      · rw [hend]
        exact hrounds.2
      · rw [hend]
        exact hnext.2

-- Nothing comes after a return.
theorem ret {exits : Option (Nat × Nat)} {k k' offset : Nat} {value : Option Expr}
    (hcode : StmtCode L exits k (.ret offset value) p q k')
    (hlinked : (Stmt.ret offset value).Linked L.registry) (hroom : L.Room B ctx p q)
    (hheight : (Stmt.ret offset value).need L.level ≤ B.height) (hnext : L.Ready B n ctx q 0) :
    L.Ready B n ctx p 0 := by
  cases hcode with
  | @ret value _ q₁ _ _ _ _ hvalue hat =>
      have hneed : value.need ≤ B.height := hheight
      have hone := value.one_le_need
      have hlt := hat.lt
      have hret : L.Ready B (n + 1) ctx q₁ 1 :=
        instr hat hroom.loops (hroom.edge (.inl hvalue.lt) hlt) (by omega) (Nat.le_refl 1)
          (.inr (Nat.le_refl 1)) hnext.1 fun y hy => hy.elim
      exact (expr hroom hvalue (hlinked value rfl) (.start p) (by omega) (by omega) hret).le
        (by omega)
  | @retNull _ q₁ _ _ _ _ hnull hat =>
      have hneed : 1 ≤ B.height := hheight
      have hlt := hat.lt
      have hret : L.Ready B (n + 1) ctx q₁ 1 :=
        instr hat hroom.loops (hroom.edge (.inl hnull.lt) hlt) hneed (Nat.le_refl 1)
          (.inr (Nat.le_refl 1)) hnext.1 fun y hy => hy.elim
      exact (inside hroom hnull ⟨rfl, fun _ _ _ hy => hy⟩ (.start p) (by omega) (Nat.zero_le _)
        (Nat.zero_le _) rfl hret).le (by omega)

theorem assign {exits : Option (Nat × Nat)} {k k' offset : Nat} {target value : Expr}
    (hcode : StmtCode L exits k (.assign offset target value) p q k')
    (hlinked : (Stmt.assign offset target value).Linked L.registry) (hroom : L.Room B ctx p q)
    (hheight : (Stmt.assign offset target value).need L.level ≤ B.height)
    (hnext : L.Ready B n ctx q 0) : L.Ready B n ctx p 0 := by
  obtain ⟨htarget, hvalueLinked⟩ := hlinked
  have hone := value.one_le_need
  cases hcode with
  | assignStatic hvalue hcheck hat =>
      have hneed : value.need ≤ B.height := hheight
      have h₁ := hvalue.lt
      have h₂ := hcheck.le
      have h₃ := hat.lt
      have hset := inside hroom hat ⟨rfl, fun _ _ _ hy => hy⟩ (h := 1) (.inl (by omega))
        (Nat.le_refl q) (by omega) (Nat.le_refl 1) rfl hnext
      have hchecked := check hroom hcheck (.inl h₁) (by omega) (by omega) hset
      exact (expr hroom hvalue hvalueLinked (.start p) (by omega) (by omega) hchecked).le (by omega)
  | @assignProperty owner _ q₀ _ q₁ q₂ _ _ _ _ _ _ _ _ howner hvalue hcheck hat =>
      have hneed : max owner.need (value.need + 1) ≤ B.height := hheight
      have h₀ := howner.lt
      have h₁ := hvalue.lt
      have h₂ := hcheck.le
      have h₃ := hat.lt
      have hset := inside hroom hat ⟨rfl, fun _ _ _ hy => hy⟩ (h := 2) (.inl (by omega))
        (Nat.le_refl q) (by omega) (Nat.le_refl 2) rfl hnext
      have hchecked := check hroom hcheck (.inl (by omega)) (by omega) (by omega) hset
      have hvalued := expr hroom hvalue hvalueLinked (.inl h₀) (by omega) (by omega) hchecked
      exact (expr hroom howner htarget.2 (.start p) (by omega) (by omega) hvalued).le (by omega)
  | @assignDynamic owner _ q₀ _ q₁ _ _ _ _ _ _ _ _ howner hvalue _ hat =>
      have hneed : max owner.need (value.need + 1) ≤ B.height := hheight
      have h₀ := howner.lt
      have h₁ := hvalue.lt
      have h₂ := hat.lt
      have hset := inside hroom hat ⟨rfl, fun _ _ _ hy => hy⟩ (h := 2) (.inl (by omega))
        (Nat.le_refl q) (by omega) (Nat.le_refl 2) rfl hnext
      have hvalued := expr hroom hvalue hvalueLinked (.inl h₀) (by omega) (by omega) hset
      exact (expr hroom howner htarget.2 (.start p) (by omega) (by omega) hvalued).le (by omega)

mutual

-- Statements find the stack empty and leave it so.
theorem stmt {exits : Option (Nat × Nat)} {k k' : Nat} {s : Stmt} {ctx : List (Nat × Nat)}
    {p q n : Nat} (hcode : StmtCode L exits k s p q k') (hlinked : s.Linked L.registry)
    (hloops : ctx.length + s.nest ≤ B.loops) (hheight : s.need L.level ≤ B.height)
    (hmarks : B.Marked (s.bounds L.registry L.level p) p q)
    (hexits : Emit.escapes s = true → L.Exits B n ctx exits) (hnext : L.Ready B n ctx q 0) :
    L.Ready B n ctx p 0 := by
  have hloops' : ctx.length ≤ B.loops := Nat.le_of_add_right_le hloops
  -- What a statement without others in it has to itself.
  have halone : s.bounds L.registry L.level p = [p] → L.Room B ctx p q := fun heq =>
    hmarks.room hloops' (Nat.le_refl p) (Nat.le_refl q) (by simp [heq])
  cases s with
  | «using» offset ns =>
      cases hcode
      exact hnext
  | input offset name typeName declared =>
      cases hcode
      exact hnext
  | var v =>
      cases hcode with
      | var hvar =>
          exact var (halone rfl) hvar hlinked (.start p) (Nat.le_refl q) hheight hnext
  | cond offset e body rest =>
      cases hcode with
      | @cond _ _ q₁ q₂ q₄ _ _ _ q₃ k₁ _ _ _ _ htest hjump hbody hout hrest =>
          obtain ⟨htestLinked, hbodyLinked, hrestLinked⟩ := hlinked
          simp only [Stmt.need, Stmt.nest] at hheight hloops
          simp only [Emit.escapes, Bool.or_eq_true] at hexits
          have w₁ := htest.width
          have w₂ := hjump.width
          have w₃ := hbody.width
          have w₄ := hout.width
          have hle := hrest.le
          rw [Stmt.bounds, ← w₁, ← w₂, ← w₃, ← w₄] at hmarks
          refine branch htest hjump hout w₃ hle htestLinked hloops' (by omega) hmarks (fun hm => ?_)
            (fun hm hleft => ?_) hnext
          · exact branches hrest hrestLinked (by omega) (by omega) hm (fun he => hexits (.inr he))
              hnext hnext
          · exact stmts hbody hbodyLinked (by omega) (by omega) hm (fun he => hexits (.inl he)) hleft
  | whileLoop offset e body =>
      simp only [Stmt.need, Stmt.nest] at hheight hloops
      exact whileLoop hcode hlinked.1 hloops' (by omega) hmarks
        (fun hinner hm he hq => stmts hinner hlinked.2 hloops (by omega) hm he hq) hnext
  | forLoop offset init e step body =>
      obtain ⟨hinit, htest, hstep, hbody⟩ := hlinked
      simp only [Stmt.need, Stmt.nest] at hheight hloops
      exact forLoop hcode hinit htest hstep hloops' (by omega) hmarks
        (fun hinner hm he hq => stmts hinner hbody hloops (by omega) hm he hq) hnext
  | eachLoop offset name source body how =>
      obtain ⟨hhow, hsource, hbody⟩ := hlinked
      simp only [Stmt.need, Stmt.nest] at hheight hloops
      exact eachLoop hcode hhow hsource hloops' (by omega) hmarks
        (fun hinner hm he hq => stmts hinner hbody hloops (by omega) hm he hq) hnext
  | countLoop offset e body =>
      simp only [Stmt.need, Stmt.nest] at hheight hloops
      exact countLoop hcode hlinked.1 (by omega) (by omega) hmarks
        (fun hinner hm he hq => stmts hinner hlinked.2 (by omega) (by omega) hm he hq)
        (fun _ _ _ _ _ _ _ hinner hm he hq => stmts hinner hlinked.2
          (by simp only [List.length_cons]; omega) (by omega) hm he hq) hnext
  | leave offset =>
      cases hcode with
      | leave hjump =>
          exact (jump hjump hloops' (fun _ => rfl) (Nat.zero_le _) hnext.1 (hexits rfl).1).le
            (Nat.le_succ n)
  | again offset =>
      cases hcode with
      | again hjump =>
          exact (jump hjump hloops' (fun _ => rfl) (Nat.zero_le _) hnext.1 (hexits rfl).2).le
            (Nat.le_succ n)
  | ret offset value => exact ret hcode hlinked (halone rfl) hheight hnext
  | exit offset =>
      cases hcode with
      | exit hat =>
          exact (instr hat hloops' (fun _ => rfl) (Nat.zero_le _) (Nat.le_refl 0)
            (.inr (Nat.le_refl 0)) hnext.1 fun y hy => hy.elim).le (Nat.le_succ n)
  | func offset name params body => cases hcode
  | call offset target =>
      have hroom := halone rfl
      cases hcode with
      | call htarget hat =>
          have hneed : target.need ≤ B.height := hheight
          have hone := target.one_le_need
          have hlt := hat.lt
          have hpop := inside hroom hat ⟨rfl, fun _ _ _ hy => hy⟩ (h := 1) (.inl htarget.lt)
            (Nat.le_refl q) (by omega) (Nat.le_refl 1) rfl hnext
          exact (expr hroom htarget hlinked (.start p) (by omega) (by omega) hpop).le (by omega)
  | assign offset target value => exact assign hcode hlinked (halone rfl) hheight hnext

theorem stmts {exits : Option (Nat × Nat)} {k k' : Nat} {ss : List Stmt} {ctx : List (Nat × Nat)}
    {p q n : Nat} (hcode : StmtsCode L exits k ss p q k') (hlinked : Stmt.AllLinked L.registry ss)
    (hloops : ctx.length + Stmt.nestAll ss ≤ B.loops) (hheight : Stmt.needAll L.level ss ≤ B.height)
    (hmarks : B.Marked (Stmt.boundsAll L.registry L.level p ss) p q)
    (hexits : Emit.anyEscapes ss = true → L.Exits B n ctx exits) (hnext : L.Ready B n ctx q 0) :
    L.Ready B n ctx p 0 := by
  cases ss with
  | nil =>
      cases hcode
      exact hnext
  | cons s rest =>
      cases hcode with
      | @cons _ _ _ _ r _ _ _ _ hs hrest =>
          simp only [Stmt.needAll, Stmt.nestAll] at hheight hloops
          simp only [Emit.anyEscapes, Bool.or_eq_true] at hexits
          have w₁ := hs.width
          have hle := hrest.le
          rw [Stmt.boundsAll, ← w₁] at hmarks
          have hfirst := hmarks.take (b := r) hle fun x hx => (Stmt.boundsAll_within rest hx).1
          have hothers := hmarks.rest (by omega)
            (fun x hx => w₁ ▸ (Stmt.bounds_within s hx).2) (Stmt.start_mem_boundsAll _ _ r rest)
          have hbehind := stmts hrest hlinked.2 (by omega) (by omega) hothers
            (fun he => hexits (.inr he)) hnext
          exact stmt hs hlinked.1 (by omega) (by omega) hfirst (fun he => hexits (.inl he)) hbehind

theorem branches {exits : Option (Nat × Nat)} {k k' done : Nat} {b : Branches}
    {ctx : List (Nat × Nat)} {p q n : Nat} (hcode : BranchesCode L exits k done b p q k')
    (hlinked : Stmt.BranchesLinked L.registry b)
    (hloops : ctx.length + Stmt.nestBranches b ≤ B.loops)
    (hheight : Stmt.needBranches L.level b ≤ B.height)
    (hmarks : B.Marked (Stmt.boundsBranches L.registry L.level p b) p q)
    (hexits : Emit.branchesEscape b = true → L.Exits B n ctx exits)
    (hdone : L.Ready B n ctx done 0) (hnext : L.Ready B n ctx q 0) : L.Ready B n ctx p 0 := by
  cases b with
  | done =>
      cases hcode
      exact hnext
  | otherwise body =>
      cases hcode with
      | otherwise hbody => exact stmts hbody hlinked hloops hheight hmarks hexits hnext
  | elseIf e body rest =>
      cases hcode with
      | @elseIf _ _ q₁ q₂ q₄ _ _ _ q₃ k₁ _ _ _ _ htest hjump hbody hout hrest =>
          obtain ⟨htestLinked, hbodyLinked, hrestLinked⟩ := hlinked
          simp only [Stmt.needBranches, Stmt.nestBranches] at hheight hloops
          simp only [Emit.branchesEscape, Bool.or_eq_true] at hexits
          have w₁ := htest.width
          have w₂ := hjump.width
          have w₃ := hbody.width
          have w₄ := hout.width
          rw [Stmt.boundsBranches, ← w₁, ← w₂, ← w₃, ← w₄] at hmarks
          have hmarks' : B.Marked (p :: Stmt.boundsAll L.registry L.level q₂ body ++
              Stmt.boundsBranches L.registry L.level q₄ rest) p q := fun x hlo hlt hedge =>
            List.mem_cons_of_mem p (hmarks x hlo hlt hedge)
          refine branch htest hjump hout w₃ hrest.le htestLinked (by omega) (by omega) hmarks'
            (fun hm => ?_) (fun hm hleft => ?_) hdone
          · exact branches hrest hrestLinked (by omega) (by omega) hm (fun he => hexits (.inr he))
              hdone hnext
          · exact stmts hbody hbodyLinked (by omega) (by omega) hm (fun he => hexits (.inl he)) hleft

end

end Layout.Ready

-- The code of a whole script keeps its bounds, from its start with an empty stack.
theorem Layout.Carries.safe {inputs : List InputVar} {script : Script}
    (hcarries : L.Carries inputs script) (hlinked : Stmt.AllLinked L.registry script)
    (hheight : Stmt.needAll L.level script ≤ B.height) (hloops : Stmt.nestAll script ≤ B.loops)
    (hedge : ∀ x, B.edge x → x ∈ Stmt.boundsAll L.registry L.level 0 script) (n : Nat) :
    Safe L.env B n ⟨[], 0, 0⟩ := by
  obtain ⟨q, k, hcode, hexit⟩ := hcarries.code
  have hend : L.Ready B (n + 1) [] q 0 :=
    .instr hexit (Nat.zero_le _) (fun _ => rfl) (Nat.zero_le _) (Nat.le_refl 0)
      (.inr (Nat.le_refl 0)) (Nat.le_refl _) fun y hy => hy.elim
  have hstart := Layout.Ready.stmts hcode hlinked (by simpa using hloops) hheight
    (fun x _ _ hx => hedge x hx) (fun _ => trivial) (hend.le (Nat.le_succ n))
  exact hstart.2

end HostScript
