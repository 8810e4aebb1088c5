import HostScript.Proofs.Typing.Frames

namespace HostScript

-- A frame that binds no name twice.
def Frame.Tidy (f : Frame) : Prop :=
  (f.bindings.map (·.1)).Nodup

theorem Frame.Tidy.set {f : Frame} (h : f.Tidy) (name : String) (ty : Ty) :
    (f.set name ty).Tidy := by
  unfold Frame.Tidy Frame.set
  rw [List.map_cons, List.nodup_cons]
  constructor
  · simp
  · exact h.sublist (List.filter_sublist.map _)

namespace TypeContext

-- What may be done to a context between entering a block and leaving it.
inductive Move where
  | set (name : String) (ty : Ty)
  | push (kind : FrameKind)
  | pop
  deriving DecidableEq, Repr

-- By how much a move changes the number of frames.
def Move.rise : Move → Int
  | .set _ _ => 0
  | .push _ => 1
  | .pop => -1

def rise (moves : List Move) : Int :=
  (moves.map Move.rise).sum

-- Moves that leave all frames they enter, and no other ones.
structure Balanced (moves : List Move) : Prop where
  nested : ∀ first, first <+: moves → 0 ≤ rise first
  closed : rise moves = 0

instance (moves : List Move) : Decidable (Balanced moves) :=
  decidable_of_iff ((∀ first ∈ moves.inits, 0 ≤ rise first) ∧ rise moves = 0)
    ⟨fun h => ⟨fun first hfirst => h.1 first ((List.mem_inits _ _).mpr hfirst), h.2⟩,
      fun h => ⟨fun first hfirst => h.nested first ((List.mem_inits _ _).mp hfirst), h.closed⟩⟩

-- Leaves the innermost frame and visits its bindings in the given order.
def popIn (Γ : TypeContext) (order : List (String × Ty)) : TypeContext :=
  match Γ.frames with
  | f :: g :: rest => order.foldl (merge f.kind) ⟨g :: rest⟩
  | _ => Γ

-- One context comes from another by a move. A frame that is left may have its bindings visited in
-- any order.
inductive Moves (Γ : TypeContext) : Move → TypeContext → Prop
  | set (name : String) (ty : Ty) : Moves Γ (.set name ty) (Γ.set name ty)
  | push (kind : FrameKind) : Moves Γ (.push kind) (Γ.push kind)
  | pop {f : Frame} {outer : List Frame} {order : List (String × Ty)} :
      Γ.frames = f :: outer → order.Perm f.bindings → Moves Γ .pop (Γ.popIn order)

inductive MovesBy : TypeContext → List Move → TypeContext → Prop
  | nil {Γ : TypeContext} : MovesBy Γ [] Γ
  | cons {Γ Γ' Γ'' : TypeContext} {move : Move} {rest : List Move} :
      Moves Γ move Γ' → MovesBy Γ' rest Γ'' → MovesBy Γ (move :: rest) Γ''

-- What the moves make of a context when bindings are visited in the order in which they are kept.
def move (Γ : TypeContext) : Move → TypeContext
  | .set name ty => Γ.set name ty
  | .push kind => Γ.push kind
  | .pop => Γ.pop

variable {Γ Γ' Γ'' : TypeContext} {name x : String} {ty : Ty} {kind : FrameKind}
  {f g : Frame} {outer : List Frame} {bindings order : List (String × Ty)}

theorem pop_eq_popIn (h : Γ.frames = f :: outer) : Γ.pop = Γ.popIn f.bindings := by
  cases outer with
  | nil => simp only [pop, popIn, h]
  | cons g rest => simp only [pop, popIn, h]

theorem lookup_set_eq (h : Γ.frames ≠ []) :
    (Γ.set name ty).lookup x = if x = name then some ty else Γ.lookup x := by
  obtain ⟨f, rest, hframes⟩ := List.exists_cons_of_ne_nil h
  have hset : (Γ.set name ty).frames = f.set name ty :: rest := by simp [set, hframes]
  rw [lookup_cons hset, lookup_cons hframes, Frame.set, List.lookup_cons]
  by_cases hx : x = name
  · simp [hx]
  · rw [show (x == name) = false by simpa using hx, lookup_filter_ne hx, if_neg hx]

theorem lookup_merge_condition (h : Γ.frames ≠ []) (binding : String × Ty) :
    (merge .condition Γ binding).lookup x =
      if x = binding.1 ∧ Γ.lookup x ≠ some binding.2 then some .dynamic else Γ.lookup x := by
  unfold merge
  by_cases hsame : Γ.lookup binding.1 = some binding.2
  · have hx : ¬(x = binding.1 ∧ Γ.lookup x ≠ some binding.2) := by
      rintro ⟨rfl, hne⟩
      exact hne hsame
    rw [if_neg hx]
    simp only [hsame, if_true]
  · simp only [hsame, if_false]
    rw [lookup_set_eq h]
    by_cases hx : x = binding.1
    · subst hx
      simp [hsame]
    · simp [hx]

theorem frames_merge_ne_nil (h : Γ.frames ≠ []) (binding : String × Ty) :
    (merge kind Γ binding).frames ≠ [] := by
  have hone : Γ.Beside ([binding].foldl (merge kind) Γ) := beside_foldl_merge h
  exact hone.nonempty

-- A branch widens what it changed, each name once, so that no binding meets what another one left.
theorem lookup_foldl_merge_condition (h : Γ.frames ≠ []) (hnodup : (bindings.map (·.1)).Nodup) :
    (bindings.foldl (merge .condition) Γ).lookup x =
      if bindings.lookup x = none ∨ bindings.lookup x = Γ.lookup x then Γ.lookup x
      else some .dynamic := by
  induction bindings generalizing Γ with
  | nil => simp
  | cons binding rest ih =>
      obtain ⟨y, t⟩ := binding
      rw [List.map_cons, List.nodup_cons] at hnodup
      rw [List.foldl_cons, ih (frames_merge_ne_nil h _) hnodup.2, lookup_merge_condition h,
        List.lookup_cons]
      by_cases hx : x = y
      · subst hx
        have hrest : rest.lookup x = none := by
          rw [List.lookup_eq_none_iff]
          intro b hb
          rw [bne_iff_ne]
          rintro rfl
          exact hnodup.1 (List.mem_map.mpr ⟨b, hb, rfl⟩)
        by_cases hsame : Γ.lookup x = some t
        · simp [hrest, hsame]
        · simp [hrest, hsame, Ne.symm hsame]
      · have hne : (x == y) = false := by simpa using hx
        simp only [hne, hx, false_and, if_false]

theorem lookup_of_mem (hnodup : (bindings.map (·.1)).Nodup) (hmem : (x, ty) ∈ bindings) :
    bindings.lookup x = some ty := by
  induction bindings with
  | nil => cases hmem
  | cons binding rest ih =>
      obtain ⟨y, t⟩ := binding
      rw [List.map_cons, List.nodup_cons] at hnodup
      rw [List.lookup_cons]
      rcases List.mem_cons.mp hmem with heq | hrest
      · cases heq
        simp
      · have hx : x ≠ y := by
          rintro rfl
          exact hnodup.1 (List.mem_map.mpr ⟨(x, ty), hrest, rfl⟩)
        rw [show (x == y) = false by simpa using hx]
        exact ih hnodup.2 hrest

theorem mem_of_lookup (h : bindings.lookup x = some ty) : (x, ty) ∈ bindings := by
  induction bindings with
  | nil => cases h
  | cons binding rest ih =>
      obtain ⟨y, t⟩ := binding
      rw [List.lookup_cons] at h
      by_cases hx : x = y
      · subst hx
        simp only [beq_self_eq_true, Option.some.injEq] at h
        simp [h]
      · rw [show (x == y) = false by simpa using hx] at h
        exact List.mem_cons_of_mem _ (ih h)

theorem lookup_perm (hperm : order.Perm bindings) (hnodup : (bindings.map (·.1)).Nodup) :
    order.lookup x = bindings.lookup x := by
  have hnodup' : (order.map (·.1)).Nodup := (hperm.map _).nodup_iff.mpr hnodup
  refine Option.ext fun t => ?_
  constructor
  · intro h
    exact lookup_of_mem hnodup (hperm.mem_iff.mp (mem_of_lookup h))
  · intro h
    exact lookup_of_mem hnodup' (hperm.mem_iff.mpr (mem_of_lookup h))

-- Visiting bindings touches no frame but the innermost one.
theorem exists_head_merge (order : List (String × Ty)) (f : Frame) (outer : List Frame) :
    ∃ f', (order.foldl (merge kind) ⟨f :: outer⟩).frames = f' :: outer ∧ f'.kind = f.kind ∧
      (f.Tidy → f'.Tidy) := by
  induction order generalizing f with
  | nil => exact ⟨f, rfl, rfl, id⟩
  | cons binding rest ih =>
      have hset : ∀ ty, ∃ f', (rest.foldl (merge kind) (set ⟨f :: outer⟩ binding.1 ty)).frames =
          f' :: outer ∧ f'.kind = f.kind ∧ (f.Tidy → f'.Tidy) := by
        intro ty
        obtain ⟨f', hframes, hkind, htidy⟩ := ih (f.set binding.1 ty)
        exact ⟨f', hframes, hkind, fun h => htidy (h.set _ _)⟩
      rw [List.foldl_cons]
      unfold merge
      split
      · split
        · exact ih f
        · exact hset _
      · exact hset _
      · exact hset _

-- A context inside a block that was entered as `kind` on top of `outer`, so many frames deep.
def Inside (outer : List Frame) (kind : FrameKind) (depth : Int) (Γ : TypeContext) : Prop :=
  ∃ stack, Γ.frames = stack ++ outer ∧ (stack.length : Int) = depth + 1 ∧
    (stack.map (·.kind)).getLast? = some kind ∧ ∀ f ∈ stack, f.Tidy

namespace Inside

variable {depth : Int}

theorem entered (Γ : TypeContext) (kind : FrameKind) : Inside Γ.frames kind 0 (Γ.push kind) :=
  ⟨[{ kind }], rfl, rfl, rfl, by simp [Frame.Tidy]⟩

-- Another innermost frame of the same kind.
theorem head {f' : Frame} {rest : List Frame} (h : Inside outer kind depth Γ) (hdepth : 0 ≤ depth)
    (hframes : Γ.frames = f :: rest) (hframes' : Γ'.frames = f' :: rest) (hkind : f'.kind = f.kind)
    (htidy : f.Tidy → f'.Tidy) : Inside outer kind depth Γ' := by
  obtain ⟨stack, hstack, hlength, hlast, hall⟩ := h
  cases stack with
  | nil =>
      simp only [List.length_nil] at hlength
      omega
  | cons g inner =>
      rw [hframes, List.cons_append] at hstack
      obtain ⟨rfl, rfl⟩ := List.cons.inj hstack
      refine ⟨f' :: inner, hframes', by simpa using hlength, by simpa [hkind] using hlast, ?_⟩
      intro g hg
      rcases List.mem_cons.mp hg with rfl | hg
      · exact htidy (hall f List.mem_cons_self)
      · exact hall g (List.mem_cons_of_mem _ hg)

-- A frame more, or, as long as the block itself is not left, a frame less.
theorem step {move : Move} (h : Inside outer kind depth Γ) (hdepth : 0 ≤ depth)
    (hmove : Moves Γ move Γ') (hafter : 0 ≤ depth + move.rise) :
    Inside outer kind (depth + move.rise) Γ' := by
  cases hmove with
  | set name ty =>
      simp only [Move.rise, Int.add_zero]
      obtain ⟨stack, hstack, hlength, -⟩ := id h
      cases stack with
      | nil =>
          simp only [List.length_nil] at hlength
          omega
      | cons f inner =>
          have hset : (Γ.set name ty).frames = f.set name ty :: (inner ++ outer) := by
            simp [TypeContext.set, hstack]
          exact h.head hdepth hstack hset rfl fun hf => hf.set name ty
  | push k =>
      obtain ⟨stack, hstack, hlength, hlast, hall⟩ := h
      refine ⟨{ kind := k } :: stack, by simp [push, hstack], ?_, ?_, ?_⟩
      · simp only [List.length_cons, Move.rise]
        omega
      · rw [List.map_cons, List.getLast?_cons, hlast]
        rfl
      · intro g hg
        rcases List.mem_cons.mp hg with rfl | hg
        · simp [Frame.Tidy]
        · exact hall g hg
  | @pop f rest order hframes _ =>
      obtain ⟨stack, hstack, hlength, hlast, hall⟩ := h
      simp only [Move.rise] at hafter ⊢
      -- The block's own frame is still there, and one more, which is left now.
      obtain ⟨f', rest', rfl⟩ : ∃ f' rest', stack = f' :: rest' :=
        List.exists_cons_of_length_pos (by omega)
      simp only [List.length_cons] at hlength
      obtain ⟨g, inner, rfl⟩ : ∃ g inner, rest' = g :: inner :=
        List.exists_cons_of_length_pos (by omega)
      have hinner : Inside outer kind (depth + -1) ⟨g :: (inner ++ outer)⟩ := by
        refine ⟨g :: inner, rfl, ?_, by simpa using hlast, ?_⟩
        · simp only [List.length_cons] at hlength ⊢
          omega
        · exact fun k hk => hall k (List.mem_cons_of_mem _ hk)
      obtain ⟨g', hg', hkind, htidy⟩ := exists_head_merge order g (inner ++ outer)
      have hpop : (Γ.popIn order).frames = g' :: (inner ++ outer) := by
        simp only [popIn, hstack, List.cons_append]
        exact hg'
      exact hinner.head (by omega) rfl hpop hkind htidy

theorem steps {moves : List Move} (h : Inside outer kind depth Γ) (hrun : MovesBy Γ moves Γ')
    (hnested : ∀ first, first <+: moves → 0 ≤ depth + rise first) :
    Inside outer kind (depth + rise moves) Γ' := by
  induction hrun generalizing depth with
  | nil => simpa [rise] using h
  | @cons Γ Γ' Γ'' move rest hmove _ ih =>
      have hdepth : 0 ≤ depth := by simpa [rise] using hnested [] List.nil_prefix
      have hafter : 0 ≤ depth + move.rise := by
        simpa [rise] using hnested [move] (by simp)
      have hrest := ih (h.step hdepth hmove hafter) fun first hfirst => by
        have := hnested (move :: first) (List.cons_prefix_cons.mpr ⟨rfl, hfirst⟩)
        simp only [rise, List.map_cons, List.sum_cons] at this ⊢
        omega
      simp only [rise, List.map_cons, List.sum_cons] at hrest ⊢
      rwa [← Int.add_assoc]

end Inside

-- Visiting bindings in the order in which they are kept is one of the ways to go.
theorem moves_move (h : Γ.frames ≠ []) (m : Move) : Moves Γ m (Γ.move m) := by
  cases m with
  | set name ty => exact .set name ty
  | push kind => exact .push kind
  | pop =>
      obtain ⟨f, outer, hframes⟩ := List.exists_cons_of_ne_nil h
      rw [move, pop_eq_popIn hframes]
      exact .pop hframes (.refl _)

theorem frames_move_ne_nil (h : Γ.frames ≠ []) (m : Move) : (Γ.move m).frames ≠ [] := by
  cases m with
  | set name ty => exact (beside_set h).nonempty
  | push kind => exact push_ne_nil
  | pop =>
      simp only [move, pop]
      split
      · exact (beside_foldl_merge (by simp)).nonempty
      · exact h

theorem movesBy_moves (h : Γ.frames ≠ []) (moves : List Move) :
    MovesBy Γ moves (moves.foldl move Γ) := by
  induction moves generalizing Γ with
  | nil => exact .nil
  | cons m rest ih => exact .cons (moves_move h m) (ih (frames_move_ne_nil h m))

-- Whatever a branch does to its own frame and to frames inside it, in whatever order the bindings
-- of a frame that is left are visited: the frames around the branch stay as they are until it is
-- left, and then each name has the type it had before, unless the branch ended with another one for
-- it. What is known of such a name is only that it may be anything.
theorem lookup_behind_branch (Γ : TypeContext) (hΓ : Γ.frames ≠ []) (moves : List Move)
    (hmoves : Balanced moves) :
    MovesBy (Γ.push .condition) moves (moves.foldl move (Γ.push .condition)) ∧
    (∀ first Γ', first <+: moves → MovesBy (Γ.push .condition) first Γ' →
      ∃ inner, inner ≠ [] ∧ Γ'.frames = inner ++ Γ.frames) ∧
    ∀ Γ', MovesBy (Γ.push .condition) moves Γ' → ∃ f, Γ'.frames = f :: Γ.frames ∧
      Moves Γ' .pop Γ'.pop ∧ ∀ Γ'', Moves Γ' .pop Γ'' → ∀ x, Γ''.lookup x =
        if f.bindings.lookup x = none ∨ f.bindings.lookup x = Γ.lookup x then Γ.lookup x
        else some .dynamic := by
  have hinside : ∀ first Γ', first <+: moves → MovesBy (Γ.push .condition) first Γ' →
      Inside Γ.frames .condition (rise first) Γ' := by
    intro first Γ' hfirst hrun
    have hsteps := (Inside.entered Γ .condition).steps hrun fun part hpart => by
      simpa using hmoves.nested part (hpart.trans hfirst)
    simpa using hsteps
  refine ⟨movesBy_moves push_ne_nil moves, fun first Γ' hfirst hrun => ?_, fun Γ' hrun => ?_⟩
  · obtain ⟨stack, hstack, hlength, -⟩ := hinside first Γ' hfirst hrun
    refine ⟨stack, ?_, hstack⟩
    rintro rfl
    have hnested := hmoves.nested first hfirst
    simp only [List.length_nil] at hlength
    omega
  · obtain ⟨stack, hstack, hlength, hlast, htidy⟩ := hinside moves Γ' List.prefix_rfl hrun
    rw [hmoves.closed] at hlength
    obtain ⟨f, rfl⟩ : ∃ f, stack = [f] := List.length_eq_one_iff.mp (by omega)
    refine ⟨f, hstack, moves_move (by simp [hstack]) .pop, fun Γ'' hpop x => ?_⟩
    have hkind : f.kind = .condition := by simpa using hlast
    cases hpop with
    | @pop f' outer order hframes hperm =>
        rw [hstack] at hframes
        obtain ⟨rfl, rfl⟩ := List.cons.inj hframes
        obtain ⟨g, rest, hΓ'⟩ := List.exists_cons_of_ne_nil hΓ
        have hleft : Γ'.popIn order = order.foldl (merge .condition) Γ := by
          simp only [popIn, hstack, List.singleton_append, hΓ', hkind]
          rw [← hΓ']
        have hnodup : (f.bindings.map (·.1)).Nodup := htidy f List.mem_cons_self
        rw [hleft, lookup_foldl_merge_condition hΓ ((hperm.map _).nodup_iff.mpr hnodup),
          lookup_perm hperm hnodup]

-- A branch with a loop inside, and a branch in that.
theorem lookup_behind_branch_with_loop :
    let Γ : TypeContext := ⟨[{ kind := .global, bindings := [("x", .long), ("y", .long)] }]⟩
    let moves : List Move := [.set "y" .string, .push .loop, .set "z" .bool, .push .condition,
      .set "x" .string, .pop, .pop, .set "y" .long]
    Γ.frames ≠ [] ∧ Balanced moves ∧
    ∀ Γ'', Moves (moves.foldl move (Γ.push .condition)) .pop Γ'' →
      Γ''.lookup "x" = some .dynamic ∧ Γ''.lookup "y" = some .long ∧
      Γ''.lookup "z" = some .dynamic ∧ Γ''.lookup "w" = none := by
  intro Γ moves
  have hΓ : Γ.frames ≠ [] := by decide
  have hmoves : Balanced moves := by decide
  refine ⟨hΓ, hmoves, fun Γ'' hpop => ?_⟩
  obtain ⟨hrun, -, hleft⟩ := lookup_behind_branch Γ hΓ moves hmoves
  obtain ⟨f, hframes, -, hlookup⟩ := hleft _ hrun
  obtain rfl := (List.cons.inj hframes).1
  rw [hlookup Γ'' hpop, hlookup Γ'' hpop, hlookup Γ'' hpop, hlookup Γ'' hpop]
  decide

end TypeContext

end HostScript
