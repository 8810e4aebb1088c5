import HostScript.Proofs.Typing.Judgement

namespace HostScript

namespace TypeContext

variable {Γ Γ' : TypeContext} {name x : String} {ty t : Ty}

theorem push_ne_nil {kind : FrameKind} : (Γ.push kind).frames ≠ [] :=
  List.cons_ne_nil _ _

theorem lookup_push (kind : FrameKind) : (Γ.push kind).lookup x = Γ.lookup x := by
  simp only [lookup, push, List.findSome?_cons]
  rfl

theorem lookup_cons {f : Frame} {rest : List Frame} (h : Γ.frames = f :: rest) :
    Γ.lookup x = (f.bindings.lookup x).or (lookup ⟨rest⟩ x) := by
  simp only [lookup, h, List.findSome?_cons]
  cases f.bindings.lookup x <;> rfl

theorem lookup_filter_ne {l : List (String × Ty)} (hx : x ≠ name) :
    (l.filter (·.1 ≠ name)).lookup x = l.lookup x := by
  induction l with
  | nil => rfl
  | cons binding rest ih =>
      obtain ⟨y, u⟩ := binding
      by_cases hy : y = name
      · have hxy : (x == y) = false := by simpa [hy] using hx
        rw [List.filter_cons_of_neg (by simp [hy]), ih, List.lookup_cons, hxy]
      · rw [List.filter_cons_of_pos (by simp [hy]), List.lookup_cons, List.lookup_cons, ih]

-- A variable that was set has its new type, and all others have theirs.
theorem lookup_set (h : (Γ.set name ty).lookup x = some t) :
    (x = name ∧ t = ty) ∨ (x ≠ name ∧ Γ.lookup x = some t) := by
  cases hframes : Γ.frames with
  | nil =>
      have hsame : Γ.set name ty = Γ := by simp [set, hframes]
      rw [hsame] at h
      simp [lookup, hframes] at h
  | cons f rest =>
      have hset : (Γ.set name ty).frames = f.set name ty :: rest := by simp [set, hframes]
      rw [lookup_cons hset, Frame.set, List.lookup_cons] at h
      by_cases hx : x = name
      · rw [show (x == name) = true by simpa using hx] at h
        exact .inl ⟨hx, (Option.some.inj h).symm⟩
      · rw [show (x == name) = false by simpa using hx, lookup_filter_ne hx] at h
        exact .inr ⟨hx, (lookup_cons hframes).trans h⟩

-- After a branch that may or may not have run, a variable has a type only if it had that type before
-- and the branch gave it no other one.
theorem lookup_merge {bindings : List (String × Ty)}
    (h : (bindings.foldl (merge .condition) Γ).lookup x = some t) :
    t = .dynamic ∨ (Γ.lookup x = some t ∧ ∀ binding ∈ bindings, binding.1 = x → binding.2 = t) := by
  induction bindings generalizing Γ with
  | nil => exact .inr ⟨h, by simp⟩
  | cons binding rest ih =>
      rcases ih h with hdynamic | ⟨hlookup, hrest⟩
      · exact .inl hdynamic
      · unfold merge at hlookup
        dsimp only at hlookup
        split at hlookup
        · rename_i hsame
          refine .inr ⟨hlookup, fun b hb hbx => ?_⟩
          rcases List.mem_cons.mp hb with rfl | hb
          · rw [hbx, hlookup] at hsame
            exact (Option.some.inj hsame).symm
          · exact hrest b hb hbx
        · rcases lookup_set hlookup with ⟨-, rfl⟩ | ⟨hx, hold⟩
          · exact .inl rfl
          · refine .inr ⟨hold, fun b hb hbx => ?_⟩
            rcases List.mem_cons.mp hb with rfl | hb
            · exact absurd hbx.symm hx
            · exact hrest b hb hbx

-- Only the innermost block differs, and it is of the same kind.
def Beside (Γ Γ' : TypeContext) : Prop :=
  ∃ f f' rest, Γ.frames = f :: rest ∧ Γ'.frames = f' :: rest ∧ f'.kind = f.kind

theorem Beside.refl (h : Γ.frames ≠ []) : Γ.Beside Γ := by
  obtain ⟨f, rest, hframes⟩ := List.exists_cons_of_ne_nil h
  exact ⟨f, f, rest, hframes, hframes, rfl⟩

theorem Beside.trans {Γ'' : TypeContext} (h : Γ.Beside Γ') (h' : Γ'.Beside Γ'') : Γ.Beside Γ'' := by
  obtain ⟨f, f₁, rest, hf, hf₁, hkind⟩ := h
  obtain ⟨f₁', f₂, rest', hf₁', hf₂, hkind'⟩ := h'
  rw [hf₁] at hf₁'
  cases hf₁'
  exact ⟨f, f₂, rest, hf, hf₂, hkind'.trans hkind⟩

theorem Beside.nonempty (h : Γ.Beside Γ') : Γ'.frames ≠ [] := by
  obtain ⟨f, f', rest, -, hf', -⟩ := h
  simp [hf']

theorem beside_set (h : Γ.frames ≠ []) : Γ.Beside (Γ.set name ty) := by
  obtain ⟨f, rest, hframes⟩ := List.exists_cons_of_ne_nil h
  exact ⟨f, f.set name ty, rest, hframes, by simp [set, hframes], rfl⟩

theorem beside_foldl_merge {kind : FrameKind} {bindings : List (String × Ty)} (h : Γ.frames ≠ []) :
    Γ.Beside (bindings.foldl (merge kind) Γ) := by
  induction bindings generalizing Γ with
  | nil => exact .refl h
  | cons binding rest ih =>
      have hone : Γ.Beside (merge kind Γ binding) := by
        unfold merge
        split
        · split
          · exact .refl h
          · exact beside_set h
        · exact beside_set h
        · exact beside_set h
      exact hone.trans (ih hone.nonempty)

-- A block that was entered is left again.
theorem exists_pop {kind : FrameKind} (h : Γ.frames ≠ []) (hbeside : (Γ.push kind).Beside Γ') :
    ∃ f, Γ'.frames = f :: Γ.frames ∧ f.kind = kind ∧ Γ'.pop = f.bindings.foldl (merge kind) Γ := by
  obtain ⟨f, f', rest, hf, hf', hkind⟩ := hbeside
  cases hf
  obtain ⟨g, outer, hframes⟩ := List.exists_cons_of_ne_nil h
  refine ⟨f', hf', hkind, ?_⟩
  have hkind : f'.kind = kind := hkind
  simp only [pop, hf', hframes, hkind]
  rw [← hframes]

theorem beside_pop {kind : FrameKind} (h : Γ.frames ≠ []) (hbeside : (Γ.push kind).Beside Γ') :
    Γ.Beside Γ'.pop := by
  obtain ⟨f, -, -, hpop⟩ := exists_pop h hbeside
  rw [hpop]
  exact beside_foldl_merge h

end TypeContext

namespace Stmt

mutual

-- A statement without loops inside.
def LoopFree : Stmt → Prop
  | .whileLoop _ _ _ | .forLoop _ _ _ _ _ | .eachLoop _ _ _ _ _ | .countLoop _ _ _ => False
  | .cond _ _ body rest => AllLoopFree body ∧ BranchesLoopFree rest
  | .func _ _ _ body => AllLoopFree body
  | _ => True

def AllLoopFree : List Stmt → Prop
  | [] => True
  | s :: rest => s.LoopFree ∧ AllLoopFree rest

def BranchesLoopFree : Branches → Prop
  | .done => True
  | .otherwise body => AllLoopFree body
  | .elseIf _ body rest => AllLoopFree body ∧ BranchesLoopFree rest

end

mutual

def decLoopFree : (s : Stmt) → Decidable s.LoopFree
  | .whileLoop _ _ _ | .forLoop _ _ _ _ _ | .eachLoop _ _ _ _ _ | .countLoop _ _ _ => .isFalse id
  | .cond _ _ body rest =>
    have := decAllLoopFree body
    have := decBranchesLoopFree rest
    inferInstanceAs (Decidable (AllLoopFree body ∧ BranchesLoopFree rest))
  | .func _ _ _ body => decAllLoopFree body
  | .using _ _ | .input _ _ _ _ | .var _ | .leave _ | .again _ | .ret _ _ | .exit _ | .call _ _
  | .assign _ _ _ => .isTrue trivial

def decAllLoopFree : (ss : List Stmt) → Decidable (AllLoopFree ss)
  | [] => .isTrue trivial
  | s :: rest =>
    have := decLoopFree s
    have := decAllLoopFree rest
    inferInstanceAs (Decidable (s.LoopFree ∧ AllLoopFree rest))

def decBranchesLoopFree : (b : Branches) → Decidable (BranchesLoopFree b)
  | .done => .isTrue trivial
  | .otherwise body => decAllLoopFree body
  | .elseIf _ body rest =>
    have := decAllLoopFree body
    have := decBranchesLoopFree rest
    inferInstanceAs (Decidable (AllLoopFree body ∧ BranchesLoopFree rest))

end

instance (ss : List Stmt) : Decidable (AllLoopFree ss) := decAllLoopFree ss

end Stmt

variable {r : Registry} {t : SymbolTable}

theorem VarStmt.Typed.beside {Γ Γ' : TypeContext} {v : VarStmt} (h : v.Typed r t Γ Γ')
    (hΓ : Γ.frames ≠ []) : Γ.Beside Γ' := by
  cases h with
  | declare => exact TypeContext.beside_set hΓ
  | update => exact TypeContext.beside_set hΓ

namespace Stmt

mutual

-- What is known outside the block around a statement stays as it is.
theorem Typed.beside {Γ Γ' : TypeContext} {s : Stmt} (h : s.Typed r t Γ Γ') (hfree : s.LoopFree)
    (hΓ : Γ.frames ≠ []) : Γ.Beside Γ' := by
  cases h with
  | var hv => exact hv.beside hΓ
  | cond _ _ hbody hrest =>
      have hframed := TypeContext.beside_pop hΓ (hbody.beside hfree.1 TypeContext.push_ne_nil)
      exact hframed.trans (hrest.beside hfree.2 hframed.nonempty)
  | whileLoop => exact hfree.elim
  | forLoop => exact hfree.elim
  | eachLoop => exact hfree.elim
  | countLoop => exact hfree.elim
  | _ => exact .refl hΓ

theorem AllTyped.beside {Γ Γ' : TypeContext} {ss : List Stmt} (h : AllTyped r t Γ ss Γ')
    (hfree : AllLoopFree ss) (hΓ : Γ.frames ≠ []) : Γ.Beside Γ' := by
  cases h with
  | nil => exact .refl hΓ
  | cons hs hrest =>
      have hone := hs.beside hfree.1 hΓ
      exact hone.trans (hrest.beside hfree.2 hone.nonempty)

theorem BranchesTyped.beside {Γ Γ' : TypeContext} {b : Branches} (h : BranchesTyped r t Γ b Γ')
    (hfree : BranchesLoopFree b) (hΓ : Γ.frames ≠ []) : Γ.Beside Γ' := by
  cases h with
  | done => exact .refl hΓ
  | otherwise hbody => exact TypeContext.beside_pop hΓ (hbody.beside hfree TypeContext.push_ne_nil)
  | elseIf _ _ hbody hrest =>
      have hframed := TypeContext.beside_pop hΓ (hbody.beside hfree.1 TypeContext.push_ne_nil)
      exact hframed.trans (hrest.beside hfree.2 hframed.nonempty)

end

end Stmt

end HostScript
