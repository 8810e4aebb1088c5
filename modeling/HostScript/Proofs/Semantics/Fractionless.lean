import HostScript.Proofs.Number.Fractionless
import HostScript.Proofs.Semantics.Safety

namespace HostScript

-- A number that is whole if it is finite.
def Value.Fractionless : Value → Prop
  | .number y => Number.isWhole y = y.isFinite
  | _ => False

namespace Value

theorem fractionless_number {y : Float} (h : Number.Fractionless y.toModel.unpack) :
    (Value.number y).Fractionless :=
  (Number.fractionless_iff y).mp h

theorem Fractionless.exists_number {v : Value} (h : v.Fractionless) :
    ∃ y, v = .number y ∧ Number.Fractionless y.toModel.unpack := by
  cases v with
  | number y => exact ⟨y, rfl, (Number.fractionless_iff y).mpr h⟩
  | _ => exact h.elim

-- Where a whole number is asked for, nothing but a number that is whole is let through.
theorem isWhole_of_admits {r : Registry} {v : Value} (h : Ty.long.admits (r.typeOf v) = true) :
    ∃ y, v = .number y ∧ Number.isWhole y = true := by
  cases v with
  | number y =>
      refine ⟨y, rfl, ?_⟩
      by_contra hnot
      simp [Registry.typeOf, hnot, Ty.admits] at h
  | object o =>
      simp only [Registry.typeOf] at h
      cases hty : r.typeOfObject? o with
      | none => simp [hty, Ty.admits] at h
      | some id => simp [hty, Ty.admits] at h
  | _ => simp [Registry.typeOf, Ty.admits, Ty.isNullable] at h

theorem Fractionless.of_answers {r : Registry} {v : Value} (h : v.Answers r .long) :
    v.Fractionless := by
  rcases h with ⟨hvoid, -⟩ | hadmits
  · cases hvoid
  · obtain ⟨y, rfl, hwhole⟩ := isWhole_of_admits hadmits
    exact fractionless_number (Number.fractionless_of_integral ((Number.isWhole_iff y).mp hwhole))

-- It is let through just if it is finite.
theorem Fractionless.admits_iff {r : Registry} {y : Float} (h : (Value.number y).Fractionless) :
    Ty.long.admits (r.typeOf (.number y)) = true ↔ y.isFinite = true := by
  rw [← h]
  constructor
  · intro hadmits
    obtain ⟨_, heq, hwhole⟩ := isWhole_of_admits hadmits
    cases heq
    exact hwhole
  · intro hwhole
    simp [Registry.typeOf, hwhole, Ty.admits]

end Value

namespace Ty

theorem arithResult?_long {t₁ t₂ : Ty} (h : arithResult? t₁ t₂ = some .long) :
    t₁ = .long ∧ t₂ = .long := by
  unfold arithResult? at h
  split at h
  · cases h
  · split at h
    · simpa using ‹(t₁ = .long && t₂ = .long) = true›
    · cases h

end Ty

namespace Dialect

-- Only arithmetic on whole numbers is recorded as a whole number, and no quotient.
theorem result_long {op : BinaryOp} {t₁ t₂ : Ty} (h : op.result? t₁ t₂ = some .long) :
    ∃ o, op = .arith o ∧ o ≠ .div ∧ t₁ = .long ∧ t₂ = .long := by
  cases op with
  | arith o =>
      cases o with
      | add =>
          rcases Ty.addResult?_cases h with ⟨hstring, -⟩ | hdynamic | ⟨-, -, harith⟩
          · cases hstring
          · cases hdynamic
          · exact ⟨.add, rfl, nofun, Ty.arithResult?_long harith⟩
      | div =>
          obtain ⟨_, -, hdouble⟩ := Option.map_eq_some_iff.mp h
          cases hdouble
      | sub => exact ⟨.sub, rfl, nofun, Ty.arithResult?_long h⟩
      | mul => exact ⟨.mul, rfl, nofun, Ty.arithResult?_long h⟩
      | mod => exact ⟨.mod, rfl, nofun, Ty.arithResult?_long h⟩
  | _ =>
      simp only [BinaryOp.result?] at h
      split at h <;> cases h

variable {D : Dialect}

theorem operate_numbers (o : Arith) (numeric : Bool) (x y : Float) :
    D.operate (.arith o) numeric (.number x) (.number y) = pure (.number (o.apply x y)) := by
  unfold operate
  split <;> rfl

theorem operateOn_number (numeric : Bool) (x : Float) :
    D.operateOn .neg numeric (.number x) = pure (.number (-x)) := by
  unfold operateOn
  split <;> rfl

-- All that is said about values is that those of type `long` are whole numbers if they are finite.
theorem reading_fractionless (D : Dialect) :
    D.Reading (fun v ty => ty = .long → v.Fractionless) (fun e => ¬e.Jumps) where
  fault _ _ := id
  mistyped _ _ _ _ _ _ := id
  dynamic _ hlong := by cases hlong
  literal l hlong := by
    cases l with
    | long n => exact Value.fractionless_number (Number.fractionless_ofLong n)
    | _ => cases hlong
  answers v ty h hlong := Value.Fractionless.of_answers (hlong ▸ h)
  object _ _ hlong := by cases hlong
  operate {op t₁ t₂ t a b} h hop ha hb := by
    by_cases hlong : t = .long
    · subst hlong
      obtain ⟨o, rfl, hdiv, h₁, h₂⟩ := result_long h
      obtain ⟨x, rfl, hx⟩ := (ha h₁).exists_number
      obtain ⟨y, rfl, hy⟩ := (hb h₂).exists_number
      rw [operate_numbers]
      exact .pure fun _ => Value.fractionless_number (Number.fractionless_apply hdiv hx hy)
    · exact (operate_gives D _ a b h hop).imp fun _ _ heq => absurd heq hlong
  operateOn {op t₁ t a} h ha := by
    by_cases hlong : t = .long
    · subst hlong
      obtain ⟨rfl, h₁⟩ : op = .neg ∧ t₁ = .long := by
        cases op <;> cases t₁ <;> cases h
        exact ⟨rfl, rfl⟩
      obtain ⟨x, rfl, hx⟩ := (ha h₁).exists_number
      rw [operateOn_number]
      refine .pure fun _ => Value.fractionless_number ?_
      rw [Number.unpack_neg]
      exact Number.fractionless_neg hx
    · exact (operateOn_gives D _ a h).imp fun _ _ heq => absurd heq hlong

theorem control_fractionless :
    Control (fun v ty => ty = .long → v.Fractionless) (fun e => ¬e.Jumps) where
  stays _ h := h
  exit := id
  ret _ := id
  stray _ _ _ _ _ := id
  limit _ _ _ _ := id

theorem compares_fractionless : Compares (fun v ty => ty = .long → v.Fractionless) Ty.wholeTo where
  imp v t u hle h hlong := h (by simpa [Ty.wholeTo, hlong] using hle)
  number ty hty := rfl

end Dialect

end HostScript
