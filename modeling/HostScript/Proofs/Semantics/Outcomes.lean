import HostScript.Proofs.Semantics.Evaluate
import HostScript.Proofs.Stateful
import HostScript.Typing.Operators

namespace HostScript

-- Faults that a script can bring about by itself. Where operands are not looked at any more, that
-- they are no numbers is found out late.
def Fault.usual (strict : Bool) (f : Fault) : Bool :=
  match f with
  | .notNumbers | .notANumber => !strict
  | _ => f.code ∈ [.invalidOperation, .invalidType, .hostCallFailed, .invalidMember]

-- What may come from a host where this type is declared.
def Value.Answers (r : Registry) (declared : Ty) (x : Value) : Prop :=
  (declared = .void ∧ x = .null) ∨ declared.admits (r.typeOf x) = true

theorem Value.Answers.conforms {r : Registry} {declared : Ty} {x : Value}
    (h : x.Answers r declared) : x.conforms declared = true := by
  rcases h with ⟨rfl, rfl⟩ | hadmits
  · rfl
  · exact conforms_of_admits hadmits

-- A calculation that gives what `P` says, or ends with a usual fault.
def Calc.Gives {α : Type} (strict : Bool) (P : α → Prop) (k : Calc α) : Prop :=
  ∀ o, Upholds (fun f _ => f.usual strict = true) (fun a _ => P a) (k o)

namespace Calc

variable {α β : Type} {strict : Bool} {P : α → Prop} {R : β → Prop}

namespace Gives

theorem bind {k : Calc α} {f : α → Calc β} (hk : k.Gives strict P)
    (hf : ∀ a, P a → (f a).Gives strict R) : (k >>= f).Gives strict R :=
  fun o => (hk o).bind fun a o' ha => hf a ha o'

theorem imp {P' : α → Prop} {k : Calc α} (hk : k.Gives strict P) (himp : ∀ a, P a → P' a) :
    k.Gives strict P' :=
  fun o => (hk o).weaken fun a _ ha => himp a ha

theorem always {k : Calc α} (hk : k.Gives strict P) : k.Gives strict fun _ => True :=
  hk.imp fun _ _ => trivial

theorem pure {a : α} (h : P a) : Gives strict P (Pure.pure a) :=
  fun _ => h

theorem throw {f : Fault} (h : f.usual strict = true) : Gives strict P (MonadExcept.throw f) :=
  fun _ => h

theorem seq {k : Calc α} {f : α → Calc β} (hk : k.Gives strict fun _ => True)
    (hf : ∀ a, (f a).Gives strict R) : (k >>= f).Gives strict R :=
  hk.bind fun a _ => hf a

end Gives

theorem host_gives (x : HostM α) : (host x).Gives strict fun _ => True := by
  intro o
  simp only [host]
  cases (x o.world).result with
  | ok a => trivial
  | error e => rfl

theorem receiver_gives (member : String) (v : Value) :
    (receiver member v).Gives strict fun _ => True := by
  cases v with
  | object o => exact .pure trivial
  | _ => exact .throw rfl

theorem getterOf_gives (d : PropertyDef) : (getterOf d).Gives strict fun _ => True := by
  unfold getterOf
  cases d.getter with
  | none => exact .throw rfl
  | some get => exact .pure trivial

theorem setterOf_gives (d : PropertyDef) : (setterOf d).Gives strict fun _ => True := by
  unfold setterOf
  cases d.setter with
  | none => exact .throw rfl
  | some set => exact .pure trivial

theorem methodAt_gives (r : Registry) (id : Int32) :
    (methodAt r id).Gives strict fun _ => True := by
  unfold methodAt
  split
  · exact .pure trivial
  · exact .throw rfl

theorem propertyAt_gives (r : Registry) (id : Int32) :
    (propertyAt r id).Gives strict fun _ => True := by
  unfold propertyAt
  split
  · exact .pure trivial
  · exact .throw rfl

theorem constructorAt_gives (r : Registry) (id : Int32) :
    (constructorAt r id).Gives strict fun _ => True := by
  unfold constructorAt
  split
  · exact .pure trivial
  · exact .throw rfl

-- What comes from a host is of the declared type.
theorem result_gives (r : Registry) (declared : Ty) (member : String) (v : Value) :
    (result r declared member v).Gives strict (·.Answers r declared) := by
  unfold result
  by_cases hvoid : declared = .void
  · rw [if_pos hvoid]
    exact .pure (.inl ⟨hvoid, rfl⟩)
  · rw [if_neg hvoid]
    by_cases hadmits : declared.admits (r.typeOf v)
    · rw [if_pos hadmits]
      exact .pure (.inr hadmits)
    · rw [if_neg hadmits]
      exact .throw rfl

theorem callStatic_gives (r : Registry) (d : MethodDef) (args : List Value) :
    (callStatic r d args).Gives strict (·.Answers r d.returns) :=
  (host_gives _).seq fun y => result_gives r d.returns d.name y

theorem callMethod_gives (r : Registry) (d : MethodDef) (target : Value) (args : List Value) :
    (callMethod r d target args).Gives strict (·.Answers r d.returns) :=
  (receiver_gives _ _).seq fun _ => (host_gives _).seq fun y => result_gives r d.returns d.name y

theorem readStatic_gives (r : Registry) (d : PropertyDef) (get : Getter) :
    (readStatic r d get).Gives strict (·.Answers r d.ty) :=
  (host_gives _).seq fun y => result_gives r d.ty d.name y

theorem readProperty_gives (r : Registry) (d : PropertyDef) (get : Getter) (target : Value) :
    (readProperty r d get target).Gives strict (·.Answers r d.ty) :=
  (receiver_gives _ _).seq fun _ => (host_gives _).seq fun y => result_gives r d.ty d.name y

theorem writeStatic_gives (set : Setter) (v : Value) :
    (writeStatic set v).Gives strict fun _ => True :=
  host_gives _

theorem writeProperty_gives (d : PropertyDef) (set : Setter) (target v : Value) :
    (writeProperty d set target v).Gives strict fun _ => True :=
  (receiver_gives _ _).seq fun _ => host_gives _

theorem construct_gives (d : ConstructorDef) (args : List Value) :
    (construct d args).Gives strict fun x => ∃ o, x = .object o :=
  (host_gives _).seq fun o => .pure ⟨o, rfl⟩

theorem instanceType_gives (r : Registry) (member : String) (v : Value) :
    (instanceType r member v).Gives strict fun _ => True := by
  unfold instanceType
  split
  · exact .pure trivial
  · exact .throw rfl
  · exact .throw rfl

theorem checkArgs_gives (r : Registry) (member : String) (index : Nat) (params : List Ty)
    (args : List Value) : (checkArgs r member index params args).Gives strict fun _ => True := by
  induction params generalizing index args with
  | nil => exact .pure trivial
  | cons ty params ih =>
      cases args with
      | nil => exact .pure trivial
      | cons v args =>
          unfold checkArgs
          split
          · exact ih (index + 1) args
          · exact .throw rfl

theorem methodNamed_gives (r : Registry) (ty : Nat) (name : String) (count : Nat) :
    (methodNamed r ty name count).Gives strict fun _ => True := by
  unfold methodNamed
  split
  · exact .pure trivial
  · exact .throw rfl
  · exact .throw rfl

theorem callNamed_gives (r : Registry) (name : String) (target : Value) (args : List Value) :
    (callNamed r name target args).Gives strict fun _ => True :=
  (instanceType_gives r name target).seq fun ty => (receiver_gives name target).seq fun _ =>
    (methodNamed_gives r ty name args.length).seq fun d =>
      (checkArgs_gives r name 1 d.params args).seq fun _ =>
        (host_gives _).seq fun _ => .pure trivial

theorem readNamed_gives (r : Registry) (name : String) (target : Value) :
    (readNamed r name target).Gives strict fun _ => True := by
  refine (instanceType_gives r name target).seq fun ty =>
    (receiver_gives name target).seq fun o => ?_
  split
  · exact (host_gives _).seq fun _ => .pure trivial
  · split
    · exact (host_gives _).seq fun _ => .pure trivial
    · exact .throw rfl

theorem named_gives (r : Registry) (name : String) {k : Calc (Ty × Value)}
    (hk : k.Gives strict fun _ => True) : (named r name k).Gives strict fun _ => True :=
  hk.seq fun a => (result_gives r a.1 name a.2).always

theorem writeNamed_gives (r : Registry) (name : String) (target v : Value) :
    (writeNamed r name target v).Gives strict fun _ => True := by
  refine (instanceType_gives r name target).seq fun ty =>
    (receiver_gives name target).seq fun o => ?_
  split
  · split
    · exact host_gives _
    · exact .throw rfl
  · exact .throw rfl

theorem require_gives (r : Registry) (expected : Ty) (v : Value) :
    (require r expected v).Gives strict fun _ => expected.admits (r.typeOf v) = true := by
  unfold require
  by_cases hadmits : expected.admits (r.typeOf v)
  · rw [if_pos hadmits]
    exact .pure hadmits
  · rw [if_neg hadmits]
    exact .throw rfl

theorem asBool_gives (v : Value) : (asBool v).Gives strict fun _ => True := by
  cases v with
  | bool b => exact .pure trivial
  | _ => exact .throw rfl

theorem asCount_gives (v : Value) : (asCount v).Gives strict fun _ => True := by
  cases v with
  | number x => exact .pure trivial
  | _ => exact .throw rfl

end Calc

theorem Value.conforms_numeric {a : Value} {ty : Ty} (ha : a.conforms ty = true)
    (hty : ty.isNumeric = true) : ∃ x, a = .number x := by
  cases a <;> cases ty <;> simp_all [conforms, Ty.isNumeric]

namespace Calc

-- Arithmetic works on two numbers, joins texts or is refused.
theorem arith_cases (op : Arith) (a b : Value) :
    (∃ x y, a = .number x ∧ b = .number y ∧ arith op a b = pure (.number (op.apply x y))) ∨
    (op = .add ∧ (∃ s, a = .text s ∨ b = .text s) ∧ ∀ o, ∃ t, arith op a b o = .ok (.text t) o) ∨
    arith op a b = throw (.badOperands op.symbol a.kindName b.kindName) := by
  have htext : ∀ s, a = .text s ∨ b = .text s →
      arith op a b = if op = .add then do
        let s ← display a
        let t ← display b
        return .text (s ++ t)
      else throw (.badOperands op.symbol a.kindName b.kindName) := by
    rintro s (rfl | rfl)
    · cases b <;> rfl
    · cases a <;> rfl
  have hjoined : ∀ s, a = .text s ∨ b = .text s →
      (op = .add ∧ (∃ s, a = .text s ∨ b = .text s) ∧
        ∀ o, ∃ t, arith op a b o = .ok (.text t) o) ∨
      arith op a b = throw (.badOperands op.symbol a.kindName b.kindName) := by
    intro s hs
    rw [htext s hs]
    by_cases hop : op = .add
    · rw [if_pos hop]
      exact .inl ⟨hop, ⟨s, hs⟩, fun o => ⟨_, rfl⟩⟩
    · rw [if_neg hop]
      exact .inr rfl
  cases a with
  | text s => exact .inr (hjoined s (.inl rfl))
  | number x =>
      cases b with
      | text s => exact .inr (hjoined s (.inr rfl))
      | number y => exact .inl ⟨x, y, rfl, rfl, rfl⟩
      | _ => exact .inr (.inr rfl)
  | _ =>
      cases b with
      | text s => exact .inr (hjoined s (.inr rfl))
      | _ => exact .inr (.inr rfl)

theorem arith_gives (op : Arith) (a b : Value) : (arith op a b).Gives strict fun _ => True := by
  rcases arith_cases op a b with ⟨x, y, -, -, heq⟩ | ⟨-, -, heq⟩ | heq
  · rw [heq]
    exact .pure trivial
  · intro o
    obtain ⟨t, ht⟩ := heq o
    rw [ht]
    trivial
  · rw [heq]
    exact .throw rfl

theorem order_gives (op : Order) (a b : Value) : (order op a b).Gives strict fun _ => True := by
  unfold order
  split
  · exact .pure trivial
  · exact .throw rfl

theorem equal_gives (negated : Bool) (a b : Value) :
    (equal negated a b).Gives strict fun _ => True :=
  .pure trivial

theorem onNumbers_gives_of {f : Float → Float → Value} {P : Value → Prop} (hf : ∀ x y, P (f x y))
    (a b : Value) : (onNumbers f a b).Gives false P := by
  unfold onNumbers
  split
  · exact .pure (hf _ _)
  · exact .throw rfl

theorem onNumbers_gives (f : Float → Float → Value) (a b : Value) :
    (onNumbers f a b).Gives false fun _ => True :=
  onNumbers_gives_of (fun _ _ => trivial) a b

theorem neg_gives (v : Value) : (neg v).Gives strict fun _ => True := by
  cases v with
  | number x => exact .pure trivial
  | _ => exact .throw rfl

theorem negNum_gives (v : Value) : (negNum v).Gives false fun _ => True := by
  cases v with
  | number x => exact .pure trivial
  | _ => exact .throw rfl

theorem not_gives (v : Value) : (not v).Gives strict fun _ => True := by
  cases v with
  | bool b => exact .pure trivial
  | _ => exact .throw rfl

end Calc

namespace Ty

theorem mayBeRef_of_isNumeric {t : Ty} (h : t.isNumeric = true) : t.mayBeRef = false := by
  cases t <;> first | rfl | cases h

-- Numbers make a number, whatever is known of them.
theorem conforms_number_of_arithResult? {t₁ t₂ t : Ty} (h : arithResult? t₁ t₂ = some t)
    (z : Float) : (Value.number z).conforms t = true := by
  unfold arithResult? at h
  split at h
  · cases h
  · split at h <;> cases h <;> rfl

-- Unless something is known to be a text, or nothing is known, both operands are numbers.
theorem addResult?_cases {t₁ t₂ t : Ty} (h : addResult? t₁ t₂ = some t) :
    (t = .string ∧ (t₁ = .string ∨ t₂ = .string)) ∨ t = .dynamic ∨
      (t₁.isNumeric = true ∧ t₂.isNumeric = true ∧ arithResult? t₁ t₂ = some t) := by
  unfold addResult? at h
  split at h
  · cases h
  · split at h
    · rename_i hstring
      cases h
      exact .inl ⟨rfl, by simpa using hstring⟩
    · split at h
      · cases h
        exact .inr (.inl rfl)
      · refine .inr (.inr ⟨?_, ?_, h⟩) <;>
          cases t₁ <;> cases t₂ <;> simp_all [arithResult?, mayBeNumber, isNumeric]

end Ty

namespace Dialect

variable {strict : Bool}

theorem conforms_of_numbers {op : Arith} {t₁ t₂ t : Ty} {x y : Float} (z : Float)
    (h : (BinaryOp.arith op).result? t₁ t₂ = some t) (hx : (Value.number x).conforms t₁ = true)
    (hy : (Value.number y).conforms t₂ = true) : (Value.number z).conforms t = true := by
  cases op with
  | add =>
      rcases Ty.addResult?_cases h with ⟨-, rfl | rfl⟩ | rfl | ⟨-, -, harith⟩
      · cases hx
      · cases hy
      · rfl
      · exact Ty.conforms_number_of_arithResult? harith z
  | div =>
      obtain ⟨_, -, rfl⟩ := Option.map_eq_some_iff.mp h
      rfl
  | _ => exact Ty.conforms_number_of_arithResult? h z

theorem conforms_of_join {t₁ t₂ t : Ty} {a b : Value} {s : String} (u : String)
    (h : (BinaryOp.arith .add).result? t₁ t₂ = some t) (hs : a = .text s ∨ b = .text s)
    (ha : a.conforms t₁ = true) (hb : b.conforms t₂ = true) :
    (Value.text u).conforms t = true := by
  rcases Ty.addResult?_cases h with ⟨rfl, -⟩ | rfl | ⟨h₁, h₂, -⟩
  · rfl
  · rfl
  · obtain ⟨x, rfl⟩ := Value.conforms_numeric ha h₁
    obtain ⟨y, rfl⟩ := Value.conforms_numeric hb h₂
    rcases hs with hs | hs <;> cases hs

-- Operands of their recorded types give a value of the recorded type.
theorem binary_gives {op : BinaryOp} {t₁ t₂ t : Ty} (a b : Value)
    (h : op.result? t₁ t₂ = some t) (hop : op ≠ .and ∧ op ≠ .or) :
    (binary op a b).Gives strict fun v =>
      a.conforms t₁ = true → b.conforms t₂ = true → v.conforms t = true := by
  cases op with
  | arith op =>
      rcases Calc.arith_cases op a b with ⟨x, y, rfl, rfl, heq⟩ | ⟨rfl, ⟨s, hs⟩, heq⟩ | heq
      · rw [binary, heq]
        exact .pure fun hx hy => conforms_of_numbers _ h hx hy
      · intro o
        obtain ⟨u, hu⟩ := heq o
        rw [binary, hu]
        exact fun ha hb => conforms_of_join u h hs ha hb
      · rw [binary, heq]
        exact .throw rfl
  | order op =>
      simp only [BinaryOp.result?] at h
      split at h <;> cases h
      simp only [binary, Calc.order]
      split
      · exact .pure fun _ _ => rfl
      · exact .throw rfl
  | eq =>
      simp only [BinaryOp.result?] at h
      split at h <;> cases h
      exact .pure fun _ _ => rfl
  | ne =>
      simp only [BinaryOp.result?] at h
      split at h <;> cases h
      exact .pure fun _ _ => rfl
  | and => exact absurd rfl hop.1
  | or => exact absurd rfl hop.2

-- What is worked out from numbers is no text or object.
theorem binaryNum_gives (op : BinaryOp) (a b : Value) :
    (binaryNum op a b).Gives false fun v => v.isRef = false := by
  cases op with
  | and => exact .pure rfl
  | or => exact .pure rfl
  | _ => exact Calc.onNumbers_gives_of (P := fun v => v.isRef = false) (fun _ _ => rfl) a b

-- Under the eyes of a strict dialect operators give what was recorded for them.
theorem operate_gives (D : Dialect) {op : BinaryOp} {t₁ t₂ t : Ty} (numeric : Bool) (a b : Value)
    (h : op.result? t₁ t₂ = some t) (hop : op ≠ .and ∧ op ≠ .or) :
    (D.operate op numeric a b).Gives D.strict fun v => D.strict = true →
      a.conforms t₁ = true → b.conforms t₂ = true → v.conforms t = true := by
  unfold operate
  cases hs : D.strict with
  | true =>
      simp only [Bool.not_true, Bool.false_and, Bool.false_eq_true, if_false]
      exact (binary_gives a b h hop).imp fun _ hv _ => hv
  | false =>
      simp only [Bool.not_false, Bool.true_and]
      split
      · exact (binaryNum_gives op a b).imp fun _ _ hfalse => by cases hfalse
      · exact (binary_gives a b h hop).imp fun _ hv _ => hv

-- A text comes of an operator only where its recorded type allows one, if that is so of its operands.
theorem binary_refers {op : BinaryOp} {t₁ t₂ t : Ty} (a b : Value) (h : op.result? t₁ t₂ = some t)
    (hop : op ≠ .and ∧ op ≠ .or) :
    (binary op a b).Gives strict fun v => (a.isRef = true → t₁.mayBeRef = true) →
      (b.isRef = true → t₂.mayBeRef = true) → v.isRef = true → t.mayBeRef = true := by
  cases op with
  | arith op =>
      rcases Calc.arith_cases op a b with ⟨x, y, rfl, rfl, heq⟩ | ⟨rfl, ⟨s, hs⟩, heq⟩ | heq
      · rw [binary, heq]
        exact .pure fun _ _ href => absurd href Bool.false_ne_true
      · intro o
        obtain ⟨u, hu⟩ := heq o
        rw [binary, hu]
        intro ha hb _
        rcases Ty.addResult?_cases h with ⟨rfl, -⟩ | rfl | ⟨h₁, h₂, -⟩
        · rfl
        · rfl
        · rcases hs with rfl | rfl
          · cases (Ty.mayBeRef_of_isNumeric h₁).symm.trans (ha rfl)
          · cases (Ty.mayBeRef_of_isNumeric h₂).symm.trans (hb rfl)
      · rw [binary, heq]
        exact .throw rfl
  | order op =>
      simp only [binary, Calc.order]
      split
      · exact .pure fun _ _ href => absurd href Bool.false_ne_true
      · exact .throw rfl
  | eq => exact .pure fun _ _ href => absurd href Bool.false_ne_true
  | ne => exact .pure fun _ _ href => absurd href Bool.false_ne_true
  | and => exact absurd rfl hop.1
  | or => exact absurd rfl hop.2

theorem operate_refers {D : Dialect} {op : BinaryOp} {t₁ t₂ t : Ty} (numeric : Bool) (a b : Value)
    (hstrict : D.strict = false) (h : op.result? t₁ t₂ = some t) (hop : op ≠ .and ∧ op ≠ .or) :
    (D.operate op numeric a b).Gives D.strict fun v => (a.isRef = true → t₁.mayBeRef = true) →
      (b.isRef = true → t₂.mayBeRef = true) → v.isRef = true → t.mayBeRef = true := by
  unfold operate
  rw [hstrict]
  split
  · exact (binaryNum_gives op a b).imp fun v hv _ _ href => absurd href (by simp [hv])
  · exact binary_refers a b h hop

theorem operateOn_refers {D : Dialect} {op : UnaryOp} (numeric : Bool) (a : Value)
    (hstrict : D.strict = false) :
    (D.operateOn op numeric a).Gives D.strict fun v => v.isRef = false := by
  unfold operateOn
  rw [hstrict]
  split <;> cases op <;> cases a <;> first | exact .pure rfl | exact .throw rfl

theorem unary_gives {op : UnaryOp} {t₁ t : Ty} (a : Value) (h : op.result? t₁ = some t) :
    (unary op a).Gives strict fun v => v.conforms t = true := by
  cases op with
  | neg =>
      have ht : ∀ z, (Value.number z).conforms t = true := by
        intro z
        cases t₁ <;> cases h <;> rfl
      cases a with
      | number x => exact .pure (ht _)
      | _ => exact .throw rfl
  | not =>
      have ht : t = .bool := by
        cases t₁ <;> cases h <;> rfl
      cases a with
      | bool b => exact .pure (ht ▸ rfl)
      | _ => exact .throw rfl

theorem operateOn_gives (D : Dialect) {op : UnaryOp} {t₁ t : Ty} (numeric : Bool) (a : Value)
    (h : op.result? t₁ = some t) :
    (D.operateOn op numeric a).Gives D.strict fun v => D.strict = true → v.conforms t = true := by
  unfold operateOn
  cases hs : D.strict with
  | true => exact (unary_gives a h).imp fun _ hv _ => hv
  | false =>
      simp only [Bool.not_false, Bool.true_and]
      split
      · cases op with
        | neg =>
            cases a with
            | number x => exact .pure fun hfalse => by cases hfalse
            | _ => exact .throw rfl
        | not => exact (unary_gives a h).imp fun _ hv _ => hv
      · exact (unary_gives a h).imp fun _ hv _ => hv

theorem check_gives (D : Dialect) (expected actual : Ty) (v : Value) :
    (D.check expected actual v).Gives strict fun _ => Emit.needsGuard expected actual = true →
      (TypeGuard.checked expected).admits (D.registry.typeOf v) = true := by
  unfold check
  split
  · exact (Calc.require_gives _ _ v).imp fun _ hv _ => hv
  · rename_i hguard
    exact .pure fun h => absurd h hguard

end Dialect

end HostScript
