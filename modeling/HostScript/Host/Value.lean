import HostScript.Literal
import HostScript.Number.Decimal

namespace HostScript

-- What an object is to its host: the core library's list, a record of one of the kinds that the
-- host declares, or something the host only knows by its label.
inductive ObjectClass where
  | list
  | record (kind : Nat)
  | foreign
  deriving DecidableEq, Repr

namespace ObjectClass

def rank : ObjectClass → Nat
  | list => 0
  | foreign => 1
  | record kind => kind + 2

theorem rank_inj : ∀ {c c' : ObjectClass}, c.rank = c'.rank → c = c'
  | list, list, _ | foreign, foreign, _ => rfl
  | record _, record _, h => congrArg record (Nat.succ.inj (Nat.succ.inj h))
  | list, foreign, h | list, record _, h | foreign, list, h | foreign, record _, h
  | record _, list, h | record _, foreign, h => by simp [rank] at h

end ObjectClass

-- A host object as scripts hold it. The reference is the object's identity; class and label never
-- change, and the contents are found in the host's world under `key`.
structure ObjectRef where
  cls : ObjectClass
  key : Nat
  label : String
  deriving DecidableEq, Repr

namespace ObjectRef

-- An order with no meaning of its own, by which objects are found again.
instance : Ord ObjectRef :=
  ⟨compareLex (compareOn (·.cls.rank)) (compareLex (compareOn key) (compareOn label))⟩

instance : Std.TransOrd ObjectRef :=
  inferInstanceAs (Std.TransCmp (compareLex _ (compareLex _ _)))

instance : Std.LawfulEqOrd ObjectRef where
  eq_of_compare {o o'} h := by
    obtain ⟨hcls, hrest⟩ := Ordering.then_eq_eq.mp h
    obtain ⟨hkey, hlabel⟩ := Ordering.then_eq_eq.mp hrest
    have hcls := ObjectClass.rank_inj (Std.LawfulEqOrd.eq_of_compare hcls)
    have hkey := Std.LawfulEqOrd.eq_of_compare hkey
    have hlabel := Std.LawfulEqOrd.eq_of_compare hlabel
    cases o
    cases o'
    simp_all

end ObjectRef

-- A script value as its host sees it. All numbers are doubles.
inductive Value where
  | null
  | number (x : Float)
  | bool (b : Bool)
  | text (s : String)
  | object (o : ObjectRef)
  deriving Inhabited

namespace Value

def isNull : Value → Bool
  | .null => true
  | _ => false

def number? : Value → Option Float
  | .number x => some x
  | _ => none

def bool? : Value → Option Bool
  | .bool b => some b
  | _ => none

def text? : Value → Option String
  | .text s => some s
  | _ => none

def object? : Value → Option ObjectRef
  | .object o => some o
  | _ => none

-- How messages name the kind of a value. A number without a fractional part is called whole.
def kindName : Value → String
  | .null => "null"
  | .number x => if Number.isWhole x then "long" else "double"
  | .bool _ => "bool"
  | .text _ => "string"
  | .object _ => "object"

-- Texts are equal by content, objects by identity, and values of different kinds never.
def equal : Value → Value → Bool
  | .null, .null => true
  | .number x, .number y => x == y
  | .bool a, .bool b => a == b
  | .text s, .text t => s == t
  | .object o, .object p => o = p
  | _, _ => false

def ofLiteral : Literal → Value
  | .null => .null
  | .bool b => .bool b
  | .long n => .number (Number.ofLong n)
  | .double x => .number x
  | .string s => .text s

end Value

end HostScript
