import HostScript.Host.Value

namespace HostScript

-- What an object holds: the items of a list, or the fields of a record in the order of their names.
inductive Contents where
  | items (values : Array Value)
  | fields (fields : List (String × Value))
  deriving Inhabited

-- Everything a host remembers between calls: the contents of its objects, its named values, the
-- objects it hands out by label, and how many objects its constructors have made.
structure World where
  objects : Array Contents := #[]
  globals : List (String × Value) := []
  shared : List (String × ObjectRef) := []
  made : Nat := 0
  deriving Inhabited

namespace World

def empty : World := {}

-- A new object, different from all others.
def alloc (w : World) (cls : ObjectClass) (label : String) (contents : Contents) :
    ObjectRef × World :=
  (⟨cls, w.objects.size, label⟩, { w with objects := w.objects.push contents })

def items (w : World) (o : ObjectRef) : Array Value :=
  match w.objects[o.key]? with
  | some (.items values) => values
  | _ => #[]

def setItems (w : World) (o : ObjectRef) (values : Array Value) : World :=
  { w with objects := w.objects.setIfInBounds o.key (.items values) }

def fields (w : World) (o : ObjectRef) : List (String × Value) :=
  match w.objects[o.key]? with
  | some (.fields fields) => fields
  | _ => []

end World

-- Stores a value under a name. Names stay in ascending order.
def putSorted {α : Type} (name : String) (value : α) : List (String × α) → List (String × α)
  | [] => [(name, value)]
  | (n, v) :: rest =>
    if name = n then (n, value) :: rest
    else if name < n then (name, value) :: (n, v) :: rest
    else (n, v) :: putSorted name value rest

namespace World

def setField (w : World) (o : ObjectRef) (name : String) (value : Value) : World :=
  { w with objects := w.objects.setIfInBounds o.key (.fields (putSorted name value (w.fields o))) }

-- The text of a value that holds no other values.
def leafText? : Value → Option String
  | .null => some "null"
  | .number x => some (Number.text x)
  | .bool b => some (if b then "true" else "false")
  | .text s => some s
  | .object _ => none

def listText (items : List String) : String :=
  "[" ++ String.intercalate ", " items ++ "]"

-- A record is shown with its kind, its label and its fields.
def recordText (kind : Nat) (label : String) (fields : List String) : String :=
  s!"kind{kind}:{label}\x7b" ++ String.intercalate "," fields ++ "\x7d"

-- The text of a value, in as many steps as there are in `fuel`. A list is locked while its items are
-- shown. To show a list of `held`, which are those being shown, is to wait for its lock, and that
-- takes all the steps there are: who holds the lock is who waits for it.
def render? (w : World) : (fuel : Nat) → (held : List ObjectRef) → Value → Option String
  | 0, _, v => leafText? v
  | fuel + 1, held, v =>
    match v with
    | .object o =>
      match o.cls with
      | .list =>
        if o ∈ held then render? w fuel held v
        else do
          let items ← (w.items o).toList.mapM (render? w fuel (o :: held))
          return listText items
      | .record kind => do
        let fields ← (w.fields o).mapM fun (name, value) => do
          return name ++ "=" ++ (← render? w fuel held value)
        return recordText kind o.label fields
      | .foreign => return o.label
    | v => leafText? v

-- More steps than anything takes that comes to an end, whatever the number of objects.
def patience (w : World) : Nat :=
  w.objects.size + Nat.pow 2 62

-- The text scripts see when they print a value. An object that holds itself has none: to ask for it
-- is to wait until the steps are used up, and nobody does that.
def display (w : World) (v : Value) : String :=
  (w.render? w.patience [] v).getD ""

end World

end HostScript
