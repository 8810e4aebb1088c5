import HostScript.Host.Declared
import HostScript.Json.Float
import HostScript.Number.Binary

namespace HostScript

-- Hosts and their values as JSON data.

-- A field that is null counts as missing.
def Json.present? (j : Json) (name : String) : Option Json :=
  match j.field? name with
  | some .null => none
  | found => found

def Json.textField? (j : Json) (name : String) : Option String := do
  (← j.present? name).string?

def Json.naturalField? (j : Json) (name : String) : Option Nat := do
  (← j.present? name).natural?

-- A missing field has its usual value; one that is there must be readable.
def Json.fieldOr? {α : Type} (usual : α) (read : Json → Option α) (j : Json) (name : String) :
    Option α :=
  match j.present? name with
  | some field => read field
  | none => some usual

def Json.listOf? {α : Type} (read : Json → Option α) (j : Json) : Option (List α) := do
  (← j.items?).mapM read

namespace Number

-- A double is a JSON number, or an object that gives its bits.
def ofJson? : Json → Option Float
  | .number lexeme => (Json.number lexeme).float?
  | j => do ofBits? (← j.textField? "num")

end Number

def Ty.ofText? (name : String) : Option Ty :=
  match [Ty.dynamic, .void, .null, .bool, .long, .double, .string].find? (·.text = name) with
  | some ty => some ty
  | none =>
    if name.startsWith "object#" then
      (Number.readBelow 4294967296 (name.toList.drop 7)).map .object
    else none

def Ty.ofJson? (j : Json) : Option Ty := do
  Ty.ofText? (← j.string?)

-- Numbers of both kinds are objects, so that they stay apart.
def Literal.ofJson? : Json → Option Literal
  | .null => some .null
  | .bool b => some (.bool b)
  | .string s => some (.string s)
  | .object [("long", .string digits)] => (Number.readLong digits.toList).map .long
  | .object [("double", .string bits)] => (Number.ofBits? bits).map .double
  | _ => none

namespace Blueprint

def leafOfJson? (j : Json) : Option Blueprint :=
  match j.textField? "shared", j.field? "stranger" with
  | some label, _ => do return .shared label (← j.fieldOr? 0 Json.natural? "kind")
  | none, some _ => some (.foreign "Stranger")
  | none, none => (Number.ofJson? j).map .number

mutual

def ofJson? : Json → Option Blueprint
  | .null => some .null
  | .bool b => some (.bool b)
  | .string s => some (.text s)
  | .object [("list", .array items)] => (ofJsons? items).map .list
  | j => leafOfJson? j

def ofJsons? : List Json → Option (List Blueprint)
  | [] => some []
  | j :: rest => do
    let b ← ofJson? j
    return b :: (← ofJsons? rest)

end

end Blueprint

def Behaviour.ofJson? (j : Json) : Option Behaviour := do
  match ← j.items? with
  | [.string "null"] => some .null
  | [.string "return", v] => (Blueprint.ofJson? v).map .give
  | [.string "arg", i] => i.natural?.map .arg
  | [.string "argc"] => some .argc
  | [.string "fail", .string message] => some (.fail message)
  | [.string "readonly", .string name] => some (.readOnly name)
  | [.string "print", .string lead] => some (.print lead)
  | [.string "scale", x] => (Number.ofJson? x).map .scale
  | [.string "get", .string field] => some (.get field)
  | [.string "set", .string field] => some (.set field)
  | [.string "shared", .string label] => some (.share label 0)
  | [.string "shared", .string label, kind] => kind.natural?.map (.share label)
  | _ => none

namespace Declaration

def behaviour? (j : Json) (name : String) : Option Behaviour := do
  Behaviour.ofJson? (← j.present? name)

def setter? (j : Json) : Option (Option Behaviour) :=
  j.fieldOr? none (fun b => (Behaviour.ofJson? b).map some) "set"

def params? (j : Json) : Option (List Ty) :=
  j.fieldOr? [] (Json.listOf? Ty.ofJson?) "params"

def ty? (j : Json) : Option Ty := do
  Ty.ofJson? (← j.present? "type")

-- One step of a host description: an object whose field `b` says what is declared.
def ofJson? (j : Json) : Option Declaration := do
  let kind ← j.fieldOr? 0 Json.natural? "kind"
  match ← j.textField? "b" with
  | "stdlib" => return .coreLibrary
  | "type" =>
    return .type (← j.textField? "ns") (← j.textField? "name") kind
      (← j.fieldOr? 1 Json.natural? "repeat")
  | "static_method" =>
    return .staticMethod (← j.textField? "ns") (← j.textField? "name") (← params? j)
      (← j.fieldOr? .void Ty.ofJson? "returns") (← behaviour? j "do")
  | "instance_method" =>
    return .instanceMethod (← j.naturalField? "ty") kind (← j.textField? "name") (← params? j)
      (← j.fieldOr? .void Ty.ofJson? "returns") (← behaviour? j "do")
  | "static_property" =>
    return .staticProperty (← j.textField? "ns") (← j.textField? "name") (← ty? j)
      (← behaviour? j "get") (← setter? j)
  | "instance_property" =>
    return .instanceProperty (← j.naturalField? "ty") kind (← j.textField? "name") (← ty? j)
      (← behaviour? j "get") (← setter? j)
  | "const" =>
    return .const (← j.textField? "ns") (← j.textField? "name")
      (← Literal.ofJson? ((j.field? "value").getD .null))
  | "ctor" =>
    return .constructor (← j.naturalField? "ty") kind (← params? j) (j.textField? "fail")
  | "iterable" =>
    return .iterable (← j.naturalField? "ty") (← j.textField? "count")
      (← j.textField? "get_item")
  | _ => none

end Declaration

end HostScript
