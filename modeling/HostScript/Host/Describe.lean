import HostScript.Host.Registry
import HostScript.Text.Class

namespace HostScript

-- How the definitions of a registry look when they are inspected: the name of what they are, and
-- their parts.
namespace Describe

def tagged (name : String) (inner : String) : String :=
  s!"{name}({inner})"

def number (name : String) (id : Nat) : String :=
  tagged name (toString id)

def optional {α : Type} (describe : α → String) : Option α → String
  | some a => tagged "Some" (describe a)
  | none => "None"

def sequence (items : List String) : String :=
  "[" ++ String.intercalate ", " items ++ "]"

def truth (b : Bool) : String :=
  if b then "true" else "false"

def record (name : String) (parts : List (String × String)) : String :=
  name ++ " \x7b " ++
  String.intercalate ", " (parts.map fun (part, text) => part ++ ": " ++ text) ++ " \x7d"

def typeId (id : Nat) : String :=
  number "HostTypeId" id

def typeText : Ty → String
  | .dynamic => "Dynamic"
  | .void => "Void"
  | .null => "Null"
  | .bool => "Bool"
  | .long => "Long"
  | .double => "Double"
  | .string => "String"
  | .object id => tagged "Object" (typeId id)

def literalText : Literal → String
  | .null => "Null"
  | .bool b => tagged "Bool" (truth b)
  | .long n => tagged "Long" (toString n.toInt)
  | .double x => tagged "Double" (Number.listed x)
  | .string s => tagged "String" (Text.quoted s)

def iterationText (i : IterationMembers) : String :=
  record "Iteration"
    [("count", number "PropertyId" i.count), ("get_item", number "MethodId" i.getItem)]

end Describe

open Describe

def TypeDef.describe (d : TypeDef) : String :=
  record "TypeDef"
    [("id", typeId d.id), ("namespace", Text.quoted d.ns), ("name", Text.quoted d.name),
     ("iteration", optional iterationText d.iteration)]

def MethodDef.describe (d : MethodDef) : String :=
  record "MethodDef"
    [("id", number "MethodId" d.id), ("namespace", Text.quoted d.ns), ("name", Text.quoted d.name),
     ("owner", optional typeId d.owner), ("params", sequence (d.params.map typeText)),
     ("returns", typeText d.returns)]

def PropertyDef.describe (d : PropertyDef) : String :=
  record "PropertyDef"
    [("id", number "PropertyId" d.id), ("namespace", Text.quoted d.ns),
     ("name", Text.quoted d.name), ("owner", optional typeId d.owner), ("ty", typeText d.ty),
     ("readable", truth d.getter.isSome), ("writable", truth d.setter.isSome)]

def ConstructorDef.describe (d : ConstructorDef) : String :=
  record "ConstructorDef"
    [("id", number "ConstructorId" d.id), ("ty", typeId d.ty),
     ("params", sequence (d.params.map typeText))]

def ConstDef.describe (d : ConstDef) : String :=
  record "ConstDef"
    [("namespace", Text.quoted d.ns), ("name", Text.quoted d.name), ("value", literalText d.value)]

end HostScript
