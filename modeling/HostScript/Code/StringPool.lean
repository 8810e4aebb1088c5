import HostScript.Diagnostic
import Std.Data.TreeMap

namespace HostScript

-- The texts of a script, each once, in the order of their first use. The index finds them again.
structure StringPool where
  strings : Array String := #[]
  index : Std.TreeMap String Nat := {}

namespace StringPool

def empty : StringPool := {}

-- The place of a text, which is entered when it is new. There are 65536 places; a pool without room
-- stays as it is.
def intern (p : StringPool) (s : String) : Except Diagnostic Nat × StringPool :=
  match p.index[s]? with
  | some i => (.ok i, p)
  | none =>
    let i := p.strings.size
    if i < 65536 then (.ok i, ⟨p.strings.push s, p.index.insert s i⟩)
    else (.error ⟨.tooManyStrings, 0⟩, p)

end StringPool

end HostScript
