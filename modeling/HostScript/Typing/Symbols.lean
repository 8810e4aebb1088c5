namespace HostScript

-- A script variable: the offsets of its reads and writes, whether a write may store a text or an
-- object, and whether it is an input.
structure Symbol where
  name : String
  usages : List Nat := []
  mayHoldRef : Bool := false
  isInput : Bool := false
  deriving DecidableEq, Repr

-- The variables of a script in the order of their first use.
structure SymbolTable where
  symbols : List Symbol := []
  deriving Repr

namespace SymbolTable

def empty : SymbolTable := {}

def get? (t : SymbolTable) (name : String) : Option Symbol :=
  t.symbols.find? (·.name = name)

-- Notes a use of a variable, which is entered when it is seen for the first time. The flags are
-- added to what was known.
def record (t : SymbolTable) (name : String) (offset : Nat) (holdsRef isInput : Bool) :
    SymbolTable :=
  let known := if (t.get? name).isSome then t.symbols else t.symbols ++ [{ name := name }]
  ⟨known.map fun s =>
    if s.name = name then
      { s with usages := s.usages ++ [offset], mayHoldRef := s.mayHoldRef || holdsRef,
               isInput := s.isInput || isInput }
    else s⟩

-- Of a variable that was never entered, anything may be true.
def mayHoldRef (t : SymbolTable) (name : String) : Bool :=
  ((t.get? name).map (·.mayHoldRef)).getD true

end SymbolTable

end HostScript
