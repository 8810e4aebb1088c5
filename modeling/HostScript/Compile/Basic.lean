import HostScript.Compile.Emit
import HostScript.Script.Parse
import HostScript.Token.Scan

namespace HostScript

-- How a script is compiled: its name, the optimization level (0 does without the machine's own loop
-- counter) and the namespaces in which names are looked up.
structure CompileOptions where
  name : String := "script"
  level : Nat := 1
  imports : List String := ["system"]

namespace Script

def parse (source : String) : Except Diagnostic Script := do
  ofTokens (← Token.scan source)

-- Reads and checks a source text.
def analyze (r : Registry) (imports : List String) (source : String) :
    Except Diagnostic (Script × Analysis) := do
  check r imports (← parse source)

end Script

namespace CompiledScript

def inputTable (slots : List String) :
    List InputVar → Except Diagnostic (List (String × InputSlot))
  | [] => .ok []
  | v :: rest => do
    match slots.idxOf? v.name with
    | some slot => return putSorted v.name ⟨v.ty, slot⟩ (← inputTable slots rest)
    | none => throw ⟨.inputWithoutSlot v.name, 0⟩

-- The code of a checked script.
def generate (r : Registry) (options : CompileOptions) (script : Script) (analysis : Analysis) :
    Except Diagnostic CompiledScript := do
  let env : EmitEnv := ⟨r, analysis.symbols, options.level⟩
  let (_, e) ← (Emit.script env analysis.inputs script).run {}
  let code ← e.writer.finish
  let inputs ← inputTable e.slots analysis.inputs
  return ⟨options.name, code, e.strings.strings, e.slots.length, e.maxDepth, inputs⟩

-- Compiles a source text. The first problem that is found ends the work.
def compile (r : Registry) (options : CompileOptions) (source : String) :
    Except Diagnostic CompiledScript := do
  let (script, analysis) ← Script.analyze r options.imports source
  generate r options script analysis

end CompiledScript

end HostScript
