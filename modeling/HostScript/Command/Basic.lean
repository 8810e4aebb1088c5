import HostScript.Command.Args
import HostScript.Command.Repl
import HostScript.Host.Core
import HostScript.Json.Print

namespace HostScript.Command

-- What is found under the name of a file.
inductive Found where
  | text (contents : String)
  | missing
  | unreadable (reason : String)

-- What the command knows of the outside: its files, the optimization level set for it, the lines of
-- its input, and how many steps a script may take.
structure Surroundings where
  file : String → Found
  level : Option String := none
  lines : List String := []
  fuel : Nat

-- Work that may end early. Either way the answer is what to show; ending early is a failure.
abbrev Act := Except (List Output)

def fail {α : Type} (message : String) : Act α :=
  .error [errorLine message]

def readSource (s : Surroundings) (file : String) : Act String :=
  match s.file file with
  | .text contents => .ok contents
  | .missing => fail s!"File not found: {file}"
  | .unreadable reason => fail s!"Failed to read {file}: {reason}"

def coreRegistry : Act Registry :=
  match Core.registry with
  | .ok r => .ok r
  | .error e => fail s!"Failed to build the core library: {e.message}"

def levelVariable : String :=
  "EMBER_OPT_LEVEL"

-- The option counts first, then what is set outside, then the usual level.
def optLevel (s : Surroundings) (flag : Option Nat) : Act Nat :=
  match flag, s.level with
  | some level, _ => .ok level
  | none, some raw =>
    match Number.readBelow 256 (Text.trim raw).toList with
    | some level => .ok level
    | none => fail s!"{levelVariable} must be a small number, got '{raw}'"
  | none, none => .ok ({} : CompileOptions).level

-- The usual namespace, followed by the others, each once.
def importsWith (extra : List String) : List String :=
  extra.foldl (fun known ns => if known.contains (Text.lower ns) then known
    else known ++ [Text.lower ns]) ({} : CompileOptions).imports

-- The last part of a path, without its extension. A name that starts with its only point has none.
def stem? (path : String) : Option String :=
  let parts := (Text.pieces (· = '/') path).filter fun part => !part.isEmpty && part ≠ "."
  match parts.getLast? with
  | none | some ".." => none
  | some name =>
    let back := name.toList.reverse
    match back.dropWhile (· ≠ '.') with
    | [] | [_] => some name
    | _ :: rest => some (String.ofList rest.reverse)

def compileOptions (s : Surroundings) (file : String) (level : Option Nat) (imports : List String) :
    Act CompileOptions := do
  return ⟨(stem? file).getD "script", ← optLevel s level, importsWith imports⟩

def compileSource (r : Registry) (options : CompileOptions) (source : String) :
    Act CompiledScript :=
  match CompiledScript.compile r options source with
  | .ok script => .ok script
  | .error d => .error (diagnosticReport source d)

def loadLimits (s : Surroundings) : Option String → Act Limits
  | none => .ok {}
  | some file => do
    match Limits.parse? (← readSource s file) with
    | some limits => return limits
    | none => fail s!"Invalid config {file}: not an object of capacities"

-- The value of an input: `null`, a truth value or a number if it reads as one, and otherwise a
-- text, whose quotes do not count.
def inputValue (text : String) : Value :=
  if text = "null" then .null
  else if text = "true" then .bool true
  else if text = "false" then .bool false
  else match Number.readDouble text.toList with
    | some x => .number x
    | none => .text (unquote text)
where
  unquote (text : String) : String :=
    match text.toList with
    | '"' :: rest =>
      match rest.reverse with
      | '"' :: back => String.ofList back.reverse
      | _ => text
    | _ => text

-- Reads an input given as `name=value`.
def readInput (raw : String) : Act (String × Value) :=
  match Text.splitOnce? '=' raw with
  | none => fail s!"--in expected name=value, got '{raw}'"
  | some (name, value) =>
    let name := Text.trim name
    if name.isEmpty then fail s!"--in missing variable name in '{raw}'"
    else .ok (Text.lower name, inputValue (Text.trim value))

def readInputs : List String → Act (List (String × Value))
  | [] => .ok []
  | raw :: rest => do
    let input ← readInput raw
    return input :: (← readInputs rest)

def returnedLine (m : Machine) : List Output :=
  match m.returned with
  | .null => []
  | v => [outLine (paint .grey "=>" ++ " " ++ paint .blue (m.world.display v))]

def run (s : Surroundings) (file : String) (inputs : List String) (level : Option Nat)
    (imports : List String) (config : Option String) : Act (List Output) := do
  let inputs ← readInputs inputs
  let limits ← loadLimits s config
  let source ← readSource s file
  let r ← coreRegistry
  let options ← compileOptions s file level imports
  let script ← compileSource r options source
  let (outcome, m) := (Machine.new limits World.empty).run ⟨r, script⟩ s.fuel inputs
  match outcome with
  | .finished => return runOutput m ++ returnedLine m
  | .failed f => throw (runOutput m ++ faultReport f)
  | .outOfFuel => throw (runOutput m ++ [errorLine "The script does not come to an end"])

def check (s : Surroundings) (file : String) (imports : List String) : Act (List Output) := do
  let source ← readSource s file
  let r ← coreRegistry
  match Script.analyze r (importsWith imports) source with
  | .ok _ => return [outLine (file ++ ": " ++ paint .green "ok")]
  | .error d => throw (diagnosticReport source d)

def disasm (s : Surroundings) (file : String) (level : Option Nat) (imports : List String)
    (json : Bool) : Act (List Output) := do
  let source ← readSource s file
  let r ← coreRegistry
  let options ← compileOptions s file level imports
  let script ← compileSource r options source
  return if json then [outLine script.toJson.pretty] else [.out script.listing]

-- Starts an interactive session.
def openRepl (s : Surroundings) (level : Option Nat) : Act Repl := do
  return Repl.start (← coreRegistry) (← optLevel s level)

-- The banner is shown before anything can go wrong.
def repl (s : Surroundings) (level : Option Nat) : Act (List Output) :=
  match openRepl s level with
  | .ok r => .ok (Repl.banner :: r.session s.fuel s.lines)
  | .error shown => .error (Repl.banner :: shown)

def perform (s : Surroundings) : Action → Act (List Output)
  | .run file inputs level imports config => run s file inputs level imports config
  | .check file imports => check s file imports
  | .disasm file level imports json => disasm s file level imports json
  | .repl level => repl s level

-- What is shown, and the exit code.
def finish : Act (List Output) → List Output × UInt32
  | .ok shown => (shown, 0)
  | .error shown => (shown, 1)

end HostScript.Command
