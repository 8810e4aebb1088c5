import HostScript.Code.Listing
import HostScript.Command.Report
import HostScript.Compile.Basic
import HostScript.Machine.Run
import HostScript.Number.Read

namespace HostScript.Command

-- What the machine printed and warned about.
def runOutput (m : Machine) : List Output :=
  m.printed.toList.map outLine ++ m.warnings.toList.map warningReport

-- An interactive session. Every complete input is a script of its own, run on the same machine;
-- `buffer` holds the lines of an input that is not complete yet.
structure Repl where
  registry : Registry
  machine : Machine
  options : CompileOptions
  listing : Bool := false
  buffer : String := ""

namespace Repl

def banner : Output :=
  outLine (paint .green (bold "Ember REPL. Type :help for help, :quit to exit."))

def start (registry : Registry) (level : Nat) : Repl :=
  { registry
    machine := Machine.new {} World.empty
    options := { name := "repl", level } }

def prompt (r : Repl) : Output :=
  .out (paint .cyan (if r.buffer.isEmpty then "ember> " else "...  > "))

-- Printed when the input ends.
def farewell : Output :=
  outLine "\nGoodbye."

def helpLine (command what : String) : Output :=
  outLine ("  " ++ paint .yellow command ++ "  " ++ what)

def help : List Output :=
  [outLine (bold "Commands:"),
   helpLine ":help" "Show this help",
   helpLine ":quit" "Exit the REPL",
   helpLine ":disasm" "Toggle the bytecode listing",
   helpLine ":opt N" "Set the optimization level",
   helpLine ":using NS" "Import a namespace for later inputs",
   outLine "Blocks continue until their closing 'end'."]

def blockKeywords : List String :=
  ["if", "while", "for", "foreach", "loop", "function"]

-- How much a token opens or closes.
def blockStep (t : Token) : Int :=
  if t.kind = .keyword && blockKeywords.contains t.lexeme then 1
  else if t.isKeyword "end" then -1
  else 0

def bracketStep (t : Token) : Int :=
  match t.kind with
  | .openBracket => 1
  | .closedBracket => -1
  | _ => 0

def balance (step : Token → Int) (tokens : List Token) : Int :=
  tokens.foldl (fun n t => n + step t) 0

-- Whether every block and bracket is closed. A text that cannot be read is complete, so that it
-- gets reported, unless a string or comment is still open.
def isComplete (input : String) : Bool :=
  match Token.scan input with
  | .ok tokens => balance blockStep tokens ≤ 0 && balance bracketStep tokens ≤ 0
  | .error d => d.code ≠ .unterminatedString && d.code ≠ .unterminatedComment

-- A line that starts with a colon speaks to the session itself.
def command (r : Repl) (words : List String) : List Output × Option Repl :=
  match words with
  | ":quit" :: _ | ":q" :: _ | ":exit" :: _ => ([outLine "Goodbye."], none)
  | ":help" :: _ | ":h" :: _ => (help, some r)
  | ":disasm" :: _ =>
    let listing := !r.listing
    let state := if listing then "on" else "off"
    ([outLine s!"bytecode listing {state}"], some { r with listing })
  | ":opt" :: level :: _ =>
    match Number.readBelow 256 level.toList with
    | some level =>
      ([outLine s!"optimization level {level}"],
       some { r with options := { r.options with level } })
    | none => ([outLine (paint .red "Usage: :opt <level>")], some r)
  | ":using" :: ns :: _ =>
    let ns := Text.lower ns
    let imports := if r.options.imports.contains ns then r.options.imports
      else r.options.imports ++ [ns]
    ([outLine ("usings: " ++ String.intercalate ", " imports)],
     some { r with options := { r.options with imports } })
  | _ => ([outLine (paint .red "Unknown command. Type :help.")], some r)

def returnedOutput (m : Machine) : List Output :=
  match m.returned with
  | .null => []
  | v => [outLine (paint .blue (m.world.display v))]

def outcomeOutput (outcome : Outcome) (m : Machine) : List Output :=
  match outcome with
  | .finished => returnedOutput m
  | .failed f => faultReport f
  | .outOfFuel => [errorLine "The script does not come to an end"]

-- Compiles and runs a complete input.
def evaluate (fuel : Nat) (r : Repl) (source : String) : List Output × Repl :=
  match CompiledScript.compile r.registry r.options source with
  | .error d => (diagnosticReport source d, r)
  | .ok script =>
    let shown := if r.listing then [.out (paint .grey script.listing)] else []
    let (outcome, m) := r.machine.run ⟨r.registry, script⟩ fuel []
    (shown ++ runOutput m ++ outcomeOutput outcome m, { r with machine := m })

-- Takes one line of input; without a session afterwards it is over.
def feed (fuel : Nat) (r : Repl) (line : String) : List Output × Option Repl :=
  if r.buffer.isEmpty && (Text.trim line).startsWith ":" then r.command (Text.words line)
  else
    let source := r.buffer ++ line
    if isComplete source then
      let (shown, r) := r.evaluate fuel source
      (shown, some { r with buffer := "" })
    else ([], some { r with buffer := source })

-- A whole session over the given lines.
def session (fuel : Nat) (r : Repl) : List String → List Output
  | [] => [r.prompt, farewell]
  | line :: rest =>
    match r.feed fuel line with
    | (shown, some next) => r.prompt :: shown ++ session fuel next rest
    | (shown, none) => r.prompt :: shown

end Repl

end HostScript.Command
