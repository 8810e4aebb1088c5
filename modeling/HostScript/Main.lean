import HostScript.Command.Basic

namespace HostScript.Command

-- The thin layer that touches files, streams and the environment.

def write : Output → IO Unit
  | .out text => IO.print text
  | .err text => IO.eprint text

def writeAll (outputs : List Output) : IO Unit := do
  outputs.forM write
  (← IO.getStdout).flush

def readFile (file : String) : IO Found := do
  try
    return .text (← IO.FS.readFile file)
  catch
    | .noFileOrDirectory _ _ _ => return .missing
    | e => return .unreadable (toString e)

partial def converse (fuel : Nat) (r : Repl) : IO Unit := do
  writeAll [r.prompt]
  let line ← (← IO.getStdin).getLine
  if line.isEmpty then writeAll [Repl.farewell]
  else
    let (shown, next) := r.feed fuel line
    writeAll shown
    match next with
    | some r => converse fuel r
    | none => return

def surroundings (action : Action) : IO Surroundings := do
  let found ← action.files.mapM fun file => do return (file, ← readFile file)
  let level ← IO.getEnv levelVariable
  return { file := fun name => (found.lookup name).getD .missing, level, fuel := Nat.pow 2 62 }

end HostScript.Command

open HostScript.Command in
def main (args : List String) : IO UInt32 := do
  match Action.parse? args with
  | none =>
    IO.eprint usage
    return 2
  | some action =>
    let s ← surroundings action
    match action with
    | .repl level =>
      writeAll [Repl.banner]
      match openRepl s level with
      | .ok r =>
        converse s.fuel r
        return 0
      | .error shown =>
        writeAll shown
        return 1
    | action =>
      let (shown, code) := finish (perform s action)
      writeAll shown
      return code
