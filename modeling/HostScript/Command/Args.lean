import HostScript.Number.Read
import HostScript.Text.Lines

namespace HostScript.Command

-- What the command is asked to do. Inputs are still as they were given.
inductive Action where
  | run (file : String) (inputs : List String) (level : Option Nat) (imports : List String)
      (config : Option String)
  | check (file : String) (imports : List String)
  | disasm (file : String) (level : Option Nat) (imports : List String) (json : Bool)
  | repl (level : Option Nat)
  deriving DecidableEq, Repr

-- The words behind the name of an action, sorted out.
structure Words where
  file : Option String := none
  inputs : List String := []
  level : Option Nat := none
  imports : List String := []
  config : Option String := none
  json : Bool := false

-- Reads options in any order; exactly the words that are not options name a file, at most one.
def Words.read? (words : Words) : List String → Option Words
  | [] => some words
  | "--json" :: rest => read? { words with json := true } rest
  | "--in" :: value :: rest => read? { words with inputs := words.inputs ++ [value] } rest
  | "--using" :: value :: rest => read? { words with imports := words.imports ++ [value] } rest
  | "--config" :: value :: rest => read? { words with config := some value } rest
  | "--opt" :: value :: rest => do
    let level ← Number.readBelow 256 value.toList
    read? { words with level := some level } rest
  | word :: rest =>
    if words.file.isNone && !word.startsWith "--" then read? { words with file := some word } rest
    else none

-- An option and its value may be joined by an equals sign.
def separate (word : String) : List String :=
  if word.startsWith "--" then
    match Text.splitOnce? '=' word with
    | some (option, value) => [option, value]
    | none => [word]
  else [word]

-- Without a word the command starts an interactive session.
def Action.parse? : List String → Option Action
  | [] => some (.repl none)
  | name :: rest => do
    let words ← Words.read? {} (rest.flatMap separate)
    match name, words.file with
    | "run", some file => return .run file words.inputs words.level words.imports words.config
    | "check", some file => return .check file words.imports
    | "disasm", some file => return .disasm file words.level words.imports words.json
    | "repl", none => return .repl words.level
    | _, _ => none

-- The files an action reads.
def Action.files : Action → List String
  | .run file _ _ _ config => file :: config.toList
  | .check file _ => [file]
  | .disasm file _ _ _ => [file]
  | .repl _ => []

def usage : String :=
  "usage: run FILE [--in NAME=VALUE]* [--opt N] [--using NS]* [--config FILE]\n" ++
  "       check FILE [--using NS]*\n" ++
  "       disasm FILE [--opt N] [--using NS]* [--json]\n" ++
  "       repl [--opt N]\n"

end HostScript.Command
