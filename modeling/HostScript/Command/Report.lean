import HostScript.Command.Style
import HostScript.Diagnostic
import HostScript.Machine.Fault
import HostScript.Text.Lines

namespace HostScript.Command

-- Advice that follows a report, with an example where there is one.
structure Hint where
  advice : String
  sample : Option String := none

def Hint.lines (h : Hint) : List Output :=
  errLine (paint .yellow ("Help: " ++ h.advice)) ::
  (h.sample.map fun sample => errLine ("    " ++ paint .grey sample)).toList

def diagnosticHint? : Diagnostic.Code → Option Hint
  | .unterminatedString => some ⟨"Strings are closed with a matching '\"'.", none⟩
  | .useBeforeDeclaration =>
    some ⟨"Declare variables with 'var' before using them.", some "var [count] = [0]"⟩
  | .invalidOperands =>
    some ⟨"Operators group from the right without precedence; bracket sub-expressions.",
      some "var [x] = [[a] * [2]] + [1]"⟩
  | .invalidMember | .ambiguousMatch =>
    some ⟨"Check the member name and the 'using' lines that bring it into scope.",
      some "using math"⟩
  | .breakOutsideLoop | .continueOutsideLoop =>
    some ⟨"'break' and 'continue' only work inside while, for, foreach and loop.", none⟩
  | .functionsNotSupported =>
    some ⟨"Scripts cannot declare functions; the host provides them.", none⟩
  | .unexpectedEnd =>
    some ⟨"Every block needs a matching 'end'.", some "if [x] > [1]\n      print [x]\n    end"⟩
  | _ => none

def faultHint? : Fault.Code → Option Hint
  | .inVarTypeError =>
    some ⟨"Pass the input with --in name=value using the declared type.", none⟩
  | .stackOverflow | .referenceTableFull =>
    some ⟨"Raise the capacity with --config <file.json>.",
      some "\x7b \"stack_capacity\": 1024 \x7d"⟩
  | _ => none

def hintLines (h : Option Hint) : List Output :=
  (h.map Hint.lines).getD []

-- The first line of a report: heading, number and message.
def headline (c : Colour) (header number message : String) : Output :=
  errLine (bold (paint c header) ++ " " ++ paint c number ++ ": " ++ paint c message)

-- A line number in at least three places, and a bar.
def gutter (line : Nat) : String :=
  let digits := toString line
  String.ofList (List.replicate (3 - digits.length) ' ') ++ digits ++ " | "

-- The source line of a report with a mark below the place.
def excerpt (line col : Nat) (text : String) : List Output :=
  let lead := gutter line
  let mark := String.ofList (List.replicate (lead.length + (col - 1)) ' ') ++ "^"
  [errLine "     |",
   errLine (paint .grey lead ++ text),
   errLine (paint .red mark ++ paint .red " error here"),
   errLine "     |"]

def diagnosticReport (source : String) (d : Diagnostic) : List Output :=
  let (line, col) := Diagnostic.lineCol source d.offset
  let shown := match (Text.lines source)[line - 1]? with
    | some text => excerpt line col text
    | none => []
  headline .red d.code.header s!"E{d.code.number}" d.message ::
  errLine s!"  --> line {line}, column {col}" ::
  shown ++ hintLines (diagnosticHint? d.code)

def faultReport (f : Fault) : List Output :=
  headline .red f.code.header s!"E{f.code.number}" f.message :: hintLines (faultHint? f.code)

def warningReport (w : Warning) : Output :=
  headline .yellow w.code.header s!"W{w.code.number}" w.message

def errorLine (message : String) : Output :=
  errLine (bold (paint .red "error") ++ ": " ++ paint .red message)

end HostScript.Command
