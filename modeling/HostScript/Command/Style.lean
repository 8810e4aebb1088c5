namespace HostScript.Command

-- Colours of a terminal.
inductive Colour where
  | red
  | green
  | yellow
  | cyan
  | grey
  | blue
  deriving DecidableEq, Repr

def Colour.number : Colour → Nat
  | .red => 31
  | .green => 32
  | .yellow => 33
  | .cyan => 36
  | .grey => 90
  | .blue => 94

-- Switches a colour on in front of a text and back to the usual one behind it.
def paint (c : Colour) (text : String) : String :=
  s!"\x1b[{c.number}m{text}\x1b[39m"

def bold (text : String) : String :=
  s!"\x1b[1m{text}\x1b[0m"

-- Text for one of the two streams of a terminal.
inductive Output where
  | out (text : String)
  | err (text : String)
  deriving DecidableEq, Repr

def outLine (text : String) : Output :=
  .out (text ++ "\n")

def errLine (text : String) : Output :=
  .err (text ++ "\n")

-- What goes to one of the streams, in order.
def Output.outText (outputs : List Output) : String :=
  String.join (outputs.map fun
    | .out text => text
    | .err _ => "")

def Output.errText (outputs : List Output) : String :=
  String.join (outputs.map fun
    | .err text => text
    | .out _ => "")

end HostScript.Command
