import HostScript.Text.Class

namespace HostScript.Text

def trimStart (cs : List Char) : List Char :=
  cs.dropWhile isBlank

-- The text without white space at its ends.
def trim (s : String) : String :=
  String.ofList (trimStart (trimStart s.toList).reverse).reverse

-- Cuts a text at every character that `cut` picks; the pieces may be empty.
def piecesFrom (cut : Char → Bool) (back : List Char) : List Char → List String
  | [] => [String.ofList back.reverse]
  | c :: rest =>
    if cut c then String.ofList back.reverse :: piecesFrom cut [] rest
    else piecesFrom cut (c :: back) rest

def pieces (cut : Char → Bool) (s : String) : List String :=
  piecesFrom cut [] s.toList

-- The words of a text: what lies between white space.
def words (s : String) : List String :=
  (pieces isBlank s).filter fun w => !w.isEmpty

-- A line that ends in a line feed also loses a carriage return in front of it.
def dropReturn (line : String) : String :=
  match line.toList.reverse with
  | '\r' :: rest => String.ofList rest.reverse
  | _ => line

def closeLines : List String → List String
  | [] => []
  | [last] => if last.isEmpty then [] else [last]
  | line :: rest => dropReturn line :: closeLines rest

-- The lines of a text without their ends. Nothing behind the last line feed is no line.
def lines (s : String) : List String :=
  closeLines (pieces (· = '\n') s)

-- The lines of a text with their line feeds.
def keptLinesFrom (back : List Char) : List Char → List String
  | [] => if back.isEmpty then [] else [String.ofList back.reverse]
  | c :: rest =>
    if c = '\n' then String.ofList (c :: back).reverse :: keptLinesFrom [] rest
    else keptLinesFrom (c :: back) rest

def keptLines (s : String) : List String :=
  keptLinesFrom [] s.toList

-- Cuts a text at the first character equal to `c`.
def splitOnce? (c : Char) (s : String) : Option (String × String) :=
  match s.toList.dropWhile (· ≠ c) with
  | _ :: rest => some (String.ofList (s.toList.takeWhile (· ≠ c)), String.ofList rest)
  | [] => none

end HostScript.Text
