import HostScript.Diagnostic
import HostScript.Literal
import HostScript.Text.Case
import HostScript.Token.Basic

namespace HostScript.Token

-- Digits and underscores with at most one point; the first character behind an optional minus is a
-- digit.
def isNumeral (lexeme : List Char) : Bool :=
  let body := match lexeme with
    | '-' :: rest => rest
    | _ => lexeme
  body.all (fun c => c.isDigit || c = '_' || c = '.') && (body.filter (· = '.')).length ≤ 1 &&
    (body.head?.map Char.isDigit).getD false

def isNameChar (c : Char) : Bool :=
  Text.isAlphanumeric c || c = '.' || c = '_'

-- What kind of token a word is. `raw` is the word as written and `lexeme` its lower case form.
def classifyWord (lexeme raw : List Char) : Except Diagnostic.Problem Kind :=
  let word := String.ofList lexeme
  if keywords.contains word then .ok .keyword
  else if word = "null" then .ok .nullLiteral
  else if word = "true" then .ok .trueLiteral
  else if word = "false" then .ok .falseLiteral
  else if operators.contains word then .ok .operator
  else if isNumeral lexeme then
    if (Literal.ofNumeral? lexeme).isSome then .ok .numLiteral
    else .error (.badNumber (String.ofList raw))
  else match lexeme.find? (fun c => !isNameChar c) with
    | some bad => .error (.badCharacter bad (String.ofList raw))
    | none => .ok .identifier

-- What is being read. Texts are kept last character first, and `start` is the offset of the first.
inductive Mode where
  -- between tokens
  | idle
  | word (start : Nat) (text : List Char)
  | operator (start : Nat) (text : List Char)
  | quoted (start : Nat) (text : List Char)
  -- behind a backslash in a string
  | escape (start : Nat) (text : List Char)
  | lineComment (start : Nat) (text : List Char)
  -- behind the slash of an opening comment mark
  | commentOpening (start : Nat)
  | blockComment (start : Nat) (text : List Char)
  -- behind the star of a closing comment mark
  | commentClosing (start : Nat) (text : List Char)

-- The scanner between two characters: what is being read, the offset of the next character and the
-- tokens read so far, last one first.
structure Scanner where
  mode : Mode
  offset : Nat
  tokens : List Token

namespace Scanner

def start : Scanner :=
  ⟨.idle, 0, []⟩

def emit (s : Scanner) (lexeme : List Char) (kind : Kind) (offset : Nat) : Scanner :=
  ⟨.idle, s.offset, ⟨String.ofList lexeme, kind, offset⟩ :: s.tokens⟩

def fail (problem : Diagnostic.Problem) (offset : Nat) : Except Diagnostic Scanner :=
  .error ⟨problem, offset⟩

-- Ends the word or the operator being read.
def flush (s : Scanner) : Except Diagnostic Scanner :=
  match s.mode with
  | .word start text =>
    let raw := text.reverse
    let lexeme := Text.lowerChars raw
    match classifyWord lexeme raw with
    | .ok kind => .ok (s.emit lexeme kind start)
    | .error problem => fail problem start
  | .operator start text =>
    let raw := text.reverse
    let lexeme := Text.lowerChars raw
    if operators.contains (String.ofList lexeme) then .ok (s.emit lexeme .operator start)
    else fail (.unknownOperator (String.ofList raw)) start
  | _ => .ok s

-- Whether the last token that is not a comment can end an operand.
def afterOperand (s : Scanner) : Bool :=
  ((s.tokens.find? (·.kind ≠ .comment)).map (·.kind.endsOperand)).getD false

def startsSign (s : Scanner) (c : Char) (next : Option Char) : Bool :=
  match s.mode with
  | .idle => c = '-' && (next.map Char.isDigit).getD false && !s.afterOperand
  | _ => false

def punctuation? (c : Char) : Option Kind :=
  if c = '\n' then some .endLine
  else if c = '[' then some .openBracket
  else if c = ']' then some .closedBracket
  else if c = ':' then some .colon
  else none

def enter (s : Scanner) (mode : Mode) : Scanner :=
  { s with mode }

-- One character outside strings and comments; `next` is the one behind it.
def plain (s : Scanner) (c : Char) (next : Option Char) : Except Diagnostic Scanner :=
  if c = '"' then s.flush.map (·.enter (.quoted s.offset []))
  else if c = '#' || (c = '/' && next = some '/') then
    s.flush.map (·.enter (.lineComment s.offset [c]))
  else if c = '/' && next = some '*' then s.flush.map (·.enter (.commentOpening s.offset))
  else match punctuation? c with
    | some kind => s.flush.map (·.emit [c] kind s.offset)
    | none =>
      if Text.isBlank c then s.flush.map (·.enter .idle)
      else if s.startsSign c next then .ok (s.enter (.word s.offset [c]))
      else if isOperatorChar c then
        match s.mode with
        | .operator start text => .ok (s.enter (.operator start (c :: text)))
        | _ => s.flush.map (·.enter (.operator s.offset [c]))
      else
        match s.mode with
        | .word start text => .ok (s.enter (.word start (c :: text)))
        | _ => s.flush.map (·.enter (.word s.offset [c]))

-- The effect of one character on what is being read. The offset is moved on by `step`.
def read (s : Scanner) (c : Char) (next : Option Char) : Except Diagnostic Scanner :=
  match s.mode with
  | .idle | .word _ _ | .operator _ _ => s.plain c next
  | .quoted start text =>
    if c = '"' then .ok (s.emit text.reverse .stringLiteral start)
    else if c = '\\' then .ok (s.enter (.escape start text))
    else .ok (s.enter (.quoted start (c :: text)))
  | .escape start text =>
    if c = '"' || c = '\\' then .ok (s.enter (.quoted start (c :: text)))
    else if c = 'n' then .ok (s.enter (.quoted start ('\n' :: text)))
    else fail (.badEscape c) (s.offset - 1)
  | .lineComment start text =>
    if c = '\n' then .ok ((s.emit text.reverse .comment start).emit [c] .endLine s.offset)
    else .ok (s.enter (.lineComment start (c :: text)))
  | .commentOpening start => .ok (s.enter (.blockComment start [c, '/']))
  | .blockComment start text =>
    if c = '*' && next = some '/' then .ok (s.enter (.commentClosing start (c :: text)))
    else .ok (s.enter (.blockComment start (c :: text)))
  | .commentClosing start text => .ok (s.emit (c :: text).reverse .comment start)

def step (s : Scanner) (c : Char) (next : Option Char) : Except Diagnostic Scanner :=
  (s.read c next).map fun t => { t with offset := s.offset + c.utf8Size }

-- The end of the source closes words, operators and line comments, and nothing else.
def finish (s : Scanner) : Except Diagnostic Scanner :=
  match s.mode with
  | .idle | .word _ _ | .operator _ _ => s.flush
  | .quoted start _ => fail .openString start
  | .escape _ _ => fail .openEscape (s.offset - 1)
  | .lineComment start text => .ok (s.emit text.reverse .comment start)
  | .commentOpening start | .blockComment start _ | .commentClosing start _ =>
    fail .openComment start

def run (s : Scanner) : List Char → Except Diagnostic Scanner
  | [] => s.finish
  | c :: rest => do (← s.step c rest.head?).run rest

end Scanner

-- The tokens of a source text, comments among them.
def scanAll (source : String) : Except Diagnostic (List Token) :=
  (Scanner.start.run source.toList).map (·.tokens.reverse)

-- The tokens that carry meaning.
def scan (source : String) : Except Diagnostic (List Token) :=
  (scanAll source).map (·.filter (·.kind ≠ .comment))

end HostScript.Token
