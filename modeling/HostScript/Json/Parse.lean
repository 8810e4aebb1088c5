import HostScript.Json.Basic
import HostScript.Text.Class

namespace HostScript.Json

def isSpace (c : Char) : Bool :=
  c = ' ' || c = '\t' || c = '\n' || c = '\r'

def skipSpace (cs : List Char) : List Char :=
  cs.dropWhile isSpace

def hexUnit? : List Char → Option (Nat × List Char)
  | a :: b :: c :: d :: rest => do
    let a ← Text.hexValue? a
    let b ← Text.hexValue? b
    let c ← Text.hexValue? c
    let d ← Text.hexValue? d
    return (((a * 16 + b) * 16 + c) * 16 + d, rest)
  | _ => none

-- The low half of a surrogate pair at the head of the text, written by number.
def lowHalf? : List Char → Option (Nat × List Char)
  | '\\' :: 'u' :: cs => do
    let (low, rest) ← hexUnit? cs
    if 0xDC00 ≤ low && low < 0xE000 then return (low, rest) else none
  | _ => none

-- A character written by number. A high surrogate needs its low half right behind it, and a low
-- half cannot stand alone; such a half is no character.
def numbered? (cs : List Char) : Option (Option Char × List Char) := do
  let (high, rest) ← hexUnit? cs
  if 0xD800 ≤ high && high < 0xDC00 then
    match lowHalf? rest with
    | some (low, rest) =>
      return (some (Char.ofNat (0x10000 + (high - 0xD800) * 0x400 + (low - 0xDC00))), rest)
    | none => return (none, rest)
  else if 0xDC00 ≤ high && high < 0xE000 then return (none, rest)
  else return (some (Char.ofNat high), rest)

-- What a backslash stands for together with the characters behind it.
def escaped? : List Char → Option (Option Char × List Char)
  | '"' :: rest => some ('"', rest)
  | '\\' :: rest => some ('\\', rest)
  | '/' :: rest => some ('/', rest)
  | 'b' :: rest => some ('\x08', rest)
  | 'f' :: rest => some ('\x0c', rest)
  | 'n' :: rest => some ('\n', rest)
  | 'r' :: rest => some ('\r', rest)
  | 't' :: rest => some ('\t', rest)
  | 'u' :: rest => numbered? rest
  | _ => none

-- The rest of a string after its opening quote. `text` is what has been read, last character first,
-- and nothing once a half of a pair was among it.
def stringTail (text : Option (List Char)) : Nat → List Char → Option (Option String × List Char)
  | 0, _ => none
  | _ + 1, '"' :: rest => some (text.map fun back => String.ofList back.reverse, rest)
  | fuel + 1, '\\' :: rest => do
    let (c, rest) ← escaped? rest
    stringTail (text.bind fun back => c.map (· :: back)) fuel rest
  | fuel + 1, c :: rest => if c.toNat < 0x20 then none else stringTail (text.map (c :: ·)) fuel rest
  | _ + 1, [] => none

def readString (cs : List Char) : Option (Option String × List Char) :=
  stringTail (some []) (cs.length + 1) cs

def digits1 (cs : List Char) : Option (List Char × List Char) :=
  match cs.takeWhile Char.isDigit with
  | [] => none
  | ds => some (ds, cs.dropWhile Char.isDigit)

-- Digits in front of the point: a zero stands alone.
def wholePart : List Char → Option (List Char × List Char)
  | '0' :: c :: rest => if c.isDigit then none else some (['0'], c :: rest)
  | cs => digits1 cs

def fractionPart : List Char → Option (List Char × List Char)
  | '.' :: rest => (digits1 rest).map fun (ds, rest) => ('.' :: ds, rest)
  | cs => some ([], cs)

def exponentPart : List Char → Option (List Char × List Char)
  | c :: rest =>
    if c = 'e' || c = 'E' then
      match rest with
      | s :: more =>
        if s = '+' || s = '-' then (digits1 more).map fun (ds, rest) => (c :: s :: ds, rest)
        else (digits1 rest).map fun (ds, rest) => (c :: ds, rest)
      | [] => none
    else some ([], c :: rest)
  | [] => some ([], [])

def readNumber (cs : List Char) : Option (Json × List Char) := do
  let (sign, rest) := match cs with
    | '-' :: rest => (['-'], rest)
    | _ => ([], cs)
  let (whole, rest) ← wholePart rest
  let (fraction, rest) ← fractionPart rest
  let (exponent, rest) ← exponentPart rest
  return (.number (String.ofList (sign ++ whole ++ fraction ++ exponent)), rest)

mutual

-- One value at the head of the text, blanks in front of it skipped.
def readValue : Nat → List Char → Option (Json × List Char)
  | 0, _ => none
  | fuel + 1, cs =>
    match skipSpace cs with
    | 'n' :: 'u' :: 'l' :: 'l' :: rest => some (.null, rest)
    | 't' :: 'r' :: 'u' :: 'e' :: rest => some (.bool true, rest)
    | 'f' :: 'a' :: 'l' :: 's' :: 'e' :: rest => some (.bool false, rest)
    | '"' :: rest =>
      (readString rest).map fun (s, rest) => ((s.map Json.string).getD .garbled, rest)
    | '[' :: rest =>
      match skipSpace rest with
      | ']' :: rest => some (.array [], rest)
      | rest => (readItems fuel rest).map fun (items, rest) => (.array items, rest)
    | '\x7b' :: rest =>
      match skipSpace rest with
      | '\x7d' :: rest => some (.object [], rest)
      | rest => (readFields fuel rest).map fun (fields, rest) => (ofFields fields, rest)
    | rest => readNumber rest

def readItems : Nat → List Char → Option (List Json × List Char)
  | 0, _ => none
  | fuel + 1, cs => do
    let (item, rest) ← readValue fuel cs
    match skipSpace rest with
    | ',' :: rest =>
      let (items, rest) ← readItems fuel rest
      return (item :: items, rest)
    | ']' :: rest => return ([item], rest)
    | _ => none

def readFields : Nat → List Char → Option (List (Option String × Json) × List Char)
  | 0, _ => none
  | fuel + 1, cs =>
    match skipSpace cs with
    | '"' :: rest => do
      let (name, rest) ← readString rest
      match skipSpace rest with
      | ':' :: rest =>
        let (item, rest) ← readValue fuel rest
        match skipSpace rest with
        | ',' :: rest =>
          let (fields, rest) ← readFields fuel rest
          return ((name, item) :: fields, rest)
        | '\x7d' :: rest => return ([(name, item)], rest)
        | _ => none
      | _ => none
    | _ => none

end

-- Reads a whole document: one value with nothing but blanks around it. Every nested call follows a
-- character of its own, so twice the length is enough fuel.
def parse? (text : String) : Option Json :=
  match readValue (2 * text.length + 2) text.toList with
  | some (j, rest) => if (skipSpace rest).isEmpty then some j else none
  | none => none

end HostScript.Json
