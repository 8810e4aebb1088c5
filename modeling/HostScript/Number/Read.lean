import HostScript.Number.Binary

namespace HostScript.Number

def digitValue (c : Char) : Nat :=
  c.toNat - '0'.toNat

-- The number written by decimal digits, most significant first.
def ofDigits (cs : List Char) : Nat :=
  cs.foldl (fun n c => 10 * n + digitValue c) 0

-- Takes a leading sign off; the flag is true for a minus.
def takeSign : List Char → Bool × List Char
  | '-' :: rest => (true, rest)
  | '+' :: rest => (false, rest)
  | cs => (false, cs)

def readDigits (cs : List Char) : Option Nat :=
  if cs.isEmpty || !cs.all Char.isDigit then none else some (ofDigits cs)

-- Reads an optional sign and decimal digits, nothing else.
def readInt (cs : List Char) : Option Int :=
  let (negative, rest) := takeSign cs
  (readDigits rest).map fun n => if negative then -(n : Int) else n

-- Reads a signed 64-bit whole number; one that does not fit is refused.
def readLong (cs : List Char) : Option Int64 :=
  (readInt cs).bind fun n =>
    if -9223372036854775808 ≤ n && n < 9223372036854775808 then some (Int64.ofInt n) else none

-- Reads a whole number below `limit`. A plus sign may stand in front, a minus sign may not.
def readBelow (limit : Nat) (cs : List Char) : Option Nat :=
  let rest := match cs with
    | '+' :: rest => rest
    | _ => cs
  (readDigits rest).filter (· < limit)

-- The double nearest to `digits * 10 ^ exponent`. Exponents far outside the range of doubles are
-- settled by the number of digits alone.
def ofDecimal (negative : Bool) (digits : Nat) (exponent : Int) : Float :=
  let place := (Nat.toDigits 10 digits).length + exponent
  if digits = 0 then ofRatio negative 0 1
  else if place > 310 then infinity negative
  else if place < -330 then ofRatio negative 0 1
  else ofRatio negative (digits * Nat.pow 10 exponent.toNat) (Nat.pow 10 (-exponent).toNat)

def readExponent : List Char → Option Int
  | [] => some 0
  | c :: rest => if c = 'e' || c = 'E' then readInt rest else none

-- Digits around an optional point, at least one of them, and an optional power of ten.
def readUnsigned (negative : Bool) (cs : List Char) : Option Float :=
  let whole := cs.takeWhile Char.isDigit
  let afterWhole := cs.dropWhile Char.isDigit
  let behind := match afterWhole with
    | '.' :: rest => rest
    | _ => []
  let fraction := behind.takeWhile Char.isDigit
  let rest := match afterWhole with
    | '.' :: _ => behind.dropWhile Char.isDigit
    | _ => afterWhole
  if whole.isEmpty && fraction.isEmpty then none
  else (readExponent rest).map fun e =>
    ofDecimal negative (ofDigits (whole ++ fraction)) (e - fraction.length)

-- Reads a double: a signed decimal, or the name of an infinity or of the value that is not a
-- number.
def readDouble (cs : List Char) : Option Float :=
  let (negative, rest) := takeSign cs
  let word := String.ofList (rest.map Char.toLower)
  if word = "inf" || word = "infinity" then some (infinity negative)
  else if word = "nan" then some nan
  else readUnsigned negative rest

end HostScript.Number
