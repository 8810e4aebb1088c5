import HostScript.Text.Class

namespace HostScript.Number

-- A finite double without its sign: `mantissa * 2 ^ exponent`. `lowGap` says that the next smaller
-- double is only half as far away as the next larger one, which happens at powers of two.
structure Magnitude where
  mantissa : Nat
  exponent : Int
  lowGap : Bool

-- What the bits of a double say.
inductive Decoded where
  | nan
  | infinite (negative : Bool)
  | finite (negative : Bool) (magnitude : Magnitude)

def isNegative (bits : UInt64) : Bool :=
  bits.toNat / Nat.pow 2 63 == 1

-- Reads the sign, the eleven exponent bits and the fraction of a double. The smallest exponent has
-- no hidden leading bit.
def decodeBits (bits : UInt64) : Decoded :=
  let biased : Nat := bits.toNat / Nat.pow 2 52 % Nat.pow 2 11
  let fraction : Nat := bits.toNat % Nat.pow 2 52
  if biased = 2047 then
    if fraction = 0 then .infinite (isNegative bits) else .nan
  else if biased = 0 then
    .finite (isNegative bits) ⟨fraction, -1074, false⟩
  else
    .finite (isNegative bits)
      ⟨Nat.pow 2 52 + fraction, (biased : Int) - 1075, fraction == 0 && biased > 1⟩

def decode (x : Float) : Decoded :=
  decodeBits x.toBits

def scaleUp (n : Nat) (e : Int) : Nat :=
  n * Nat.pow 2 e.toNat

-- Bits of the double nearest to `num / den`, an exact half going to the even neighbour. The
-- quotient is taken with 53 significant bits, or fewer where the exponent cannot go lower.
def nearestBits (num den : Nat) : Nat :=
  if num = 0 || den = 0 then 0
  else
    let guess : Int := (num.log2 : Int) - den.log2 - 53
    let quotientAt (e : Int) : Nat := scaleUp num (-e) / scaleUp den e
    let fitted := if quotientAt guess < Nat.pow 2 53 then guess else guess + 1
    let e := max fitted (-1074)
    let top := scaleUp num (-e)
    let bottom := scaleUp den e
    let q := top / bottom
    let twice := 2 * (top % bottom)
    let rounded := if twice > bottom || (twice == bottom && q % 2 == 1) then q + 1 else q
    if rounded < Nat.pow 2 52 then rounded
    else
      let bits := (e + 1075).toNat * Nat.pow 2 52 + (rounded - Nat.pow 2 52)
      min bits (2047 * Nat.pow 2 52)

-- The double nearest to `num / den`, with the given sign.
def ofRatio (negative : Bool) (num den : Nat) : Float :=
  Float.ofBits (UInt64.ofNat (nearestBits num den + if negative then Nat.pow 2 63 else 0))

def infinity (negative : Bool) : Float :=
  ofRatio negative (Nat.pow 2 1024) 1

def nan : Float :=
  0.0 / 0.0

-- The double nearest to a whole number.
def ofLong (n : Int64) : Float :=
  if n < 0 then -(-n).toUInt64.toFloat else n.toUInt64.toFloat

-- How many of the numbers 0, 1, 2, ... are below `x`, as far as 64 bits can tell.
def wholesBelow (x : Float) : Nat :=
  if 0 < x then
    let whole := x.toUInt64
    min (if whole.toFloat < x then whole.toNat + 1 else whole.toNat) 18446744073709551615
  else 0

-- Whether `x` is finite and has no fractional part.
def isWhole (x : Float) : Bool :=
  match decode x with
  | .finite _ m => m.exponent ≥ 0 || m.mantissa % Nat.pow 2 (-m.exponent).toNat == 0
  | _ => false

-- The part of `x` left after taking away `y` as often as it fits, rounding toward zero. The result
-- is exact and has the sign of `x`; nothing is left over from an infinity, and nothing fits by
-- zero.
def remainder (x y : Float) : Float :=
  match decode x, decode y with
  | .finite negative m, .finite _ n =>
    if n.mantissa = 0 then nan
    else
      let e := min m.exponent n.exponent
      let r := scaleUp m.mantissa (m.exponent - e) % scaleUp n.mantissa (n.exponent - e)
      ofRatio negative (scaleUp r e) (scaleUp 1 (-e))
  | .finite _ _, .infinite _ => x
  | _, _ => nan

-- The smaller of two numbers, the second one when they are equal; a value that is not a number
-- gives way to the other.
def least (x y : Float) : Float :=
  if y.isNaN then x else if x < y then x else y

-- The larger of two numbers, the second one when they are equal; a value that is not a number gives
-- way to the other.
def greatest (x y : Float) : Float :=
  if y.isNaN then x else if x > y then x else y

-- The bits of a double in hexadecimal. Values that are not a number are not told apart.
def bitsText (x : Float) : String :=
  if x.isNaN then "nan" else String.ofList (Text.hex 16 x.toBits.toNat)

-- The double with the given bits.
def ofBits? (bits : String) : Option Float :=
  if bits = "nan" then some nan
  else do
    let digits ← bits.toList.mapM Text.hexValue?
    return Float.ofBits (UInt64.ofNat (digits.foldl (fun n d => 16 * n + d) 0))

end HostScript.Number
