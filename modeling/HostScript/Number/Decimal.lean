import HostScript.Number.Binary

namespace HostScript.Number

-- A decimal: the digits stand behind the point, which is then moved `point` places to the right.
structure Decimal where
  digits : List Char
  point : Int

def pow10 (e : Int) : Nat :=
  Nat.pow 10 e.toNat

-- Number of decimal digits before the point of `num / den`; zero or less when it is below one
-- tenth.
def leadingPlace (num den : Nat) : Int :=
  if den ≤ num then (Nat.toDigits 10 (num / den)).length
  else
    let inverse := (den + num - 1) / num
    1 - ((Nat.toDigits 10 (inverse - 1)).length : Int)

def dropZeros (digits : List Char) : List Char :=
  (digits.reverse.dropWhile (· = '0')).reverse

def decimalOf (c : Nat) (unit : Int) : Decimal :=
  let digits := Nat.toDigits 10 c
  ⟨dropZeros digits, digits.length + unit⟩

-- Numbers that read back as the same double lie between `low` and `high`, all three measured in
-- quarters of the last binary place; the ends belong to them when the mantissa is even.
structure Reading where
  low : Nat
  value : Nat
  high : Nat
  closed : Bool

def Magnitude.reading (m : Magnitude) : Reading where
  low := 4 * m.mantissa - (if m.lowGap then 1 else 2)
  value := 4 * m.mantissa
  high := 4 * m.mantissa + 2
  closed := m.mantissa % 2 == 0

-- The point of the decimal grid of step `10 ^ unit` that reads back as `m`, if there is one. Only
-- the two neighbours of the value need a look; of two that fit, the nearer one, and the upper one
-- when they are equally near.
def Magnitude.onGrid (m : Magnitude) (unit : Int) : Option Nat :=
  let quarter := m.exponent - 2
  let scale := Nat.pow 2 quarter.toNat * pow10 (-unit)
  let step := Nat.pow 2 (-quarter).toNat * pow10 unit
  let r := m.reading
  let fits (c : Nat) : Bool :=
    if r.closed then r.low * scale ≤ c * step && c * step ≤ r.high * scale
    else r.low * scale < c * step && c * step < r.high * scale
  let below := r.value * scale / step
  let above := below + 1
  if fits below then
    if fits above && above * step - r.value * scale ≤ r.value * scale - below * step then some above
    else some below
  else if fits above then some above
  else none

-- Tries ever finer grids. Seventeen digits always read back, so that grid ends the search.
def shortestFrom (m : Magnitude) (place : Int) : Nat → Int → Decimal
  | 0, count =>
    decimalOf ((m.onGrid (place - count)).getD 0) (place - count)
  | more + 1, count =>
    match m.onGrid (place - count) with
    | some c => decimalOf c (place - count)
    | none => shortestFrom m place more (count + 1)

-- The fewest digits that read back as `m`, and among those the nearest to its value.
def Magnitude.shortest (m : Magnitude) : Decimal :=
  if m.mantissa = 0 then ⟨['0'], 1⟩
  else
    let num := m.mantissa * Nat.pow 2 m.exponent.toNat
    let den := Nat.pow 2 (-m.exponent).toNat
    let place := leadingPlace num den
    shortestFrom m place 16 1

def zeros (n : Int) : List Char :=
  List.replicate n.toNat '0'

-- All digits written out, without a point when there is nothing behind it.
def Decimal.positional (d : Decimal) : List Char :=
  let count : Int := d.digits.length
  if d.point ≤ 0 then ['0', '.'] ++ zeros (-d.point) ++ d.digits
  else if count ≤ d.point then d.digits ++ zeros (d.point - count)
  else d.digits.take d.point.toNat ++ ['.'] ++ d.digits.drop d.point.toNat

-- One digit before the point and a power of ten behind.
def Decimal.scientific (d : Decimal) : List Char :=
  let mantissa :=
    match d.digits with
    | first :: second :: rest => first :: '.' :: second :: rest
    | short => short
  mantissa ++ ['e'] ++ (toString (d.point - 1)).toList

def signed (negative : Bool) (text : List Char) : String :=
  String.ofList (if negative then '-' :: text else text)

-- The plain text of a number: shortest digits, never a power of ten.
def plain (x : Float) : String :=
  match decode x with
  | .nan => "NaN"
  | .infinite negative => signed negative "inf".toList
  | .finite negative m => signed negative m.shortest.positional

-- A number as scripts print it: plain text, and a zero without a sign.
def text (x : Float) : String :=
  if x == 0 then "0" else plain x

-- A number as listings show it: a point is always there, and very large or very small magnitudes
-- have a power of ten.
def listed (x : Float) : String :=
  match decode x with
  | .nan => "NaN"
  | .infinite negative => signed negative "inf".toList
  | .finite negative m =>
    let size := x.abs
    if size ≥ 1e16 || (size != 0 && size < 1e-4) then signed negative m.shortest.scientific
    else
      let digits := m.shortest.positional
      signed negative (if digits.contains '.' then digits else digits ++ ['.', '0'])

end HostScript.Number
