import HostScript.Json.Basic
import HostScript.Number.Read

namespace HostScript.Json

-- How the digits of a number are gathered: a whole number of 64 bits and a power of ten.
structure Scaled where
  significand : Nat
  exponent : Int
  deriving DecidableEq, Repr

-- Appends digits as long as the significand fits; the answer is what it has become and how many
-- digits found room.
def gather (significand count : Nat) : List Char → Nat × Nat
  | [] => (significand, count)
  | c :: rest =>
    let next := 10 * significand + Number.digitValue c
    if next < Nat.pow 2 64 then gather next (count + 1) rest else (significand, count)

-- Digits in front of the point that find no room still count as places; those behind it are lost.
def Scaled.ofDigits (whole fraction : List Char) : Scaled :=
  let (significand, taken) := gather 0 0 whole
  let (significand, places) := gather significand 0 fraction
  ⟨significand, ((whole.length - taken : Nat) : Int) - places⟩

-- The largest power of ten with an exponent that doubles can hold.
def maxPower : Int :=
  308

-- Scales by one power of ten at a time, rounding each time. A number that grows beyond all doubles
-- has no value. Doubles vanish after a few steps down, so `steps` need not be large.
def scale (x : Float) (exponent : Int) : (steps : Nat) → Option Float
  | 0 => some x
  | steps + 1 =>
    if exponent.natAbs ≤ maxPower then
      let power := Number.ofDecimal false 1 exponent.natAbs
      (some (if exponent < 0 then x / power else x * power)).filter Float.isFinite
    else if x == 0 then some x
    else if 0 < exponent then none
    else scale (x / Number.ofDecimal false 1 maxPower) (exponent + maxPower) steps

-- The double a number stands for. Its digits are read into 64 bits and scaled afterwards, which is
-- exact for up to fifteen digits and small powers, and otherwise near.
def float? : Json → Option Float
  | .number lexeme =>
    let (negative, rest) := Number.takeSign lexeme.toList
    let whole := rest.takeWhile Char.isDigit
    let (fraction, rest) := match rest.dropWhile Char.isDigit with
      | '.' :: rest => (rest.takeWhile Char.isDigit, rest.dropWhile Char.isDigit)
      | rest => ([], rest)
    let s := Scaled.ofDigits whole fraction
    do
      let e ← Number.readExponent rest
      let x ← scale (UInt64.ofNat s.significand).toFloat (s.exponent + e) 4
      return if negative then -x else x
  | _ => none

end HostScript.Json
