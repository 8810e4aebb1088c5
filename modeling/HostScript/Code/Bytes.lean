namespace HostScript

abbrev Bytes := Array UInt8

-- The lowest `count` bytes of a number, least significant first.
def bytesOf : (count n : Nat) → List UInt8
  | 0, _ => []
  | count + 1, n => UInt8.ofNat n :: bytesOf count (n / 256)

namespace Bytes

-- The number in `count` bytes from `pos` on, least significant first. Nothing when the code ends
-- before that.
def nat? (code : Bytes) : (count pos : Nat) → Option Nat
  | 0, _ => some 0
  | count + 1, pos => do
    let low ← code[pos]?
    let high ← nat? code count (pos + 1)
    return low.toNat + 256 * high

def u8? (code : Bytes) (pos : Nat) : Option UInt8 :=
  code[pos]?

def u16? (code : Bytes) (pos : Nat) : Option UInt16 :=
  (nat? code 2 pos).map UInt16.ofNat

def i32? (code : Bytes) (pos : Nat) : Option Int32 :=
  (nat? code 4 pos).map fun n => (UInt32.ofNat n).toInt32

def i64? (code : Bytes) (pos : Nat) : Option Int64 :=
  (nat? code 8 pos).map fun n => (UInt64.ofNat n).toInt64

def f64? (code : Bytes) (pos : Nat) : Option Float :=
  (nat? code 8 pos).map fun n => Float.ofBits (UInt64.ofNat n)

end Bytes

def bytesOfI32 (n : Int32) : List UInt8 :=
  bytesOf 4 n.toUInt32.toNat

def bytesOfI64 (n : Int64) : List UInt8 :=
  bytesOf 8 n.toUInt64.toNat

def bytesOfFloat (x : Float) : List UInt8 :=
  bytesOf 8 x.toBits.toNat

end HostScript
