import RecordIntake.Decimal.Ratio

/-!
Double precision numbers as their 64 bits.  Numbers are compared and carried by their bits, so `0.0`
and `-0.0` are two values and equality is decidable.  Arithmetic is that of rationals, and what
comes out is rounded to the nearest number, to the even one of two.  It is only needed for numbers
that are finite and not negative.
-/
namespace RecordIntake

open Decimal (Ratio)

structure Binary64 where
  bits : UInt64
  deriving DecidableEq, Repr, Inhabited

namespace Binary64

def isNegative (x : Binary64) : Bool := x.bits >>> 63 == 1

def exponentField (x : Binary64) : Nat := ((x.bits >>> 52) &&& 0x7FF).toNat

def fractionField (x : Binary64) : Nat := (x.bits &&& 0xFFFFFFFFFFFFF).toNat

/-- The magnitude of a finite number is `significand * 2 ^ power`. -/
def significand (x : Binary64) : Nat :=
  if x.exponentField = 0 then x.fractionField else .pow 2 52 + x.fractionField

def power (x : Binary64) : Int :=
  if x.exponentField = 0 then -1074 else (x.exponentField : Int) - 1075

/-- Whether the next number towards zero is only half as far away as the next one outwards. -/
def isBinadeStart (x : Binary64) : Bool := x.fractionField == 0 && x.exponentField > 1

def value (x : Binary64) : Ratio := (Ratio.mk x.significand 1).scale2 x.power

/-! ## Rounding -/

/-- The bits of infinity, next to those of the greatest finite number. -/
def infinityBits : Nat := 2047 * .pow 2 52

/-- The bits of the number nearest to a rational, if there were no greatest one.  Bits ascend with
the numbers, so a significand that is rounded up to `2 ^ 53` gives the least number with the next
exponent. -/
def nearestBits (r : Ratio) : Nat :=
  if r.num = 0 then 0
  else
    let p := max (r.binaryExponent - 52) (-1074)
    (p + 1074).toNat * .pow 2 52 + (r.scale2 (-p)).round

def ofRatio (r : Ratio) : Binary64 := ⟨.ofNat (Nat.min (nearestBits r) infinityBits)⟩

def ofNat (n : Nat) : Binary64 := ofRatio ⟨n, 1⟩

def zero : Binary64 := ⟨0⟩

def powerOfTen (n : Nat) : Binary64 := ofNat (.pow 10 n)

def mul (x y : Binary64) : Binary64 := ofRatio (x.value.mul y.value)

def div (x y : Binary64) : Binary64 := ofRatio (x.value.div y.value)

def isInfinite (x : Binary64) : Bool := x.bits.toNat == infinityBits

def withSign (negative : Bool) (x : Binary64) : Binary64 :=
  if negative then ⟨x.bits ||| 0x8000000000000000⟩ else x

end Binary64
end RecordIntake
