import RecordIntake.Decimal.Binary64

/-!
The shortest decimal that reads back as a given double.  A double stands for the reals that round
to it; their ends belong to it iff its significand is even.  On the grid of decimals with `n`
digits only the two neighbours of the number can be the nearest one inside, so the search looks at
these two for `n = 1, 2, …` and stops at the first grid with a hit.
-/
namespace RecordIntake.Decimal

def digitCount (n : Nat) : Nat := (Nat.toDigits 10 n).length

namespace Ratio

/-- The exponent of the first decimal digit of a positive rational. -/
def decimalExponent (r : Ratio) : Int :=
  let guess : Int := (digitCount r.num : Int) - digitCount r.den
  let scaled := r.unscale10 guess
  if scaled.den ≤ scaled.num then guess else guess - 1

end Ratio

/-- The reals that round to one double. -/
structure Rounding where
  least : Ratio
  value : Ratio
  greatest : Ratio
  endsIncluded : Bool

namespace Rounding

def ofBinary64 (x : Binary64) : Rounding :=
  let m := x.significand
  let at_ (n : Nat) : Ratio := (Ratio.mk n 1).scale2 (x.power - 2)
  ⟨at_ (4 * m - (if x.isBinadeStart then 1 else 2)), at_ (4 * m), at_ (4 * m + 2), m % 2 == 0⟩

/-- Whether `n * 10 ^ p` rounds to the double. -/
def holds (r : Rounding) (n : Nat) (p : Int) : Bool :=
  let low := r.least.unscale10 p
  let high := r.greatest.unscale10 p
  if r.endsIncluded then low.num ≤ n * low.den && n * high.den ≤ high.num
  else low.num < n * low.den && n * high.den < high.num

/-- The neighbour of the number, on the grid of the multiples of `10 ^ p`, that rounds to it and is
nearest to it; of two equally near ones the even one. -/
def nearest? (r : Rounding) (p : Int) : Option Nat :=
  let v := r.value.unscale10 p
  let below := v.num / v.den
  let above := below + 1
  match r.holds below p, r.holds above p with
  | true, false => some below
  | false, true => some above
  | false, false => none
  | true, true =>
    let twice := 2 * (v.num % v.den)
    if twice < v.den then some below
    else if v.den < twice then some above
    else if below % 2 == 0 then some below else some above

end Rounding

/-- The digits of a decimal and the power of ten of the last one. -/
structure Digits where
  digits : Nat
  power : Int

/-- Looks at the grids with `count`, `count + 1`, … digits; `tries` bounds their number. -/
def searchGrid (r : Rounding) (top : Int) (count : Nat) : Nat → Digits
  | 0 => ⟨0, 0⟩
  | tries + 1 =>
    let p := top - count + 1
    match r.nearest? p with
    | some n => ⟨n, p⟩
    | none => searchGrid r top (count + 1) tries

/-- The shortest decimal of a positive finite double.  Seventeen digits always suffice. -/
def shortest (x : Binary64) : Digits :=
  let r := Rounding.ofBinary64 x
  searchGrid r r.value.decimalExponent 1 17

/-- The decimal digits of a positive number without the zeros at its end. -/
def significantDigits (n : Nat) : List Char :=
  ((Nat.toDigits 10 n).reverse.dropWhile (· == '0')).reverse

end RecordIntake.Decimal
