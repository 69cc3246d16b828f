/-!
Rationals that are not negative, with numerator and denominator.
-/
namespace RecordIntake.Decimal

/-- The rational `num / den`. -/
structure Ratio where
  num : Nat
  den : Nat

namespace Ratio

def mul (a b : Ratio) : Ratio := ⟨a.num * b.num, a.den * b.den⟩

def div (a b : Ratio) : Ratio := ⟨a.num * b.den, a.den * b.num⟩

/-- `r * 2 ^ p` -/
def scale2 (r : Ratio) (p : Int) : Ratio :=
  if p < 0 then ⟨r.num, r.den * .pow 2 p.natAbs⟩ else ⟨r.num * .pow 2 p.natAbs, r.den⟩

/-- `r / 10 ^ p` -/
def unscale10 (r : Ratio) (p : Int) : Ratio :=
  if p < 0 then ⟨r.num * .pow 10 p.natAbs, r.den⟩ else ⟨r.num, r.den * .pow 10 p.natAbs⟩

/-- The exponent of the first binary digit of a positive rational. -/
def binaryExponent (r : Ratio) : Int :=
  let guess : Int := (r.num.log2 : Int) - r.den.log2
  let scaled := r.scale2 (-guess)
  if scaled.den ≤ scaled.num then guess else guess - 1

/-- The nearest whole number; of two equally near ones the even one. -/
def round (r : Ratio) : Nat :=
  let below := r.num / r.den
  let twice := 2 * (r.num % r.den)
  if twice < r.den || (twice == r.den && below % 2 == 0) then below else below + 1

end Ratio
end RecordIntake.Decimal
