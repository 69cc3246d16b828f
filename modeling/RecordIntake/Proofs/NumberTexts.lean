import RecordIntake.Proofs.Numerals
import RecordIntake.Proofs.Rounding

/-!
JSON numbers, part by part as they are written.  The reader takes the parts in the same order, and
each part is read to its end or the number is too large.  Digits that it does not take are skipped,
since only the exponent, or nothing at all, can come behind them.

What makes a number large are the digits before its point and its exponent.  The digits that are
taken and the power of ten that they are multiplied with never come to more than these two together,
so a number is not too large if they add up to at most 307.
-/
namespace RecordIntake.Json

open Reader

/-! ## Powers of ten -/

def AllDigits (s : List UInt8) : Prop := ∀ b ∈ s, isDigit b = true

/-- An exponent, if there is one, and its value. -/
inductive ExponentText : List UInt8 → Int → Prop where
  | absent : ExponentText [] 0
  | up {e b : UInt8} {sign ds : List UInt8} (he : e = 101 ∨ e = 69)
    (hsign : sign = [] ∨ sign = [43]) (hb : isDigit b = true) (hds : AllDigits ds) :
    ExponentText (e :: (sign ++ b :: ds)) (digitsValue 0 (b :: ds))
  | down {e b : UInt8} {ds : List UInt8} (he : e = 101 ∨ e = 69) (hb : isDigit b = true)
    (hds : AllDigits ds) : ExponentText (e :: 45 :: b :: ds) (-(digitsValue 0 (b :: ds)))

/-- What comes behind the integer digits of a number, and its exponent. -/
inductive TailText : List UInt8 → Int → Prop where
  | exponent {e : List UInt8} {x : Int} (he : ExponentText e x) : TailText e x
  | fraction {b : UInt8} {ds e : List UInt8} {x : Int} (hb : isDigit b = true)
    (hds : AllDigits ds) (he : ExponentText e x) : TailText (46 :: b :: (ds ++ e)) x

section

variable {b : UInt8} {ds e t : List UInt8} {x : Int} {m j : Nat} (negative : Bool) (start : Int)

/-- The digits before it do not go on into the tail. -/
theorem TailText.not_digit (ht : TailText (b :: t) x) : ¬isDigit b = true := by
  cases ht with
  | exponent he =>
    cases he with
    | up he => obtain rfl | rfl := he <;> exact Bool.false_ne_true
    | down he => obtain rfl | rfl := he <;> exact Bool.false_ne_true
  | fraction => exact Bool.false_ne_true

theorem TailText.dropWhile (ht : TailText t x) (hds : AllDigits ds) :
    (ds ++ t).dropWhile isDigit = t := by
  rw [List.dropWhile_append_of_pos hds]
  cases t with
  | nil => rfl
  | cons b t => exact List.dropWhile_cons_of_neg ht.not_digit

theorem TailText.takeWhile (ht : TailText t x) (hds : AllDigits ds) :
    (ds ++ t).takeWhile isDigit = ds := by
  rw [List.takeWhile_append_of_pos hds]
  cases t with
  | nil => exact List.append_nil ds
  | cons b t => rw [List.takeWhile_cons_of_neg ht.not_digit, List.append_nil]

end

end RecordIntake.Json
