/-!
Integer and truth literals of configuration text.  An integer literal is an optional sign and at
least one ASCII digit; leading zeros are allowed, blanks and separators are not.
-/
namespace RecordIntake.Text

def isDigit (c : Char) : Bool := '0' ≤ c && c ≤ '9'

def digitValue (c : Char) : Nat := c.toNat - '0'.toNat

/-- The number written by decimal digits, most significant first. -/
def decimalValue (cs : List Char) : Nat :=
  cs.foldl (fun n c => 10 * n + digitValue c) 0

def readNatural (cs : List Char) : Option Nat :=
  if cs.isEmpty || !cs.all isDigit then none else some (decimalValue cs)

/-- The range a literal has to fall in.  Where no value is negative a minus sign is refused, even
before a zero. -/
structure IntegerRange where
  least : Int
  greatest : Int

namespace IntegerRange

def int32 : IntegerRange := ⟨-2147483648, 2147483647⟩
def int64 : IntegerRange := ⟨-9223372036854775808, 9223372036854775807⟩
def nat16 : IntegerRange := ⟨0, 65535⟩
def nat64 : IntegerRange := ⟨0, 18446744073709551615⟩

def contains (r : IntegerRange) (n : Int) : Bool := r.least ≤ n && n ≤ r.greatest

end IntegerRange

def readInteger (range : IntegerRange) (cs : List Char) : Option Int :=
  let value : Option Int :=
    match cs with
    | '+' :: digits => (readNatural digits).map Int.ofNat
    | '-' :: digits =>
      if range.least < 0 then (readNatural digits).map fun n => -(Int.ofNat n) else none
    | digits => (readNatural digits).map Int.ofNat
  value.filter range.contains

def readTruth (cs : List Char) : Option Bool :=
  if cs = "true".toList then some true
  else if cs = "false".toList then some false
  else none

end RecordIntake.Text
