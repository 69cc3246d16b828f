import RecordIntake.Decimal.Shortest
import RecordIntake.Json.Value
import RecordIntake.Text.Hex

/-!
The written form of a JSON value: no blanks, fields in the order of the object, the shortest
escapes.
-/
namespace RecordIntake.Json

def escapeChar (c : Char) : List Char :=
  if c = '"' then ['\\', '"']
  else if c = '\\' then ['\\', '\\']
  else
    let n := c.toNat
    if n = 8 then ['\\', 'b']
    else if n = 9 then ['\\', 't']
    else if n = 10 then ['\\', 'n']
    else if n = 12 then ['\\', 'f']
    else if n = 13 then ['\\', 'r']
    else if n < 32 then ['\\', 'u', '0', '0', Text.Hex.digit (n / 16), Text.Hex.digit (n % 16)]
    else [c]

def stringChars (s : String) : List Char :=
  '"' :: s.toList.flatMap escapeChar ++ ['"']

def integerChars (n : Int) : List Char :=
  if n < 0 then '-' :: Nat.toDigits 10 n.natAbs else Nat.toDigits 10 n.natAbs

/-- Decimal exponents of the first digit for which a double is written positionally. -/
def isPositional (e : Int) : Bool := -5 ≤ e && e ≤ 15

/-- The digits of a positive double with its point or its exponent.  A point always has a digit
after it, and an exponent always has a sign. -/
def layoutDigits (ds : List Char) (e : Int) : List Char :=
  if isPositional e then
    if e < 0 then '0' :: '.' :: List.replicate (e.natAbs - 1) '0' ++ ds
    else
      let whole := e.natAbs + 1
      let intPart := ds.take whole ++ List.replicate (whole - ds.length) '0'
      let rest := ds.drop whole
      intPart ++ '.' :: (if rest.isEmpty then ['0'] else rest)
  else
    let mantissa :=
      match ds with
      | [] => []
      | [d] => [d]
      | d :: rest => d :: '.' :: rest
    mantissa ++ 'e' :: (if e < 0 then '-' else '+') :: Nat.toDigits 10 e.natAbs

def magnitudeChars (x : Binary64) : List Char :=
  if x.significand = 0 then ['0', '.', '0']
  else
    let d := Decimal.shortest x
    let all := Nat.toDigits 10 d.digits
    layoutDigits (Decimal.significantDigits d.digits) (d.power + (all.length : Int) - 1)

def doubleChars (x : Binary64) : List Char :=
  if x.isNegative then '-' :: magnitudeChars x else magnitudeChars x

mutual

def Value.chars : Value → List Char
  | .null => ['n', 'u', 'l', 'l']
  | .boolean true => ['t', 'r', 'u', 'e']
  | .boolean false => ['f', 'a', 'l', 's', 'e']
  | .integer n => integerChars n
  | .double x => doubleChars x
  | .string s => stringChars s
  | .array items => '[' :: itemsChars items ++ [']']
  | .object fields => '\x7b' :: fieldsChars fields ++ ['\x7d']

def itemsChars : List Value → List Char
  | [] => []
  | v :: rest => v.chars ++ moreItemsChars rest

def moreItemsChars : List Value → List Char
  | [] => []
  | v :: rest => ',' :: v.chars ++ moreItemsChars rest

def fieldsChars : List (String × Value) → List Char
  | [] => []
  | (n, v) :: rest => stringChars n ++ ':' :: v.chars ++ moreFieldsChars rest

def moreFieldsChars : List (String × Value) → List Char
  | [] => []
  | (n, v) :: rest => ',' :: stringChars n ++ ':' :: v.chars ++ moreFieldsChars rest

end

def Value.text (v : Value) : String := String.ofList v.chars

end RecordIntake.Json
