/-!
UTF-16 in both byte orders.
-/
namespace RecordIntake.Text.Utf16

inductive ByteOrder where
  | big
  | little
  deriving DecidableEq, Repr

/-- A code unit from two octets as they stand in the text. -/
def unit : ByteOrder → UInt8 → UInt8 → Nat
  | .big, a, b => 256 * a.toNat + b.toNat
  | .little, a, b => a.toNat + 256 * b.toNat

def unitOctets : ByteOrder → Nat → List UInt8
  | .big, u => [UInt8.ofNat (u / 256), UInt8.ofNat (u % 256)]
  | .little, u => [UInt8.ofNat (u % 256), UInt8.ofNat (u / 256)]

def units (order : ByteOrder) : List UInt8 → Option (List Nat)
  | [] => some []
  | [_] => none
  | a :: b :: bs => (units order bs).map (unit order a b :: ·)

def isLeading (u : Nat) : Bool := 0xD800 ≤ u && u < 0xDC00

def isTrailing (u : Nat) : Bool := 0xDC00 ≤ u && u < 0xE000

/-- Leading surrogates have to be followed by trailing ones, and these follow nothing else. -/
def decodeUnits : List Nat → Option (List Char)
  | [] => some []
  | [u] => if isLeading u || isTrailing u then none else some [Char.ofNat u]
  | u :: v :: us =>
    if isLeading u then
      if isTrailing v then
        (decodeUnits us).map
          (Char.ofNat (0x10000 + 1024 * (u - 0xD800) + (v - 0xDC00)) :: ·)
      else none
    else if isTrailing u then none
    else (decodeUnits (v :: us)).map (Char.ofNat u :: ·)

def charUnits (c : Char) : List Nat :=
  let n := c.toNat
  if n < 0x10000 then [n]
  else [0xD800 + (n - 0x10000) / 1024, 0xDC00 + (n - 0x10000) % 1024]

def decode (order : ByteOrder) (bs : List UInt8) : Option (List Char) :=
  (units order bs).bind decodeUnits

def encode (order : ByteOrder) (cs : List Char) : List UInt8 :=
  (cs.flatMap charUnits).flatMap (unitOctets order)

end RecordIntake.Text.Utf16
