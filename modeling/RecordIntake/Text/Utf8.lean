/-!
UTF-8.  One scan cuts octets into well-formed characters and ill-formed fragments; strict
decoding, decoding with replacement characters and the length of the well-formed start are three
views of its result, so they cannot disagree about where a text breaks.
-/
namespace RecordIntake.Text.Utf8

def encodeChar (c : Char) : List UInt8 :=
  let n := c.toNat
  if n < 0x80 then [UInt8.ofNat n]
  else if n < 0x800 then [UInt8.ofNat (0xC0 + n / 64), UInt8.ofNat (0x80 + n % 64)]
  else if n < 0x10000 then
    [UInt8.ofNat (0xE0 + n / 4096), UInt8.ofNat (0x80 + n / 64 % 64), UInt8.ofNat (0x80 + n % 64)]
  else
    [UInt8.ofNat (0xF0 + n / 262144), UInt8.ofNat (0x80 + n / 4096 % 64),
      UInt8.ofNat (0x80 + n / 64 % 64), UInt8.ofNat (0x80 + n % 64)]

def encode (cs : List Char) : List UInt8 := cs.flatMap encodeChar

/-- A character begun and not finished: the octets seen, the octets owed, the bits collected, and
the range the next octet has to lie in.  Only the second octet of a character has a range narrower
than 80..BF; this is what rules out overlong forms, surrogates and values past U+10FFFF. -/
structure Partial where
  seen : Nat
  owed : Nat
  bits : Nat
  least : Nat
  greatest : Nat

/-- What a first octet begins. -/
inductive Lead where
  | whole (c : Char)
  | begun (p : Partial)
  | stray

def lead (b : UInt8) : Lead :=
  let n := b.toNat
  if n < 0x80 then .whole (Char.ofNat n)
  else if n < 0xC2 then .stray
  else if n < 0xE0 then .begun ⟨1, 1, n - 0xC0, 0x80, 0xBF⟩
  else if n = 0xE0 then .begun ⟨1, 2, 0, 0xA0, 0xBF⟩
  else if n = 0xED then .begun ⟨1, 2, 0xD, 0x80, 0x9F⟩
  else if n < 0xF0 then .begun ⟨1, 2, n - 0xE0, 0x80, 0xBF⟩
  else if n = 0xF0 then .begun ⟨1, 3, 0, 0x90, 0xBF⟩
  else if n < 0xF4 then .begun ⟨1, 3, n - 0xF0, 0x80, 0xBF⟩
  else if n = 0xF4 then .begun ⟨1, 3, 4, 0x80, 0x8F⟩
  else .stray

/-- A character, or a fragment that no character continues (`none`), with its number of octets. -/
structure Piece where
  char? : Option Char
  octets : Nat

def Partial.take (p : Partial) (b : UInt8) : Partial :=
  ⟨p.seen + 1, p.owed - 1, 64 * p.bits + (b.toNat - 0x80), 0x80, 0xBF⟩

def Partial.admits (p : Partial) (b : UInt8) : Bool :=
  p.least ≤ b.toNat && b.toNat ≤ p.greatest

/-- Cuts octets into pieces.  A fragment is as long as it can still be continued to a character,
and the octet that breaks it is looked at again as a first octet. -/
def scan : Option Partial → List UInt8 → List Piece
  | none, [] => []
  | some p, [] => [⟨none, p.seen⟩]
  | none, b :: bs =>
    match lead b with
    | .whole c => ⟨some c, 1⟩ :: scan none bs
    | .begun p => scan (some p) bs
    | .stray => ⟨none, 1⟩ :: scan none bs
  | some p, b :: bs =>
    if p.admits b then
      if p.owed = 1 then ⟨some (Char.ofNat (p.take b).bits), p.seen + 1⟩ :: scan none bs
      else scan (some (p.take b)) bs
    else
      ⟨none, p.seen⟩ ::
        match lead b with
        | .whole c => ⟨some c, 1⟩ :: scan none bs
        | .begun q => scan (some q) bs
        | .stray => ⟨none, 1⟩ :: scan none bs

/-- The characters, if all octets are well formed. -/
def decode (bs : List UInt8) : Option (List Char) := (scan none bs).mapM Piece.char?

/-- The characters, with U+FFFD for every ill-formed fragment. -/
def decodeLossy (bs : List UInt8) : List Char :=
  (scan none bs).map fun p => p.char?.getD (Char.ofNat 0xFFFD)

/-- How many octets stand before the first ill-formed fragment. -/
def wellFormedLength (bs : List UInt8) : Nat :=
  ((scan none bs).takeWhile (·.char?.isSome)).foldl (fun n p => n + p.octets) 0

def octets (s : String) : List UInt8 := encode s.toList

def text (bs : List UInt8) : Option String := (decode bs).map String.ofList

end RecordIntake.Text.Utf8
