/-!
SipHash with one round per word, three rounds at the end and both keys zero: a 64 bit fingerprint
of an octet sequence that is the same in every process.
-/
namespace RecordIntake.Fingerprint

structure State where
  a : UInt64
  b : UInt64
  c : UInt64
  d : UInt64

/-- The state of an empty sequence; the constants spell the name of the function's authors' phrase
in ASCII. -/
def start : State :=
  ⟨0x736f6d6570736575, 0x646f72616e646f6d, 0x6c7967656e657261, 0x7465646279746573⟩

def rotateLeft (x : UInt64) (n : UInt64) : UInt64 := (x <<< n) ||| (x >>> (64 - n))

def round (s : State) : State :=
  let a := s.a + s.b
  let b := rotateLeft s.b 13 ^^^ a
  let a := rotateLeft a 32
  let c := s.c + s.d
  let d := rotateLeft s.d 16 ^^^ c
  let a := a + d
  let d := rotateLeft d 21 ^^^ a
  let c := c + b
  let b := rotateLeft b 17 ^^^ c
  let c := rotateLeft c 32
  ⟨a, b, c, d⟩

def absorb (s : State) (word : UInt64) : State :=
  let s := round { s with d := s.d ^^^ word }
  { s with a := s.a ^^^ word }

/-- Octets as a number, the first one lowest. -/
def littleEndian : List UInt8 → UInt64
  | [] => 0
  | b :: bs => b.toUInt64 ||| (littleEndian bs <<< 8)

/-- Absorbs the whole words, and the rest of the octets with the length in the highest octet. -/
def absorbOctets (length : Nat) (s : State) : List UInt8 → State
  | b0 :: b1 :: b2 :: b3 :: b4 :: b5 :: b6 :: b7 :: rest =>
    absorbOctets length (absorb s (littleEndian [b0, b1, b2, b3, b4, b5, b6, b7])) rest
  | rest => absorb s (littleEndian rest ||| (UInt64.ofNat length <<< 56))

def ofOctets (octets : List UInt8) : UInt64 :=
  let s := absorbOctets octets.length start octets
  let s := round (round (round { s with c := s.c ^^^ 0xFF }))
  s.a ^^^ s.b ^^^ s.c ^^^ s.d

end RecordIntake.Fingerprint
