import RecordIntake.Json.Value
import RecordIntake.Text.Utf8
import RecordIntake.Text.Hex

/-!
Reading JSON from octets.  The readers take the octets that are left and give back those they
leave, and a fault remembers how many were left, so its line and column can be told from the whole
text afterwards.  Nesting is bounded by `Reader.maxDepth`; the reader of a value is recursive in
the number of containers that may still be opened, and a sequence is read with as many steps as
there are octets.
-/
namespace RecordIntake.Json

inductive Cause where
  | endInValue
  | endInList
  | endInObject
  | endInString
  | expectedWord
  | expectedValue
  | tooDeep
  | trailingComma
  | trailingCharacters
  | expectedListSeparator
  | expectedObjectSeparator
  | keyNotString
  | expectedColon
  | controlCharacter
  | invalidEscape
  | loneSurrogate
  | unfinishedSurrogate
  | notUnicode
  | invalidNumber
  | outOfRange
  deriving DecidableEq, Repr

def Cause.text : Cause → String
  | .endInValue => "EOF while parsing a value"
  | .endInList => "EOF while parsing a list"
  | .endInObject => "EOF while parsing an object"
  | .endInString => "EOF while parsing a string"
  | .expectedWord => "expected ident"
  | .expectedValue => "expected value"
  | .tooDeep => "recursion limit exceeded"
  | .trailingComma => "trailing comma"
  | .trailingCharacters => "trailing characters"
  | .expectedListSeparator => "expected `,` or `]`"
  | .expectedObjectSeparator => "expected `,` or `\x7d`"
  | .keyNotString => "key must be a string"
  | .expectedColon => "expected `:`"
  | .controlCharacter => "control character (\\u0000-\\u001F) found while parsing a string"
  | .invalidEscape => "invalid escape"
  | .loneSurrogate => "lone leading surrogate in hex escape"
  | .unfinishedSurrogate => "unexpected end of hex escape"
  | .notUnicode => "invalid unicode code point"
  | .invalidNumber => "invalid number"
  | .outOfRange => "number out of range"

/-- What is wrong, how many octets were left there, and how far before that place the column is
counted. -/
structure Fault where
  cause : Cause
  left : Nat
  back : Nat
  deriving DecidableEq, Repr

/-- A fault behind the octets read so far. -/
def Fault.behind (cause : Cause) (rest : List UInt8) : Fault := ⟨cause, rest.length, 0⟩

/-- A fault at the next octet, or at the end if there is none. -/
def Fault.ahead (cause : Cause) (rest : List UInt8) : Fault := ⟨cause, rest.length - 1, 0⟩

/-- A value with the octets after it. -/
abbrev Reading (α : Type) := Except Fault (α × List UInt8)

namespace Reader

def maxDepth : Nat := 127

def isSpace (b : UInt8) : Bool := b == 32 || b == 10 || b == 9 || b == 13

def skipSpace (s : List UInt8) : List UInt8 := s.dropWhile isSpace

def isDigit (b : UInt8) : Bool := 48 ≤ b && b ≤ 57

def digitValue (b : UInt8) : Nat := b.toNat - 48

/-- The rest of a word whose first letter was read. -/
def word (v : Value) : List UInt8 → List UInt8 → Reading Value
  | [], s => .ok (v, s)
  | _ :: _, [] => .error (.behind .endInValue [])
  | w :: ws, b :: s => if b = w then word v ws s else .error (.behind .expectedWord s)

/-! ## Numbers

The digits of a number are gathered in a significand below `2 ^ 64`; digits that do not fit are
dropped, and those before the point counted in the exponent. -/

def significandLimit : Nat := .pow 2 64

def exponentLimit : Nat := .pow 2 31

/-- `x * 10 ^ e`, in steps that a double can hold; `none` if the result is infinite. -/
def scaleDouble (x : Binary64) (e : Int) : Option Binary64 :=
  if e.natAbs ≤ 308 then
    if 0 ≤ e then
      let y := x.mul (.powerOfTen e.natAbs)
      if y.isInfinite then none else some y
    else some (x.div (.powerOfTen e.natAbs))
  else if x = .zero then some x
  else if 0 ≤ e then none
  else scaleDouble (x.div (.powerOfTen 308)) (e + 308)
  termination_by e.natAbs
  decreasing_by omega

/-- A double from its significand and its decimal exponent.  It is rounded at each step, and so is
not always the double nearest to the number that is written. -/
def double (negative : Bool) (significand : Nat) (e : Int) (s : List UInt8) : Reading Value :=
  match scaleDouble (.ofNat significand) e with
  | none => .error (.behind .outOfRange s)
  | some x => .ok (.double (x.withSign negative), s)

/-- The digits of an exponent after its first one; the exponent, or `none` if it is too large, in
which case the digit that made it so has been read. -/
def exponentDigits (e : Nat) : List UInt8 → Option Nat × List UInt8
  | [] => (some e, [])
  | b :: s =>
    if isDigit b then
      let next := 10 * e + digitValue b
      if next < exponentLimit then exponentDigits next s else (none, s)
    else (some e, b :: s)

/-- The part of a number after the letter `e`. -/
def exponent (negative : Bool) (significand : Nat) (start : Int) (s : List UInt8) :
    Reading Value :=
  let (down, s) : Bool × List UInt8 :=
    match s with
    | 43 :: r => (false, r)
    | 45 :: r => (true, r)
    | r => (false, r)
  match s with
  | [] => .error (.behind .endInValue [])
  | b :: s =>
    if isDigit b then
      match exponentDigits (digitValue b) s with
      | (some e, s) => double negative significand (if down then start - e else start + e) s
      | (none, s) =>
        if significand ≠ 0 && !down then .error (.behind .outOfRange s)
        else .ok (.double (Binary64.zero.withSign negative), s.dropWhile isDigit)
    else .error (.behind .invalidNumber s)

def exponentOrEnd (negative : Bool) (significand : Nat) (start : Int) :
    List UInt8 → Reading Value
  | 101 :: s => exponent negative significand start s
  | 69 :: s => exponent negative significand start s
  | s => double negative significand start s

/-- The digits after the point: the significand, how many were taken, and what is left. -/
def fractionDigits (significand taken : Nat) : List UInt8 → Nat × Nat × List UInt8
  | [] => (significand, taken, [])
  | b :: s =>
    if isDigit b then
      let next := 10 * significand + digitValue b
      if next < significandLimit then fractionDigits next (taken + 1) s
      else (significand, taken, b :: s)
    else (significand, taken, b :: s)

/-- The part of a number after its point. -/
def fraction (negative : Bool) (significand : Nat) (start : Int) (s : List UInt8) :
    Reading Value :=
  match s with
  | [] => .error (.ahead .endInValue [])
  | b :: _ =>
    if isDigit b then
      let (m, taken, s) := fractionDigits significand 0 s
      exponentOrEnd negative m (start - taken) (s.dropWhile isDigit)
    else .error (.ahead .invalidNumber s)

/-- The number after its integer digits, if these fit in the significand. -/
def afterInteger (negative : Bool) (significand : Nat) : List UInt8 → Reading Value
  | 46 :: s => fraction negative significand 0 s
  | 101 :: s => exponent negative significand 0 s
  | 69 :: s => exponent negative significand 0 s
  | s =>
    if negative then
      if 0 < significand && significand ≤ .pow 2 63 then .ok (.integer (-(significand : Int)), s)
      else .ok (.double ((Binary64.ofNat significand).withSign true), s)
    else .ok (.integer significand, s)

/-- The number after its integer digits, `dropped` of which did not fit. -/
def afterLongInteger (negative : Bool) (significand dropped : Nat) : List UInt8 → Reading Value
  | 46 :: s => fraction negative significand dropped s
  | s => exponentOrEnd negative significand dropped s

/-- The integer digits after the first one, which is not a zero. -/
def integerDigits (negative : Bool) (significand : Nat) : List UInt8 → Reading Value
  | [] => afterInteger negative significand []
  | b :: s =>
    if isDigit b then
      let next := 10 * significand + digitValue b
      if next < significandLimit then integerDigits negative next s
      else
        let digits := (b :: s).takeWhile isDigit
        afterLongInteger negative significand digits.length ((b :: s).dropWhile isDigit)
    else afterInteger negative significand (b :: s)

/-- A number after its sign. -/
def number (negative : Bool) : List UInt8 → Reading Value
  | [] => .error (.behind .endInValue [])
  | 48 :: s =>
    match s with
    | [] => afterInteger negative 0 s
    | b :: _ =>
      if isDigit b then .error (.ahead .invalidNumber s) else afterInteger negative 0 s
  | b :: s =>
    if isDigit b then integerDigits negative (digitValue b) s
    else .error (.behind .invalidNumber s)

/-! ## Strings -/

def hexValue? (b : UInt8) : Option Nat := Text.Hex.digitValue? (Char.ofNat b.toNat)

def hex4? (a b c d : UInt8) : Option Nat := do
  let w ← hexValue? a
  let x ← hexValue? b
  let y ← hexValue? c
  let z ← hexValue? d
  pure (4096 * w + 256 * x + 16 * y + z)

/-- The octet that a one-letter escape stands for. -/
def simpleEscape? (b : UInt8) : Option UInt8 :=
  if b = 34 || b = 92 || b = 47 then some b
  else if b = 98 then some 8
  else if b = 102 then some 12
  else if b = 110 then some 10
  else if b = 114 then some 13
  else if b = 116 then some 9
  else none

def isLeadingSurrogate (n : Nat) : Bool := 0xD800 ≤ n && n < 0xDC00

def isTrailingSurrogate (n : Nat) : Bool := 0xDC00 ≤ n && n < 0xE000

/-- The octets of a string without its escapes, up to and with the closing quote.  They are
gathered in reverse. -/
def stringOctets (acc : List UInt8) : List UInt8 → Reading (List UInt8)
  | [] => .error (.behind .endInString [])
  | 34 :: s => .ok (acc.reverse, s)
  | 92 :: [] => .error (.behind .endInString [])
  | 92 :: 117 :: a :: b :: c :: d :: s =>
    match hex4? a b c d with
    | none => .error (.behind .invalidEscape s)
    | some n =>
      if isTrailingSurrogate n then .error (.behind .loneSurrogate s)
      else if isLeadingSurrogate n then
        match s with
        | 92 :: 117 :: e :: f :: g :: h :: t =>
          match hex4? e f g h with
          | none => .error (.behind .invalidEscape t)
          | some m =>
            if isTrailingSurrogate m then
              let c := Char.ofNat (0x10000 + 1024 * (n - 0xD800) + (m - 0xDC00))
              stringOctets ((Text.Utf8.encodeChar c).reverse ++ acc) t
            else .error (.behind .loneSurrogate t)
        | [] => .error (.behind .endInString [])
        | 92 :: [] => .error (.behind .endInString [])
        | 92 :: 117 :: _ => .error (.behind .endInString [])
        | 92 :: _ :: t => .error (.behind .unfinishedSurrogate t)
        | _ :: t => .error (.behind .unfinishedSurrogate t)
      else stringOctets ((Text.Utf8.encodeChar (Char.ofNat n)).reverse ++ acc) s
  | 92 :: 117 :: _ => .error (.behind .endInString [])
  | 92 :: b :: s =>
    match simpleEscape? b with
    | some e => stringOctets (e :: acc) s
    | none => .error (.behind .invalidEscape s)
  | b :: s =>
    if b < 32 then .error (.behind .controlCharacter s) else stringOctets (b :: acc) s

/-- A string after its opening quote. -/
def string (s : List UInt8) : Reading String :=
  match stringOctets [] s with
  | .error f => .error f
  | .ok (octets, rest) =>
    match Text.Utf8.text octets with
    | some t => .ok (t, rest)
    | none =>
      .error ⟨.notUnicode, rest.length, octets.length - Text.Utf8.wellFormedLength octets⟩

/-! ## Containers -/

/-- The items of an array after its bracket or an item, and the closing bracket.  `item` reads one
value, and `steps` bounds the number of items. -/
def items (item : List UInt8 → Reading Value) (acc : List Value) :
    Nat → Bool → List UInt8 → Reading (List Value)
  | 0, _, s => .error (.ahead .endInList s)
  | steps + 1, first, s =>
    match skipSpace s with
    | [] => .error (.ahead .endInList [])
    | 93 :: s => .ok (acc.reverse, s)
    | b :: s =>
      if first then
        match item (b :: s) with
        | .error f => .error f
        | .ok (v, s) => items item (v :: acc) steps false s
      else if b = 44 then
        match skipSpace s with
        | [] => .error (.ahead .endInValue [])
        | 93 :: s => .error (.ahead .trailingComma (93 :: s))
        | s =>
          match item s with
          | .error f => .error f
          | .ok (v, s) => items item (v :: acc) steps false s
      else .error (.ahead .expectedListSeparator (b :: s))

/-- One field of an object from its opening quote on. -/
def member (item : List UInt8 → Reading Value) (s : List UInt8) : Reading (String × Value) :=
  match s with
  | 34 :: s =>
    match string s with
    | .error f => .error f
    | .ok (name, s) =>
      match skipSpace s with
      | [] => .error (.ahead .endInObject [])
      | 58 :: s =>
        match item s with
        | .error f => .error f
        | .ok (v, s) => .ok ((name, v), s)
      | s => .error (.ahead .expectedColon s)
  | s => .error (.ahead .keyNotString s)

/-- The fields of an object after its brace or a field, and the closing brace. -/
def members (item : List UInt8 → Reading Value) (acc : Fields) :
    Nat → Bool → List UInt8 → Reading Fields
  | 0, _, s => .error (.ahead .endInObject s)
  | steps + 1, first, s =>
    match skipSpace s with
    | [] => .error (.ahead .endInObject [])
    | 125 :: s => .ok (acc, s)
    | b :: s =>
      if first then
        match member item (b :: s) with
        | .error f => .error f
        | .ok ((name, v), s) => members item (acc.insert name v) steps false s
      else if b = 44 then
        match skipSpace s with
        | [] => .error (.ahead .endInValue [])
        | 125 :: s => .error (.ahead .trailingComma (125 :: s))
        | s =>
          match member item s with
          | .error f => .error f
          | .ok ((name, v), s) => members item (acc.insert name v) steps false s
      else .error (.ahead .expectedObjectSeparator (b :: s))

/-- A value, with spaces before it.  `depth` containers may still be opened. -/
def value (depth : Nat) (s : List UInt8) : Reading Value :=
  match skipSpace s with
  | [] => .error (.ahead .endInValue [])
  | 110 :: s => word .null [117, 108, 108] s
  | 116 :: s => word (.boolean true) [114, 117, 101] s
  | 102 :: s => word (.boolean false) [97, 108, 115, 101] s
  | 45 :: s => number true s
  | 34 :: s =>
    match string s with
    | .error f => .error f
    | .ok (t, s) => .ok (.string t, s)
  | 91 :: s =>
    match depth with
    | 0 => .error (.ahead .tooDeep (91 :: s))
    | d + 1 =>
      match items (value d) [] (s.length + 1) true s with
      | .error f => .error f
      | .ok (vs, s) => .ok (.array vs, s)
  | 123 :: s =>
    match depth with
    | 0 => .error (.ahead .tooDeep (123 :: s))
    | d + 1 =>
      match members (value d) [] (s.length + 1) true s with
      | .error f => .error f
      | .ok (fs, s) => .ok (.object fs, s)
  | b :: s =>
    if isDigit b then number false (b :: s) else .error (.ahead .expectedValue (b :: s))

end Reader

/-- The value that a whole text stands for. -/
def read (octets : List UInt8) : Except Fault Value :=
  match Reader.value Reader.maxDepth octets with
  | .error f => .error f
  | .ok (v, rest) =>
    match Reader.skipSpace rest with
    | [] => .ok v
    | rest => .error (.ahead .trailingCharacters rest)

/-- Line, counted from 1, and octets since its start, behind the first `n` octets. -/
def place (octets : List UInt8) (n : Nat) : Nat × Nat :=
  (octets.take n).foldl
    (fun (at_ : Nat × Nat) (b : UInt8) => if b = 10 then (at_.1 + 1, 0) else (at_.1, at_.2 + 1))
    (1, 0)

def Fault.message (f : Fault) (octets : List UInt8) : String :=
  let (line, column) := place octets (octets.length - f.left)
  let column := column - f.back
  s!"{f.cause.text} at line {line} column {column}"

end RecordIntake.Json
