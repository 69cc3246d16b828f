import RecordIntake.Text.Blank
import RecordIntake.Text.Utf16
import RecordIntake.Text.Utf8

/-!
Character encodings of header values.
-/
namespace RecordIntake

inductive EncodingError where
  | unsupported (name : String)
  | malformed (encoding : String)
  deriving DecidableEq, Repr

def EncodingError.message : EncodingError → String
  | .unsupported name => "unsupported character encoding: " ++ name
  | .malformed encoding => "bytes are not valid " ++ encoding

inductive HeaderEncoding where
  | utf8
  | utf16Big
  | utf16Little
  /-- With an optional byte order mark, and big-endian without one. -/
  | utf16
  | latin1
  | ascii
  deriving DecidableEq, Repr

namespace HeaderEncoding

/-- The encoding with the given name; case does not matter, and an underscore stands for a
hyphen. -/
def parse (name : String) : Except EncodingError HeaderEncoding :=
  let plain := (Text.upperAscii (Text.trim name.toList)).map fun c => if c = '_' then '-' else c
  match String.ofList plain with
  | "UTF-8" | "UTF8" => .ok .utf8
  | "UTF-16BE" => .ok .utf16Big
  | "UTF-16LE" => .ok .utf16Little
  | "UTF-16" => .ok .utf16
  | "ISO-8859-1" | "LATIN1" => .ok .latin1
  | "US-ASCII" | "ASCII" => .ok .ascii
  | _ => .error (.unsupported name)

def name : HeaderEncoding → String
  | .utf8 => "UTF-8"
  | .utf16Big => "UTF-16BE"
  | .utf16Little => "UTF-16LE"
  | .utf16 => "UTF-16"
  | .latin1 => "ISO-8859-1"
  | .ascii => "US-ASCII"

def octetChar (b : UInt8) : Char := Char.ofNat b.toNat

def decodeChars : HeaderEncoding → List UInt8 → Option (List Char)
  | .utf8, bs => Text.Utf8.decode bs
  | .utf16Big, bs => Text.Utf16.decode .big bs
  | .utf16Little, bs => Text.Utf16.decode .little bs
  | .utf16, 0xFE :: 0xFF :: bs => Text.Utf16.decode .big bs
  | .utf16, 0xFF :: 0xFE :: bs => Text.Utf16.decode .little bs
  | .utf16, bs => Text.Utf16.decode .big bs
  | .latin1, bs => some (bs.map octetChar)
  | .ascii, bs => if bs.all (· < 128) then some (bs.map octetChar) else none

def decode (e : HeaderEncoding) (bs : List UInt8) : Except EncodingError String :=
  match e.decodeChars bs with
  | some cs => .ok (String.ofList cs)
  | none => .error (.malformed e.name)

/-- The octets of characters, where the encoding has all of them.  UTF-16 is written with its byte
order mark. -/
def encode? : HeaderEncoding → List Char → Option (List UInt8)
  | .utf8, cs => some (Text.Utf8.encode cs)
  | .utf16Big, cs => some (Text.Utf16.encode .big cs)
  | .utf16Little, cs => some (Text.Utf16.encode .little cs)
  | .utf16, cs => some (0xFE :: 0xFF :: Text.Utf16.encode .big cs)
  | .latin1, cs =>
    if cs.all (·.toNat < 256) then some (cs.map fun c => UInt8.ofNat c.toNat) else none
  | .ascii, cs =>
    if cs.all (·.toNat < 128) then some (cs.map fun c => UInt8.ofNat c.toNat) else none

end HeaderEncoding
end RecordIntake
