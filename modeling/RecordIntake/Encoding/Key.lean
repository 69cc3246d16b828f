import RecordIntake.Encoding.Header
import RecordIntake.Text.Hex

/-!
How the key of a message is shown.
-/
namespace RecordIntake

inductive KeyEncoding where
  | utf8
  | hex
  | omit
  deriving DecidableEq, Repr

namespace KeyEncoding

def parse (name : String) : Except EncodingError KeyEncoding :=
  match String.ofList (Text.lowerAscii (Text.trim name.toList)) with
  | "utf-8" | "utf8" => .ok .utf8
  | "hex" => .ok .hex
  | "do-not-add" => .ok .omit
  | _ => .error (.unsupported name)

/-- The shown form.  As UTF-8 every ill-formed fragment becomes a replacement character. -/
def encode : KeyEncoding → List UInt8 → Option String
  | .utf8, bs => some (String.ofList (Text.Utf8.decodeLossy bs))
  | .hex, bs => some (String.ofList (Text.Hex.encode bs))
  | .omit, _ => none

end KeyEncoding
end RecordIntake
