import RecordIntake.Json.Value
import RecordIntake.Record.Fingerprint
import RecordIntake.Text.Utf8

/-!
The schema of a record: the names of its fields with the types of their values, in ascending order
of the names.  Records with different schemas never share a batch, and batches tell schemas apart
by the fingerprint of their octets.
-/
namespace RecordIntake

abbrev Schema := List (String × Json.Kind)

namespace Schema

def ofFields (fields : Json.Fields) : Schema := fields.map fun (name, v) => (name, v.kind)

/-- Each name and each type name ends with a zero octet. -/
def octets (s : Schema) : List UInt8 :=
  s.flatMap fun (name, kind) =>
    Text.Utf8.octets name ++ 0 :: Text.Utf8.octets kind.name ++ [0]

def fingerprint (s : Schema) : UInt64 := Fingerprint.ofOctets s.octets

end Schema
end RecordIntake
