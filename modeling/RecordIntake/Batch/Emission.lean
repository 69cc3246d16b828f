import RecordIntake.Json.Value
import RecordIntake.Partition
import RecordIntake.Text.Hex

/-!
What is handed downstream: a batch of records that agree on their grouping, or a message that could
not be read, kept octet for octet.  Both carry the same metadata and are written as one JSON
object, whose fields stand in a fixed order.
-/
namespace RecordIntake

structure UnitMetadata where
  topic : String
  partition : Int
  /-- The latest timestamp in the unit. -/
  timestamp : Option Int
  /-- The shown key, if units are separated by key. -/
  key : Option String
  headers : SortedMap String String
  recordCount : Nat
  firstOffset : Int
  lastOffset : Int
  deriving DecidableEq, Repr

structure SealedBatch where
  metadata : UnitMetadata
  records : List Json.Value
  deriving Repr

structure ParseFailure where
  metadata : UnitMetadata
  reason : String
  raw : List UInt8
  deriving DecidableEq, Repr

inductive Emission where
  | batch (b : SealedBatch)
  | parseFailure (f : ParseFailure)
  deriving Repr

def UnitMetadata.value (m : UnitMetadata) : Json.Value :=
  .object [
    ("topic", .string m.topic),
    ("partition", .integer m.partition),
    ("timestamp", m.timestamp.elim .null .integer),
    ("key", m.key.elim .null .string),
    ("header_attributes", .object (m.headers.mapValues .string)),
    ("record_count", .ofNat m.recordCount),
    ("first_offset", .integer m.firstOffset),
    ("last_offset", .integer m.lastOffset)]

namespace Emission

def metadata : Emission → UnitMetadata
  | .batch b => b.metadata
  | .parseFailure f => f.metadata

def isParseFailure : Emission → Bool
  | .batch _ => false
  | .parseFailure _ => true

/-- The object that is written for a unit. -/
def value : Emission → Json.Value
  | .batch b =>
    .object [
      ("relationship", .string "success"),
      ("metadata", b.metadata.value),
      ("records", .array b.records)]
  | .parseFailure f =>
    .object [
      ("relationship", .string "parse_failure"),
      ("metadata", f.metadata.value),
      ("error", .string f.reason),
      ("raw_hex", .string (String.ofList (Text.Hex.encode f.raw)))]

end Emission
end RecordIntake
