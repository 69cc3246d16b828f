import RecordIntake.Json.Reader
import RecordIntake.Record.Schema

/-!
Reading a message's payload into records.  A payload is one JSON object or an array of objects,
and each object is a record.  An array with anything else in it yields no record at all.
-/
namespace RecordIntake

structure Record where
  schema : UInt64
  fields : Json.Fields
  deriving Inhabited, Repr

def Record.ofFields (fields : Json.Fields) : Record :=
  ⟨(Schema.ofFields fields).fingerprint, fields⟩

def Record.value (r : Record) : Json.Value := .object r.fields

/-- Why a payload yields no records. -/
inductive DecodeError where
  | emptyPayload
  | malformed (fault : Json.Fault) (payload : List UInt8)
  | notARecord (kind : Json.Kind)
  deriving Repr

def DecodeError.message : DecodeError → String
  | .emptyPayload => "message has no payload"
  | .malformed fault payload => "payload is not valid JSON: " ++ fault.message payload
  | .notARecord kind => "expected a JSON object or an array of objects, found " ++ kind.name

/-- Turns the payload of one message into its records. -/
abbrev RecordReader := Option (List UInt8) → Except DecodeError (List Record)

namespace Record

def ofValue : Json.Value → Except DecodeError Record
  | .object fields => .ok (ofFields fields)
  | v => .error (.notARecord v.kind)

/-- The records of the items, or the fault of the first item that is none. -/
def ofValues : List Json.Value → Except DecodeError (List Record)
  | [] => .ok []
  | v :: vs =>
    match ofValue v with
    | .error e => .error e
    | .ok r =>
      match ofValues vs with
      | .error e => .error e
      | .ok rs => .ok (r :: rs)

/-- The records of a payload; no payload and an empty one are alike. -/
def read (payload : Option (List UInt8)) : Except DecodeError (List Record) :=
  match payload with
  | none => .error .emptyPayload
  | some [] => .error .emptyPayload
  | some octets =>
    match Json.read octets with
    | .error f => .error (.malformed f octets)
    | .ok (.array vs) => ofValues vs
    | .ok v => ofValues [v]

end Record
end RecordIntake
