/-!
What can go wrong between the library and the cluster, and whether a connection survives it.
-/
namespace RecordIntake

/-- The codes of the cluster's client that a consumer recovers from by itself, and all others. -/
inductive ClientCode where
  | endOfPartition
  | timedOut
  | offsetOutOfRange
  | other
  deriving DecidableEq, Repr

/-- The parts of the client that can fail.  Only failed consumption and cancellation are told apart
further. -/
inductive ClientError where
  | consumption (code : ClientCode)
  | canceled
  | other
  deriving DecidableEq, Repr

inductive IntakeError where
  /-- Settings that cannot work; never retried. -/
  | configuration (text : String)
  /-- A call to the cluster was aborted by a wakeup. -/
  | interrupted
  | client (e : ClientError)
  | transport (text : String)
  | sink (text : String)
  | poolClosed
  deriving DecidableEq, Repr

def ClientError.isFatal : ClientError → Bool
  | .consumption .endOfPartition => false
  | .consumption .timedOut => false
  | .consumption .offsetOutOfRange => false
  | .consumption .other => true
  | .canceled => false
  | .other => true

namespace IntakeError

/-- Whether the connection with the error has to be discarded. -/
def isFatal : IntakeError → Bool
  | .client e => e.isFatal
  | .transport _ => true
  | .configuration _ => false
  | .interrupted => false
  | .sink _ => false
  | .poolClosed => false

/-- The text of an error; the client words its own errors, so theirs is not told here. -/
def message? : IntakeError → Option String
  | .configuration text => some ("configuration error: " ++ text)
  | .interrupted => some "interrupted while communicating with the broker"
  | .client _ => none
  | .transport text => some ("transport fault: " ++ text)
  | .sink text => some ("sink failure: " ++ text)
  | .poolClosed => some "consumer pool is closed"

def kind : IntakeError → String
  | .configuration _ => "Configuration"
  | .interrupted => "Interrupted"
  | .client _ => "Kafka"
  | .transport _ => "Transport"
  | .sink _ => "Sink"
  | .poolClosed => "PoolClosed"

end IntakeError
end RecordIntake
