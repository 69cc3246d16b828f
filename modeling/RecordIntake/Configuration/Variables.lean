import RecordIntake.Text.Literal

/-!
The configuration as it is read from environment variables, before it is checked.
-/
namespace RecordIntake

structure Configuration where
  brokers : String
  tls : Bool
  group : String
  /-- Topic names separated by commas, or a pattern. -/
  topic : String
  topicType : String
  offsetReset : String
  assignments : Option String
  hostName : Option String
  passthrough : Option String
  honorTransactions : Bool
  commsTimeout : Nat
  maxPollRecords : Nat
  maxUncommittedTime : Nat
  pollTimeout : Nat
  maxLeases : Nat
  /-- In seconds; all other times are in milliseconds. -/
  connectionIdleTimeout : Nat
  backoff : Nat
  shutdownGrace : Nat
  maxBatchRecords : Nat
  maxBatchWait : Nat
  separateByKey : Bool
  keyEncoding : String
  headerPattern : Option String
  headerEncoding : String
  bindHost : String
  bindPort : Nat
  deriving DecidableEq, Repr

/-- A variable whose text is not of its type. -/
structure UnreadableVariable where
  name : String
  deriving DecidableEq, Repr

def UnreadableVariable.message (v : UnreadableVariable) : String :=
  "Failed to parse environment variable " ++ v.name

namespace Configuration

/-- The variables of a process. -/
abbrev Variables := String → Option String

def readTruth (vars : Variables) (name : String) (otherwise : Bool) :
    Except UnreadableVariable Bool :=
  match vars name with
  | none => .ok otherwise
  | some text =>
    match Text.readTruth text.toList with
    | some b => .ok b
    | none => .error ⟨name⟩

def readNat (range : Text.IntegerRange) (vars : Variables) (name : String) (otherwise : Nat) :
    Except UnreadableVariable Nat :=
  match vars name with
  | none => .ok otherwise
  | some text =>
    match Text.readInteger range text.toList with
    | some n => .ok n.toNat
    | none => .error ⟨name⟩

/-- Reads the variables in their order; the first one that is not of its type is the error. -/
def read (vars : Variables) : Except UnreadableVariable Configuration := do
  let text (name otherwise : String) : String := (vars name).getD otherwise
  let natural := readNat .nat64 vars
  let tls ← readTruth vars "KAFKA_TLS" false
  let honorTransactions ← readTruth vars "HONOR_TRANSACTIONS" true
  let commsTimeout ← natural "COMMS_TIMEOUT_MS" 60000
  let maxPollRecords ← natural "MAX_POLL_RECORDS" 10000
  let maxUncommittedTime ← natural "MAX_UNCOMMITTED_TIME_MS" 1000
  let pollTimeout ← natural "POLL_TIMEOUT_MS" 100
  let maxLeases ← natural "MAX_LEASES" 4
  let connectionIdleTimeout ← natural "CONNECTION_IDLE_TIMEOUT_SECS" 300
  let backoff ← natural "BACKOFF_MS" 1000
  let shutdownGrace ← natural "SHUTDOWN_GRACE_MS" 5000
  let maxBatchRecords ← natural "MAX_BATCH_RECORDS" 10000
  let maxBatchWait ← natural "MAX_BATCH_WAIT_MS" 5000
  let separateByKey ← readTruth vars "SEPARATE_BY_KEY" false
  let bindPort ← readNat .nat16 vars "BIND_PORT" 8080
  return {
    brokers := text "KAFKA_HOSTS" "localhost:9092"
    tls := tls
    group := text "KAFKA_CONSUMER_GROUP" "kafka-record-consumer"
    topic := text "KAFKA_CONSUMER_TOPIC" "events"
    topicType := text "KAFKA_TOPIC_TYPE" "names"
    offsetReset := text "KAFKA_CONSUMER_OFFSET_RESET" "latest"
    assignments := vars "KAFKA_PARTITION_ASSIGNMENTS"
    hostName := vars "HOSTNAME"
    passthrough := vars "KAFKA_CONSUMER_PROPERTIES"
    honorTransactions := honorTransactions
    commsTimeout := commsTimeout
    maxPollRecords := maxPollRecords
    maxUncommittedTime := maxUncommittedTime
    pollTimeout := pollTimeout
    maxLeases := maxLeases
    connectionIdleTimeout := connectionIdleTimeout
    backoff := backoff
    shutdownGrace := shutdownGrace
    maxBatchRecords := maxBatchRecords
    maxBatchWait := maxBatchWait
    separateByKey := separateByKey
    keyEncoding := text "KEY_ATTRIBUTE_ENCODING" "utf-8"
    headerPattern := vars "HEADER_NAME_REGEX"
    headerEncoding := text "HEADER_ENCODING" "UTF-8"
    bindHost := text "BIND_HOST" "0.0.0.0"
    bindPort := bindPort }

/-- The names of the variables that are read. -/
def variableNames : List String :=
  ["KAFKA_HOSTS", "KAFKA_TLS", "KAFKA_CONSUMER_GROUP", "KAFKA_CONSUMER_TOPIC", "KAFKA_TOPIC_TYPE",
    "KAFKA_CONSUMER_OFFSET_RESET", "KAFKA_PARTITION_ASSIGNMENTS", "HOSTNAME",
    "KAFKA_CONSUMER_PROPERTIES", "HONOR_TRANSACTIONS", "COMMS_TIMEOUT_MS", "MAX_POLL_RECORDS",
    "MAX_UNCOMMITTED_TIME_MS", "POLL_TIMEOUT_MS", "MAX_LEASES", "CONNECTION_IDLE_TIMEOUT_SECS",
    "BACKOFF_MS", "SHUTDOWN_GRACE_MS", "MAX_BATCH_RECORDS", "MAX_BATCH_WAIT_MS", "SEPARATE_BY_KEY",
    "KEY_ATTRIBUTE_ENCODING", "HEADER_NAME_REGEX", "HEADER_ENCODING", "BIND_HOST", "BIND_PORT"]

end Configuration
end RecordIntake
