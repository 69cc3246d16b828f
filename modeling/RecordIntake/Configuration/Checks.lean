import RecordIntake.Assignment.Resolver
import RecordIntake.Client.Properties
import RecordIntake.Configuration.Variables
import RecordIntake.Settings

/-!
What a configuration means: its subscription, the properties of its clients, its limits.  All of it
is checked before anything connects.
-/
namespace RecordIntake.Configuration

def bindAddress (c : Configuration) : String := s!"{c.bindHost}:{c.bindPort}"

/-- The name of this host in an assignment; a blank name is no name. -/
def localHost (c : Configuration) : String :=
  match c.hostName with
  | some name => if (Text.trim name.toList).isEmpty then "localhost" else name
  | none => "localhost"

def resolver (c : Configuration) (compile : Pattern.Compiler) : Except IntakeError Resolver := do
  let topics ← TopicSelection.parse compile c.topicType c.topic
  let assignment ←
    match c.assignments with
    | some declaration => StaticAssignment.parse declaration
    | none => pure none
  Resolver.ofSelection topics assignment c.localHost

/-- One property, cut at its first equals sign. -/
def property (entry : List Char) : Except IntakeError (String × String) :=
  match Text.cutAt '=' entry with
  | some (k, v) => .ok (String.ofList (Text.trim k), String.ofList (Text.trim v))
  | none =>
    .error (.configuration
      ("invalid Kafka property '" ++ String.ofList entry ++ "', expected key=value"))

/-- The properties that are passed through to the client, in the order in which they stand. -/
def passthroughProperties (c : Configuration) : Except IntakeError (List (String × String)) :=
  match c.passthrough with
  | none => .ok []
  | some text => (Text.entries ',' text.toList).mapM property

/-- Passed through properties come last, so they win. -/
def clientProperties (c : Configuration) : Except IntakeError ClientProperties := do
  let passthrough ← c.passthroughProperties
  let ps := ClientProperties.base c.brokers c.group
  let ps := ps.withTls c.tls
  let ps := ps.withOffsetReset c.offsetReset
  let ps := ps.withTransactionsHonored c.honorTransactions
  let ps := ps.withTimeout (1000 * c.commsTimeout)
  let ps := ps.withClientName c.localHost
  return ps.withAll passthrough

/-- The pattern of selected headers; an empty one is none. -/
def selectedHeaders (c : Configuration) (compile : Pattern.Compiler) :
    Except IntakeError (Option Pattern) :=
  match c.headerPattern with
  | none => .ok none
  | some "" => .ok none
  | some text =>
    match compile text with
    | .ok p => .ok (some p)
    | .error explanation => .error (.configuration ("invalid HEADER_NAME_REGEX: " ++ explanation))

def encodingFault (name : String) (e : EncodingError) : IntakeError :=
  .configuration ("invalid " ++ name ++ ": " ++ e.message)

def settings (c : Configuration) (compile : Pattern.Compiler) :
    Except IntakeError IntakeSettings := do
  let headerPattern ← c.selectedHeaders compile
  let headerEncoding ←
    (HeaderEncoding.parse c.headerEncoding).mapError (encodingFault "HEADER_ENCODING")
  let keyEncoding ←
    (KeyEncoding.parse c.keyEncoding).mapError (encodingFault "KEY_ATTRIBUTE_ENCODING")
  return {
    pool := ⟨c.maxLeases, 1000 * c.connectionIdleTimeout⟩
    lease := ⟨c.maxUncommittedTime, c.maxPollRecords, c.pollTimeout⟩
    batch :=
      { maxRecords := c.maxBatchRecords
        maxWait := c.maxBatchWait
        separateByKey := c.separateByKey
        keyEncoding := keyEncoding
        headerPattern := headerPattern
        headerEncoding := headerEncoding } }

def offsetResetPolicies : List String := ["earliest", "latest", "none"]

/-- Checks everything that can be checked without the cluster; the first fault is the error. -/
def validate (c : Configuration) (compile : Pattern.Compiler) : Except IntakeError Unit := do
  let _ ← c.resolver compile
  let _ ← c.settings compile
  let _ ← c.passthroughProperties
  if c.maxLeases = 0 then throw (.configuration "MAX_LEASES must be at least 1")
  if c.maxPollRecords = 0 ∨ c.maxBatchRecords = 0 then
    throw (.configuration "MAX_POLL_RECORDS and MAX_BATCH_RECORDS must be at least 1")
  if c.offsetReset ∉ offsetResetPolicies then
    throw (.configuration
      ("unknown offset reset policy '" ++ c.offsetReset ++
        "', expected earliest, latest or none"))

end RecordIntake.Configuration
