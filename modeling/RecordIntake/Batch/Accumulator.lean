import RecordIntake.Batch.Emission
import RecordIntake.Encoding.Key
import RecordIntake.Message
import RecordIntake.Metrics
import RecordIntake.Pattern
import RecordIntake.Record.Reader

/-!
Grouping records into batches.  Two records share a batch only if they agree on the whole group:
schema, partition, message key when batches are separated by key, and selected headers.  A batch is
sealed when it is full, when it has waited long enough, or when everything is flushed.

Batches are sealed in the order of their `sequence`, never in the order in which they happen to be
kept, so what is emitted does not depend on the latter.
-/
namespace RecordIntake

structure BatchSettings where
  /-- A batch is sealed as soon as it holds this many records. -/
  maxRecords : Nat := 10000
  /-- A batch that has waited this long, in milliseconds, is sealed by the next poll. -/
  maxWait : Nat := 5000
  separateByKey : Bool := false
  keyEncoding : KeyEncoding := .utf8
  headerPattern : Option Pattern := none
  headerEncoding : HeaderEncoding := .utf8
  deriving Repr

namespace BatchSettings

def selectsHeader (s : BatchSettings) (h : Header) : Bool :=
  match s.headerPattern with
  | none => false
  | some p => p.isMatch h.name

/-- The text of a header value.  A missing value and one that cannot be decoded are both empty. -/
def headerText (s : BatchSettings) (h : Header) : String :=
  match h.value with
  | none => ""
  | some octets =>
    match s.headerEncoding.decode octets with
    | .ok text => text
    | .error _ => ""

/-- The selected headers of a message; of two with one name the later one counts. -/
def selectedHeaders (s : BatchSettings) (m : Message) : SortedMap String String :=
  .ofList ((m.headers.filter s.selectsHeader).map fun h => (h.name, s.headerText h))

def isUndecodable (s : BatchSettings) (h : Header) : Bool :=
  match h.value with
  | none => false
  | some octets => (s.headerEncoding.decodeChars octets).isNone

/-- The number of selected header values that cannot be decoded. -/
def undecodableHeaders (s : BatchSettings) (m : Message) : Nat :=
  ((m.headers.filter s.selectsHeader).filter s.isUndecodable).length

/-- The key of a message as far as it separates batches. -/
def groupingKey (s : BatchSettings) (m : Message) : Option (List UInt8) :=
  if s.separateByKey then m.key else none

def shownKey (s : BatchSettings) (key : Option (List UInt8)) : Option String :=
  if s.separateByKey then key.bind s.keyEncoding.encode else none

end BatchSettings

structure Group where
  schema : UInt64
  partition : Partition
  key : Option (List UInt8)
  headers : SortedMap String String
  deriving DecidableEq, Repr

/-- The later of two timestamps; a missing one is before all others. -/
def latest : Option Int → Option Int → Option Int
  | none, t => t
  | t, none => t
  | some t, some u => some (max t u)

/-- A batch that is still open, and holds at least one record. -/
structure PendingBatch where
  /-- Ascends with the arrival of the batches' first records. -/
  sequence : Nat
  since : Nat
  records : Array Json.Value
  firstOffset : Int
  lastOffset : Int
  timestamp : Option Int
  deriving Repr

namespace PendingBatch

def start (sequence now : Nat) (m : Message) (v : Json.Value) : PendingBatch :=
  ⟨sequence, now, #[v], m.offset, m.offset, m.timestamp⟩

def push (b : PendingBatch) (m : Message) (v : Json.Value) : PendingBatch :=
  { b with
    records := b.records.push v
    lastOffset := m.offset
    timestamp := latest b.timestamp m.timestamp }

def toSealed (b : PendingBatch) (s : BatchSettings) (g : Group) : SealedBatch where
  metadata :=
    { topic := g.partition.topic
      partition := g.partition.number
      timestamp := b.timestamp
      key := s.shownKey g.key
      headers := g.headers
      recordCount := b.records.size
      firstOffset := b.firstOffset
      lastOffset := b.lastOffset }
  records := b.records.toList

end PendingBatch

/-- The open batch of each group. -/
abbrev Pending := List (Group × PendingBatch)

namespace Pending

def find? (g : Group) : Pending → Option PendingBatch
  | [] => none
  | (g', b) :: rest => if g' = g then some b else find? g rest

/-- Adds a record to the batch of a group, or opens one for it. -/
def add (g : Group) (sequence now : Nat) (m : Message) (v : Json.Value) : Pending → Pending
  | [] => [(g, .start sequence now m v)]
  | (g', b) :: rest =>
    if g' = g then (g', b.push m v) :: rest else (g', b) :: add g sequence now m v rest

def remove (g : Group) (p : Pending) : Pending := p.filter fun (g', _) => !(g' == g)

def records : Pending → Nat
  | [] => 0
  | (_, b) :: rest => b.records.size + records rest

/-- Seals batches in the order in which they were opened. -/
def sealAll (s : BatchSettings) (p : Pending) : List Emission :=
  (p.mergeSort fun a b => a.2.sequence ≤ b.2.sequence).map fun (g, b) => .batch (b.toSealed s g)

end Pending

structure Accumulator where
  settings : BatchSettings
  reader : RecordReader
  pending : Pending
  nextSequence : Nat

namespace Accumulator

def start (reader : RecordReader) (settings : BatchSettings) : Accumulator :=
  ⟨settings, reader, [], 0⟩

/-- An accumulator of JSON records. -/
def empty (settings : BatchSettings) : Accumulator := start Record.read settings

/-- The group of a message's records, up to their schema. -/
def commonGroup (s : BatchSettings) (m : Message) : Group :=
  ⟨0, m.partition, s.groupingKey m, s.selectedHeaders m⟩

/-- Adds one record of a message to a group, and seals the group's batch if that fills it. -/
def addRecord (a : Accumulator) (m : Message) (now : Nat) (g : Group) (r : Record) :
    Accumulator × List Emission :=
  let pending := a.pending.add g a.nextSequence now m r.value
  let next := a.nextSequence + 1
  match pending.find? g with
  | some b =>
    if a.settings.maxRecords ≤ b.records.size then
      ({ a with pending := pending.remove g, nextSequence := next },
        [.batch (b.toSealed a.settings g)])
    else ({ a with pending := pending, nextSequence := next }, [])
  | none => ({ a with pending := pending, nextSequence := next }, [])

/-- Adds the records of a message, each to the group of its schema. -/
def addRecords (a : Accumulator) (m : Message) (now : Nat) (common : Group) :
    List Record → Accumulator × List Emission
  | [] => (a, [])
  | r :: rs =>
    let (a, first) := a.addRecord m now { common with schema := r.schema } r
    let (a, rest) := a.addRecords m now common rs
    (a, first ++ rest)

/-- What is emitted for a message that has no records to read. -/
def failureOf (s : BatchSettings) (m : Message) (e : DecodeError) : ParseFailure where
  metadata :=
    { topic := m.partition.topic
      partition := m.partition.number
      timestamp := m.timestamp
      key := s.shownKey m.key
      headers := s.selectedHeaders m
      recordCount := 1
      firstOffset := m.offset
      lastOffset := m.offset }
  reason := e.message
  raw := m.payload.getD []

/-- Takes in one message; returns the batches it filled, or its parse failure. -/
def absorb (a : Accumulator) (m : Message) (now : Nat) : Accumulator × List Emission :=
  match a.reader m.payload with
  | .ok records => a.addRecords m now (commonGroup a.settings m) records
  | .error e => (a, [.parseFailure (failureOf a.settings m e)])

/-- What is counted when a message was absorbed and the given units were emitted for it. -/
def countAbsorbed (s : BatchSettings) (m : Message) (emitted : List Emission) (metrics : Metrics) :
    Metrics :=
  let metrics :=
    match s.undecodableHeaders m with
    | 0 => metrics
    | n => metrics.add .headerDecodeFailures n
  match emitted.countP Emission.isParseFailure with
  | 0 => metrics
  | n => metrics.add .parseFailures n

def isExpired (s : BatchSettings) (now : Nat) (b : PendingBatch) : Bool := s.maxWait ≤ now - b.since

/-- Seals every batch that has waited long enough. -/
def takeExpired (a : Accumulator) (now : Nat) : Accumulator × List Emission :=
  let (due, others) := a.pending.partition fun (_, b) => isExpired a.settings now b
  ({ a with pending := others }, Pending.sealAll a.settings due)

/-- Seals everything. -/
def flushAll (a : Accumulator) : Accumulator × List Emission :=
  ({ a with pending := [] }, a.pending.sealAll a.settings)

def pendingRecords (a : Accumulator) : Nat := a.pending.records

def pendingBatches (a : Accumulator) : Nat := a.pending.length

/-- Drops all open batches. -/
def discard (a : Accumulator) : Accumulator := { a with pending := [] }

end Accumulator
end RecordIntake
