import RecordIntake.Error
import RecordIntake.Offsets.Ledger
import RecordIntake.Subscription

/-!
A cluster that keeps its logs in memory and serves one consumer group.  A log only grows, and the
offset of a message is its place in its log.
-/
namespace RecordIntake

structure Cluster where
  logs : SortedMap Partition (Array Message)
  committed : Offsets
  /-- Every attempt to commit, also the refused ones, latest first. -/
  commitCalls : List Offsets
  partitionCounts : SortedMap String Nat
  /-- The number of commits that will be refused. -/
  failingCommits : Nat
  /-- The number of connections that will be refused. -/
  failingConnects : Nat
  /-- The number of polls before the one that is interrupted midway. -/
  midwayInterrupt : Option Nat
  /-- While set, polls wait for an interrupt and for nothing else. -/
  blocksPolls : Bool
  /-- The greatest number of messages in one poll. -/
  maxPollRecords : Nat
  opened : Nat
  closed : Nat
  deriving Repr

namespace Cluster

def empty (maxPollRecords : Nat) : Cluster :=
  ⟨[], [], [], [], 0, 0, none, false, maxPollRecords, 0, 0⟩

def log (c : Cluster) (p : Partition) : Array Message := (c.logs.find? p).getD #[]

/-- Appends a message to the log of its partition, at the offset that is next there. -/
def produce (c : Cluster) (m : Message) : Cluster × Int :=
  let log := c.log m.partition
  let offset : Int := log.size
  ({ c with logs := c.logs.insert m.partition (log.push { m with offset := offset }) }, offset)

def produceAll (c : Cluster) : List Message → Cluster × List Int
  | [] => (c, [])
  | m :: ms =>
    let (c, offset) := c.produce m
    let (c, offsets) := c.produceAll ms
    (c, offset :: offsets)

/-- The messages of a log from a position on, as many as there is room for. -/
def readFrom (log : Array Message) (position : Int) (room : Nat) : List Message :=
  match position with
  | .ofNat n => (log.extract n (n + room)).toList
  | .negSucc _ => []

/-- Reads one log after the other.  A partition that is read for the first time is read from its
committed offset on; all positions move behind what was read. -/
def fetchFrom (committed : Offsets) (s : Subscription) :
    List (Partition × Array Message) → Nat → Offsets → List Message × Offsets
  | [], _, positions => ([], positions)
  | (p, log) :: rest, room, positions =>
    if s.selects p then
      let start := (positions.find? p).getD ((committed.find? p).getD 0)
      let read := readFrom log start room
      let (others, positions) :=
        fetchFrom committed s rest (room - read.length) (positions.insert p (start + read.length))
      (read ++ others, positions)
    else fetchFrom committed s rest room positions

def fetch (c : Cluster) (s : Subscription) (positions : Offsets) : List Message × Offsets :=
  fetchFrom c.committed s c.logs c.maxPollRecords positions

/-- Counts one poll towards the interrupt that comes midway; tells whether it comes now. -/
def takeMidwayInterrupt (c : Cluster) : Bool × Cluster :=
  match c.midwayInterrupt with
  | none => (false, c)
  | some 0 => (true, { c with midwayInterrupt := none })
  | some (n + 1) => (false, { c with midwayInterrupt := some n })

def commit (c : Cluster) (offsets : Offsets) : Cluster × Except IntakeError Unit :=
  let c := { c with commitCalls := offsets :: c.commitCalls }
  match c.failingCommits with
  | n + 1 => ({ c with failingCommits := n }, .error (.transport "simulated commit failure"))
  | 0 => ({ c with committed := c.committed.union offsets }, .ok ())

def connect (c : Cluster) : Cluster × Except IntakeError Unit :=
  match c.failingConnects with
  | n + 1 => ({ c with failingConnects := n }, .error (.transport "simulated connection failure"))
  | 0 => ({ c with opened := c.opened + 1 }, .ok ())

def disconnect (c : Cluster) : Cluster := { c with closed := c.closed + 1 }

def partitionCount (c : Cluster) (topic : String) : Except IntakeError Nat :=
  match c.partitionCounts.find? topic with
  | some n => .ok n
  | none => .error (.configuration ("unknown topic " ++ topic))

end Cluster
end RecordIntake
