import RecordIntake.Json.Value
import RecordIntake.SortedMap

/-!
Partitions of topics, and offsets kept by partition.
-/
namespace RecordIntake

structure Partition where
  topic : String
  number : Int
  deriving DecidableEq, Repr, Inhabited, Hashable

/-- By topic, then by number.  Topics are ordered by their characters, which is the order of their
UTF-8 octets. -/
instance : Ord Partition where
  compare a b :=
    match compare a.topic b.topic with
    | .eq => compare a.number b.number
    | o => o

def Partition.name (p : Partition) : String := s!"{p.topic}-{p.number}"

/-- The object that is written for a partition. -/
def Partition.value (p : Partition) : Json.Value :=
  .object [("topic", .string p.topic), ("partition_number", .integer p.number)]

abbrev Offsets := SortedMap Partition Int

/-- Leases are numbered in the order in which a pool hands them out. -/
abbrev LeaseId := Nat

/-- Connections are numbered in the order in which a pool opens them. -/
abbrev ConnectionId := Nat

def leaseName (id : LeaseId) : String := s!"lease-{id}"

def connectionName (id : ConnectionId) : String := s!"connection-{id}"

end RecordIntake
