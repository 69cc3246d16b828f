import RecordIntake.Message

/-!
The offsets a lease has consumed and not yet committed.  For each partition the ledger knows the
first of them, where reading resumes if the cycle is abandoned, and the one after the last, which
is what a commit states.
-/
namespace RecordIntake

structure OffsetRange where
  first : Int
  next : Int
  deriving DecidableEq, Repr

structure Ledger where
  ranges : SortedMap Partition OffsetRange
  count : Nat
  deriving DecidableEq, Repr

namespace Ledger

def greatestOffset : Int := 9223372036854775807

def empty : Ledger := ⟨[], 0⟩

def isEmpty (l : Ledger) : Bool := l.ranges.isEmpty

/-- The range after one more offset; `none` if the offset after it is no offset any more. -/
def extend (range : Option OffsetRange) (offset : Int) : Option OffsetRange :=
  match range with
  | some r =>
    if offset < r.next then some { r with first := min r.first offset }
    else if offset < greatestOffset then some { r with next := offset + 1 }
    else none
  | none => if offset < greatestOffset then some ⟨offset, offset + 1⟩ else none

/-- Notes a consumed message; `none` on overflow. -/
def record? (l : Ledger) (p : Partition) (offset : Int) : Option Ledger :=
  (extend (l.ranges.find? p) offset).map fun r => ⟨l.ranges.insert p r, l.count + 1⟩

/-- Notes a consumed message whose offset comes from a log, and so is no greatest offset. -/
def record (l : Ledger) (p : Partition) (offset : Int) : Ledger := (l.record? p offset).getD l

/-- The next offset to consume of each partition. -/
def committable (l : Ledger) : Offsets := l.ranges.mapValues (·.next)

/-- The first uncommitted offset of each partition. -/
def rewindPositions (l : Ledger) : Offsets := l.ranges.mapValues (·.first)

end Ledger

/-- Moves the offset of a partition down to a lesser one. -/
def lowerOffset (offsets : Offsets) (e : Partition × Int) : Offsets :=
  offsets.upsert e.1 fun first =>
    match first with
    | some m => min m e.2
    | none => e.2

/-- The least offset of each partition among messages, from which they would all be read again. -/
def firstOffsets (offsets : List (Partition × Int)) : Offsets :=
  offsets.foldl lowerOffset []

def Message.firstOffsets (messages : List Message) : Offsets :=
  RecordIntake.firstOffsets (messages.map fun m => (m.partition, m.offset))

end RecordIntake
