import RecordIntake.Partition
import RecordIntake.Pattern

/-!
What a connection subscribes to.
-/
namespace RecordIntake

inductive Subscription where
  | topics (names : SortedSet String)
  | pattern (p : Pattern)
  | partitions (owned : SortedMap String (SortedSet Int))
  deriving Repr

namespace Subscription

/-- The topics that the subscription names. -/
def topicNames : Subscription → List String
  | .topics names => names
  | .pattern _ => []
  | .partitions owned => SortedMap.keys owned

/-- The partitions that the subscription owns one by one. -/
def ownedPartitions : Subscription → List Partition
  | .partitions owned => owned.flatMap fun (topic, numbers) => numbers.map (Partition.mk topic ·)
  | _ => []

/-- Owns just the given partitions. -/
def ofPartitions (ps : List Partition) : Subscription :=
  .partitions (ps.foldl
    (fun owned p =>
      SortedMap.upsert p.topic (fun ns => SortedSet.insert p.number (ns.getD [])) owned)
    [])

/-- Patterns match from the start of the name. -/
def selects (s : Subscription) (p : Partition) : Bool :=
  match s with
  | .topics names => SortedSet.contains p.topic names
  | .pattern r => r.matchesStart p.topic
  | .partitions owned =>
    match SortedMap.find? p.topic owned with
    | some numbers => SortedSet.contains p.number numbers
    | none => false

def isExplicit : Subscription → Bool
  | .partitions _ => true
  | _ => false

end Subscription
end RecordIntake
