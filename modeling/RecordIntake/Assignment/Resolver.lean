import RecordIntake.Assignment.Declaration
import RecordIntake.Assignment.TopicSelection

/-!
The subscription of this host.  A static assignment is checked against the partition counts that
the cluster reports before it is used.
-/
namespace RecordIntake

structure Resolver where
  subscription : Subscription
  /-- The number of assigned partitions, if they are assigned statically. -/
  assigned : Option Nat
  deriving Repr

namespace Resolver

def ofSelection (topics : TopicSelection) (assignment : Option StaticAssignment) (host : String) :
    Except IntakeError Resolver :=
  match assignment, topics with
  | none, .names names => .ok ⟨.topics names, none⟩
  | none, .pattern p => .ok ⟨.pattern p, none⟩
  | some _, .pattern _ =>
    .error (.configuration "explicit partitions incompatible with pattern subscription")
  | some a, .names names =>
    match a.ownedBy? host with
    | none =>
      .error (.configuration
        ("explicit partition assignment does not name this host (" ++ host ++ ")"))
    | some owned => .ok ⟨.partitions (names.map fun topic => (topic, owned)), some a.total⟩

def requiresCounts (r : Resolver) : Bool := r.assigned.isSome

def topicsToVerify (r : Resolver) : List String :=
  if r.requiresCounts then r.subscription.topicNames else []

/-- The distinct counts of the topics, or a topic without one. -/
def gatherCounts (counts : SortedMap String Nat) :
    List String → SortedSet Nat → Except IntakeError (SortedSet Nat)
  | [], seen => .ok seen
  | topic :: topics, seen =>
    match SortedMap.find? topic counts with
    | none =>
      .error (.configuration
        ("partition count mismatch: no partition count reported for topic " ++ topic))
    | some n => gatherCounts counts topics (SortedSet.insert n seen)

def showCounts (counts : List Nat) : String :=
  "\x7b" ++ String.intercalate ", " (counts.map toString) ++ "\x7d"

/-- The subscription, if the reported counts agree with the assignment. -/
def resolve (r : Resolver) (counts : SortedMap String Nat) : Except IntakeError Subscription :=
  match r.assigned with
  | none => .ok r.subscription
  | some assigned =>
    match gatherCounts counts r.subscription.topicNames [] with
    | .error e => .error e
    | .ok [] => .error (.configuration "partition count mismatch: no topics to verify")
    | .ok [count] =>
      if count = assigned then .ok r.subscription
      else
        .error (.configuration
          (s!"partition count mismatch: {assigned} partitions are statically assigned " ++
            s!"but the topics have {count} partitions"))
    | .ok several =>
      .error (.configuration
        ("partition count mismatch: topics have differing partition counts " ++
          showCounts several))

end Resolver
end RecordIntake
