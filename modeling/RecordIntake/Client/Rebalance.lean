import RecordIntake.Metrics
import RecordIntake.Partition

/-!
What a connection learns when the group moves partitions.  Offsets of messages that were polled
before a revocation must not be committed after it, so revocations are counted.  Empty moves are
frequent and mean nothing.
-/
namespace RecordIntake

inductive RebalanceNotice where
  /-- A move that is about to happen; one that failed is neither. -/
  | before (r : Option Rebalance) (partitions : List Partition)
  | after (r : Option Rebalance) (partitions : List Partition)
  | commitEnded
  deriving DecidableEq, Repr

structure RebalanceWatch where
  revocations : Nat
  metrics : Metrics

namespace RebalanceWatch

def start : RebalanceWatch := ⟨0, .empty⟩

def receive (w : RebalanceWatch) : RebalanceNotice → RebalanceWatch
  | .before (some .revoke) (_ :: _) =>
    ⟨w.revocations + 1, w.metrics.increment (.rebalances .revoke)⟩
  | .after (some .assign) (_ :: _) =>
    { w with metrics := w.metrics.increment (.rebalances .assign) }
  | _ => w

end RebalanceWatch
end RecordIntake
