import RecordIntake.Trigger.Cycle

/-!
Scripted actions that take no time, on the cluster, on the sinks and on a pool, and what they
answer.
-/
namespace RecordIntake.Scenario

/-- What a step of a script answers. -/
inductive Answer where
  | nothing
  | flag (b : Bool)
  | number (n : Int)
  | numbers (ns : List Int)
  | text (s : String)
  | texts (ss : List String)
  | counts (m : SortedMap String Nat)
  | description (maxLeases : Nat) (s : Subscription)
  | failed (e : IntakeError)
  | outcomes (os : List CycleOutcome)
  | outcome (o : CycleOutcome)
  | joined (o : Option CycleOutcome) (time : Nat)
  | served

def noPool : Answer := .text "no pool"

def Answer.ofResult {α : Type} (onValue : α → Answer) : Except IntakeError α → Answer
  | .ok a => onValue a
  | .error e => .failed e

/-- An action on what surrounds the pool. -/
inductive ClusterAction where
  | produce (m : Message)
  | produceMany (ms : List Message)
  | setPartitionCount (topic : String) (n : Nat)
  | failCommits (n : Nat)
  | failConnects (n : Nat)
  | interruptMidway (skip : Nat)
  | blockPolls (on : Bool)
  /-- Makes counting partitions slow.  It takes no time on the clock. -/
  | delayCounts
  | failSink (sink : String) (on : Bool)
  | fault (call : Call) (e : IntakeError)

namespace ClusterAction

def apply (env : Environment) : ClusterAction → Environment × Answer
  | .produce m =>
    let (cluster, offset) := env.cluster.produce m
    ({ env with cluster := cluster }, .number offset)
  | .produceMany ms =>
    let (cluster, offsets) := env.cluster.produceAll ms
    ({ env with cluster := cluster }, .numbers offsets)
  | .setPartitionCount topic n =>
    let counts := env.cluster.partitionCounts.insert topic n
    ({ env with cluster := { env.cluster with partitionCounts := counts } }, .nothing)
  | .failCommits n => ({ env with cluster := { env.cluster with failingCommits := n } }, .nothing)
  | .failConnects n => ({ env with cluster := { env.cluster with failingConnects := n } }, .nothing)
  | .interruptMidway skip =>
    ({ env with cluster := { env.cluster with midwayInterrupt := some skip } }, .nothing)
  | .blockPolls on => ({ env with cluster := { env.cluster with blocksPolls := on } }, .nothing)
  | .delayCounts => (env, .nothing)
  | .failSink sink on => (env.setSinkFailing sink on, .nothing)
  | .fault call e => ({ env with faults := env.faults ++ [(call, e)] }, .nothing)

end ClusterAction

inductive PoolAction where
  | wakeAll
  | active
  | close
  | evictIdle
  | debug
  | describe
  | partitionCount (topic : String)
  | partitionCounts (topics : List String)

namespace PoolAction

def leaseNames (p : Pool) : Answer := .texts (p.activeLeases.map fun h => leaseName h.id)

def apply (env : Environment) (p : Pool) : PoolAction → Environment × Pool × Answer
  | .wakeAll => (Trigger.wakeLeases p env, p, leaseNames p)
  | .active => (env, p, leaseNames p)
  | .close =>
    let (env, p) := p.close env
    (env, p, .nothing)
  | .evictIdle =>
    let (env, p, n) := p.evictIdle env
    (env, p, .number n)
  | .debug => (env, p, .text p.description)
  | .describe => (env, p, .description p.maxLeases p.subscription)
  | .partitionCount topic =>
    let (env, p, r) := p.partitionCount env topic
    (env, p, .ofResult (fun n => .number n) r)
  | .partitionCounts topics =>
    let (env, p, r) := p.partitionCounts env topics
    (env, p, .ofResult .counts r)

end PoolAction

/-- An action that takes no time. -/
inductive Instant where
  | onCluster (a : ClusterAction)
  | onPool (a : PoolAction)
  /-- Wakes the lease that was last obtained under a name, through the handle kept from then. -/
  | wake (name : String)
  | unschedule
  | closeTrigger

/-- An action that happens at a time while a step waits. -/
structure Aside where
  time : Nat
  action : Instant

/-- Asides in the order of their times. -/
def Aside.inOrder (asides : List Aside) : List Aside :=
  asides.mergeSort fun a b => a.time ≤ b.time

end RecordIntake.Scenario
