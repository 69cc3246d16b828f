import RecordIntake.Assignment.Resolver
import RecordIntake.Pool.Lending

/-!
Cycles over a shared pool: obtain a lease, poll while there is time and room, commit, give the lease
back.  The pool is built by the first cycle that needs it.  If partitions are assigned, the
assignment is first checked against the counts that the cluster reports.

A cycle is a sequence of steps, and `Trigger.step` takes one.  Any number of cycles may take their
steps in any order; nothing but the slot of the pool keeps them apart.
-/
namespace RecordIntake

structure Trigger where
  resolver : Resolver
  reader : RecordReader
  settings : IntakeSettings
  sink : String
  /-- Until it is unscheduled; then no cycle starts, polls or commits any more. -/
  scheduled : Bool
  /-- The pool that cycles use. -/
  slot : Option PoolId
  /-- All pools that were built. -/
  pools : SortedMap PoolId Pool
  nextPool : PoolId

/-- How far a cycle has come. -/
inductive Stage where
  | beginning
  /-- A pool was built, and the counts of these topics are still missing. -/
  | asking (pool : PoolId) (topics : List String) (counts : SortedMap String Nat)
  | installing (pool : PoolId)
  | obtaining (pool : PoolId)
  | opening (pool : PoolId) (o : Offer)
  | holding (pool : PoolId) (l : Lease)
  /-- In a poll that waits. -/
  | polling (pool : PoolId) (l : Lease) (deadline : Option Nat)
  | ended (o : CycleOutcome)

namespace Trigger

def start (resolver : Resolver) (settings : IntakeSettings) (sink : String) : Trigger :=
  ⟨resolver, Record.read, settings, sink, true, none, [], 0⟩

/-- The pool, when one has been built. -/
def currentPool? (t : Trigger) : Option Pool := t.slot.bind fun id => t.pools.find? id

def withPool (t : Trigger) (p : Pool) : Trigger := { t with pools := t.pools.insert p.id p }

def buildPool (t : Trigger) (now : Nat) : Trigger × PoolId :=
  ({ t with nextPool := t.nextPool + 1 }.withPool
      (.build t.nextPool t.resolver.subscription t.reader t.settings now), t.nextPool)

def closePool (t : Trigger) (env : Environment) (id : PoolId) : Environment × Trigger :=
  match t.pools.find? id with
  | none => (env, t)
  | some p =>
    let (env, p) := p.close env
    (env, t.withPool p)

/-- Stops cycles from starting and from polling further.  One in progress gives its lease back
without committing. -/
def unschedule (t : Trigger) : Trigger := { t with scheduled := false }

/-- Unschedules, and closes the pool.  Leases that are out close their connections when they come
back. -/
def close (t : Trigger) (env : Environment) : Environment × Trigger :=
  let t := t.unschedule
  match t.slot with
  | none => (env, t)
  | some id => { t with slot := none }.closePool env id

/-- Wakes every lease that is out, in the order of their numbers. -/
def wakeLeases (p : Pool) (env : Environment) : Environment :=
  p.activeLeases.foldl (fun env h => h.wake env) env

def finish (t : Trigger) (env : Environment) (o : CycleOutcome) : Environment × Trigger × Stage :=
  (env.count (.cycles o), t, .ended o)

/-- Ends a cycle for which a pool was built that is not used. -/
def dismiss (t : Trigger) (env : Environment) (id : PoolId) : Environment × Trigger × Stage :=
  let (env, t) := t.closePool env id
  t.finish env .backoff

/-- Gives the lease of a cycle back and ends the cycle. -/
def surrender (t : Trigger) (env : Environment) (id : PoolId) (l : Lease) (o : CycleOutcome) :
    Environment × Trigger × Stage :=
  match t.pools.find? id with
  | none => t.finish env o
  | some p =>
    let (env, p) := p.release env l
    (t.withPool p).finish env o

def begin (t : Trigger) (env : Environment) : Environment × Trigger × Stage :=
  if !t.scheduled then t.finish env .backoff
  else
    match t.slot with
    | some id => (env, t, .obtaining id)
    | none =>
      let (t, id) := t.buildPool env.now
      if t.resolver.requiresCounts then (env, t, .asking id t.resolver.topicsToVerify [])
      else (env, t, .installing id)

/-- Asks for the count of one more topic, or checks all the counts. -/
def ask (t : Trigger) (env : Environment) (id : PoolId) (counts : SortedMap String Nat) :
    List String → Environment × Trigger × Stage
  | [] =>
    match t.resolver.resolve counts with
    | .ok _ => (env, t, .installing id)
    | .error _ => t.dismiss env id
  | topic :: topics =>
    match t.pools.find? id with
    | none => t.dismiss env id
    | some p =>
      match p.partitionCount env topic with
      | (env, p, .ok n) => (env, t.withPool p, .asking id topics (counts.insert topic n))
      | (env, p, .error _) => (t.withPool p).dismiss env id

/-- Puts a built pool into the slot, unless another cycle came first or the trigger was unscheduled
meanwhile. -/
def install (t : Trigger) (env : Environment) (id : PoolId) : Environment × Trigger × Stage :=
  if !t.scheduled then t.dismiss env id
  else
    match t.slot with
    | some existing =>
      let (env, t) := t.closePool env id
      (env, t, .obtaining existing)
    | none => (env, { t with slot := some id }, .obtaining id)

def obtain (t : Trigger) (env : Environment) (id : PoolId) : Environment × Trigger × Stage :=
  match t.pools.find? id with
  | none => t.finish env .backoff
  | some p =>
    match p.startObtain env with
    | (env, p, none) => (t.withPool p).finish env .backoff
    | (env, p, some o) => (env, t.withPool p, .opening id o)

def openLease (t : Trigger) (env : Environment) (id : PoolId) (o : Offer) :
    Environment × Trigger × Stage :=
  match t.pools.find? id with
  | none => t.finish env .backoff
  | some p =>
    match p.finishObtain env o t.sink with
    | (env, p, .ok l) => (env, t.withPool p, .holding id l)
    | (env, p, .error _) => (t.withPool p).finish env .backoff

/-- What comes after a poll. -/
def afterPoll (t : Trigger) (id : PoolId) :
    Environment × Lease × Progress (Except IntakeError Nat) → Environment × Trigger × Stage
  | (env, l, .waiting deadline) => (env, t, .polling id l deadline)
  | (env, l, .ended (.ok _)) => (env, t, .holding id l)
  | (env, l, .ended (.error _)) => t.surrender env id l .backoff

/-- Polls once more if that is worthwhile, and commits if not. -/
def pollOrCommit (t : Trigger) (env : Environment) (id : PoolId) (l : Lease) :
    Environment × Trigger × Stage :=
  if !t.scheduled then t.surrender env id l .backoff
  else
    match l.continuePolling env with
    | (l, true) => t.afterPoll id (l.startPoll env)
    | (l, false) =>
      match l.commit env with
      | (env, l, .ok true) => t.surrender env id l .workPerformed
      | (env, l, .ok false) => t.surrender env id l .backoff
      | (env, l, .error _) => t.surrender env id l .backoff

/-- One step of a cycle. -/
def step (t : Trigger) (env : Environment) : Stage → Environment × Trigger × Stage
  | .beginning => t.begin env
  | .asking id topics counts => t.ask env id counts topics
  | .installing id => t.install env id
  | .obtaining id => t.obtain env id
  | .opening id o => t.openLease env id o
  | .holding id l => t.pollOrCommit env id l
  | .polling id l deadline => t.afterPoll id (l.resumePoll env deadline)
  | .ended o => (env, t, .ended o)

end Trigger
end RecordIntake
