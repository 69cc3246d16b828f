import RecordIntake.Batch.Emission
import RecordIntake.Cluster
import RecordIntake.Connection
import RecordIntake.Metrics

/-!
What pools and leases work in: the clock, the cluster, the sinks, the interrupts that are pending,
and the journal of all that happened.  Calls through a connection are made here.  A fault that is
queued for a kind of call is its answer, and then the cluster is not asked.
-/
namespace RecordIntake

inductive Call where
  | poll
  | commit
  | rewind
  | partitionCount
  deriving DecidableEq, Repr

/-- What happened, in the order in which it ended. -/
inductive Event where
  | connected (c : ConnectionId) (s : Subscription) (result : Except IntakeError Unit)
  | polled (c : ConnectionId) (result : Except IntakeError Nat)
  | committed (c : ConnectionId) (offsets : Offsets) (result : Except IntakeError Unit)
  | rewound (c : ConnectionId) (positions : Offsets) (result : Except IntakeError Unit)
  | counted (c : ConnectionId) (topic : String) (result : Except IntakeError Nat)
  | closed (c : ConnectionId)
  | emitted (sink : String) (e : Emission)
  | refused (sink : String)
  /-- Something was to be done with a pool, and there was none. -/
  | poolMissing

/-- A destination of units that keeps what it accepts, latest first. -/
structure Sink where
  fails : Bool
  accepted : List Emission

def Sink.empty : Sink := ⟨false, []⟩

structure Environment where
  /-- Milliseconds since the start. -/
  now : Nat
  cluster : Cluster
  sinks : SortedMap String Sink
  /-- The signals that are raised and not yet taken, in the order in which they were raised. -/
  raised : List Signal
  faults : List (Call × IntakeError)
  metrics : Metrics
  /-- Latest first. -/
  journal : List Event

/-- Something that may have to wait, for an interrupt or until a deadline. -/
inductive Progress (α : Type) where
  | ended (a : α)
  | waiting (deadline : Option Nat)

namespace Environment

def start (maxPollRecords : Nat) : Environment := ⟨0, .empty maxPollRecords, [], [], [], .empty, []⟩

def note (env : Environment) (e : Event) : Environment := { env with journal := e :: env.journal }

def count (env : Environment) (c : Counter) : Environment :=
  { env with metrics := env.metrics.increment c }

/-! ## Interrupts -/

def isRaised (env : Environment) (s : Signal) : Bool := env.raised.contains s

/-- Raises a signal; one that is raised stays so. -/
def raise (env : Environment) (s : Signal) : Environment :=
  if env.isRaised s then env else { env with raised := env.raised ++ [s] }

/-- Takes a signal back, whether it is raised or not. -/
def lower (env : Environment) (s : Signal) : Environment :=
  { env with raised := env.raised.filter (· ≠ s) }

/-! ## Faults -/

def takeFrom (call : Call) :
    List (Call × IntakeError) → Option (IntakeError × List (Call × IntakeError))
  | [] => none
  | (c, e) :: rest =>
    if c = call then some (e, rest)
    else (takeFrom call rest).map fun (e', rest') => (e', (c, e) :: rest')

/-- The first fault queued for a kind of call. -/
def takeFault (env : Environment) (call : Call) : Option (IntakeError × Environment) :=
  (takeFrom call env.faults).map fun (e, rest) => (e, { env with faults := rest })

/-! ## Calls through a connection -/

/-- Opens a connection. -/
def connect (env : Environment) (signal : Signal) (s : Subscription) :
    Environment × Except IntakeError Connection :=
  match env.cluster.connect with
  | (cluster, result) =>
    ({ env with cluster := cluster }.note (.connected signal.connection s result),
      result.map fun () => ⟨signal.connection, signal, s, []⟩)

/-- Closes a connection, which nobody holds afterwards. -/
def disconnect (env : Environment) (c : Connection) (why : ConnectionEvent) : Environment :=
  ({ env with cluster := env.cluster.disconnect }.note (.closed c.id)).count (.connectionEvents why)

def disconnectAll (env : Environment) (cs : List Connection) (why : ConnectionEvent) :
    Environment :=
  cs.foldl (fun env c => env.disconnect c why) env

/-- Starts a poll.  A pending interrupt ends it at once; an interrupt midway ends it too, and moves
the positions back over what had been read. -/
def startPoll (env : Environment) (c : Connection) (timeout : Nat) :
    Environment × Connection × Progress (Except IntakeError (List Message)) :=
  match env.takeFault .poll with
  | some (e, env) => (env, c, .ended (.error e))
  | none =>
    if env.isRaised c.signal then (env.lower c.signal, c, .ended (.error .interrupted))
    else if env.cluster.blocksPolls then (env, c, .waiting none)
    else
      let (midway, cluster) := env.cluster.takeMidwayInterrupt
      let (messages, positions) := cluster.fetch c.subscription c.positions
      let env := { env with cluster := cluster }
      if midway then
        let back := positions.union (Message.firstOffsets messages)
        (env, { c with positions := back }, .ended (.error .interrupted))
      else
        let c := { c with positions := positions }
        if messages.isEmpty && timeout ≠ 0 then (env, c, .waiting (some (env.now + timeout)))
        else (env, c, .ended (.ok messages))

/-- Goes on with a poll that waits.  Messages that arrived meanwhile do not end it. -/
def resumePoll (env : Environment) (c : Connection) (deadline : Option Nat) :
    Environment × Progress (Except IntakeError (List Message)) :=
  if env.isRaised c.signal then (env.lower c.signal, .ended (.error .interrupted))
  else
    match deadline with
    | none => (env, .waiting none)
    | some t => if t ≤ env.now then (env, .ended (.ok [])) else (env, .waiting (some t))

def commit (env : Environment) (c : Connection) (offsets : Offsets) :
    Environment × Except IntakeError Unit :=
  match env.takeFault .commit with
  | some (e, env) => (env.note (.committed c.id offsets (.error e)), .error e)
  | none =>
    match env.cluster.commit offsets with
    | (cluster, result) =>
      ({ env with cluster := cluster }.note (.committed c.id offsets result), result)

/-- Moves positions back. -/
def rewind (env : Environment) (c : Connection) (positions : Offsets) :
    Environment × Connection × Except IntakeError Unit :=
  match env.takeFault .rewind with
  | some (e, env) => (env.note (.rewound c.id positions (.error e)), c, .error e)
  | none =>
    (env.note (.rewound c.id positions (.ok ())),
      { c with positions := c.positions.union positions }, .ok ())

def partitionCount (env : Environment) (c : Connection) (topic : String) :
    Environment × Except IntakeError Nat :=
  match env.takeFault .partitionCount with
  | some (e, env) => (env.note (.counted c.id topic (.error e)), .error e)
  | none =>
    let result := env.cluster.partitionCount topic
    (env.note (.counted c.id topic result), result)

/-! ## Sinks -/

def sink (env : Environment) (name : String) : Sink := (env.sinks.find? name).getD .empty

/-- Makes sure that a sink is there. -/
def withSink (env : Environment) (name : String) : Environment :=
  { env with sinks := env.sinks.insert name (env.sink name) }

def setSinkFailing (env : Environment) (name : String) (fails : Bool) : Environment :=
  { env with sinks := env.sinks.insert name { env.sink name with fails := fails } }

/-- What is counted about an accepted unit. -/
def countEmitted (e : Emission) (metrics : Metrics) : Metrics :=
  match e with
  | .batch b => (metrics.increment .batchesEmitted).observe .batchRecords b.records.length
  | .parseFailure _ => metrics

/-- Hands a unit to a sink; tells whether it was accepted. -/
def emit (env : Environment) (name : String) (e : Emission) : Environment × Bool :=
  let s := env.sink name
  if s.fails then (env.note (.refused name), false)
  else
    ({ env with
        sinks := env.sinks.insert name { s with accepted := e :: s.accepted }
        metrics := countEmitted e env.metrics }.note (.emitted name e), true)

end Environment
end RecordIntake
