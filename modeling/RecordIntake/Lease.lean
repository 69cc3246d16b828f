import RecordIntake.Environment
import RecordIntake.Settings

/-!
The exclusive loan of a connection for one cycle.  What a lease polls it hands to a sink in batches,
and it commits offsets only when everything below them was accepted.  After a fault it does neither
any more: all that is left is to give it back.
-/
namespace RecordIntake

inductive LeaseState where
  | idle
  | polling
  | readyToCommit
  | faulted
  deriving DecidableEq, Repr

/-- What is needed to wake a lease from outside.  It stays usable when the lease is long gone. -/
structure LeaseHandle where
  id : LeaseId
  signal : Signal
  deriving DecidableEq, Repr

structure Lease where
  id : LeaseId
  connection : Connection
  accumulator : Accumulator
  /-- What was polled since the last commit. -/
  ledger : Ledger
  sink : String
  settings : LeaseSettings
  state : LeaseState
  /-- When to stop polling. -/
  deadline : Nat
  /-- The number of messages since the last commit. -/
  received : Nat
  /-- Whether a fault made the connection unusable. -/
  discards : Bool

/-- Raises the signal of a lease's connection. -/
def LeaseHandle.wake (h : LeaseHandle) (env : Environment) : Environment :=
  (env.count .wakeups).raise h.signal

namespace Lease

def issue (id : LeaseId) (c : Connection) (reader : RecordReader) (settings : IntakeSettings)
    (sink : String) (now : Nat) : Lease where
  id := id
  connection := c
  accumulator := .start reader settings.batch
  ledger := .empty
  sink := sink
  settings := settings.lease
  state := .idle
  deadline := now + settings.lease.maxUncommittedTime
  received := 0
  discards := false

def handle (l : Lease) : LeaseHandle := ⟨l.id, l.connection.signal⟩

/-- Whether another poll is worthwhile before committing.  Once time or room is used up this stays
so until the next commit. -/
def continuePolling (l : Lease) (env : Environment) : Lease × Bool :=
  match l.state with
  | .faulted | .readyToCommit => (l, false)
  | .idle | .polling =>
    if env.isRaised l.connection.signal then (l, false)
    else if env.now < l.deadline && l.received < l.settings.maxRecords then (l, true)
    else ({ l with state := .readyToCommit }, false)

def fault (l : Lease) (e : IntakeError) : Lease :=
  { l with state := .faulted, discards := l.discards || e.isFatal }

/-- The error of a call on a lease that has faulted before. -/
def unusable (l : Lease) : IntakeError := .transport (leaseName l.id ++ " can no longer be used")

def sinkFailure : IntakeError := .sink "simulated sink failure"

/-- Hands a unit to the sink. -/
def emitOne (l : Lease) (env : Environment) (e : Emission) :
    Environment × Lease × Except IntakeError Unit :=
  match env.emit l.sink e with
  | (env, true) => (env, l, .ok ())
  | (env, false) => (env, l.fault sinkFailure, .error sinkFailure)

/-- Hands units to the sink one after the other, until it refuses one. -/
def emitAll (l : Lease) (env : Environment) :
    List Emission → Environment × Lease × Except IntakeError Unit
  | [] => (env, l, .ok ())
  | e :: es =>
    match l.emitOne env e with
    | (env, l, .ok ()) => l.emitAll env es
    | (env, l, .error fault) => (env, l, .error fault)

/-- Takes in the messages of one poll. -/
def absorbAll (l : Lease) (env : Environment) :
    List Message → Environment × Lease × List Emission
  | [] => (env, l, [])
  | m :: ms =>
    let (accumulator, emitted) := l.accumulator.absorb m env.now
    let metrics := Accumulator.countAbsorbed l.accumulator.settings m emitted env.metrics
    let l := { l with accumulator := accumulator, ledger := l.ledger.record m.partition m.offset }
    let (env, l, later) := l.absorbAll { env with metrics := metrics } ms
    (env, l, emitted ++ later)

/-- Absorbs the messages of a poll.  What is to be handed on is all that is full or has waited too
long. -/
def receive (l : Lease) (env : Environment) (messages : List Message) :
    Environment × Lease × List Emission :=
  let (env, l, full) := l.absorbAll env messages
  let (accumulator, expired) := l.accumulator.takeExpired env.now
  (env, { l with accumulator := accumulator, received := l.received + messages.length },
    full ++ expired)

/-- The end of a poll: what it brought is absorbed, or its fault is kept. -/
def takeIn (l : Lease) (env : Environment) (result : Except IntakeError (List Message)) :
    Environment × Lease × Except IntakeError (Nat × List Emission) :=
  let env := env.note (.polled l.connection.id (result.map (·.length)))
  match result with
  | .error e => (env, l.fault e, .error e)
  | .ok messages =>
    let (env, l, units) := l.receive env messages
    (env, l, .ok (messages.length, units))

/-- The end of a poll, and the handing on of what is due then. -/
def endPoll (l : Lease) (env : Environment) (result : Except IntakeError (List Message)) :
    Environment × Lease × Except IntakeError Nat :=
  match l.takeIn env result with
  | (env, l, .error e) => (env, l, .error e)
  | (env, l, .ok (count, units)) =>
    match l.emitAll env units with
    | (env, l, .ok ()) => (env, l, .ok count)
    | (env, l, .error e) => (env, l, .error e)

/-- What a poll comes to, given what the call on the connection came to. -/
def proceed (l : Lease) (env : Environment) (p : Progress (Except IntakeError (List Message))) :
    Environment × Lease × Progress (Except IntakeError Nat) :=
  match p with
  | .waiting deadline => (env, l, .waiting deadline)
  | .ended result =>
    let (env, l, outcome) := l.endPoll env result
    (env, l, .ended outcome)

/-- Starts a poll; the number of messages is its outcome. -/
def startPoll (l : Lease) (env : Environment) :
    Environment × Lease × Progress (Except IntakeError Nat) :=
  if l.state = .faulted then (env, l, .ended (.error l.unusable))
  else
    let (env, c, p) := env.startPoll l.connection l.settings.pollTimeout
    proceed { l with state := .polling, connection := c } env p

/-- Goes on with a poll that waits. -/
def resumePoll (l : Lease) (env : Environment) (deadline : Option Nat) :
    Environment × Lease × Progress (Except IntakeError Nat) :=
  let (env, p) := env.resumePoll l.connection deadline
  l.proceed env p

/-- After a commit everything starts over. -/
def startNextCycle (l : Lease) (now : Nat) : Lease :=
  { l with
    ledger := .empty
    state := .idle
    received := 0
    deadline := now + l.settings.maxUncommittedTime }

/-- Commits what the ledger says. -/
def commitLedger (l : Lease) (env : Environment) : Environment × Lease × Except IntakeError Bool :=
  match env.commit l.connection l.ledger.committable with
  | (env, .ok ()) =>
    (env.count (.leaseCommits .success), l.startNextCycle env.now, .ok true)
  | (env, .error .interrupted) =>
    (env.count (.leaseCommits .interrupted), l.fault .interrupted, .error .interrupted)
  | (env, .error e) => (env.count (.leaseCommits .failed), l.fault e, .ok false)

/-- Takes everything that is pending out of the accumulator. -/
def flush (l : Lease) : Lease × List Emission :=
  let (accumulator, remaining) := l.accumulator.flushAll
  ({ l with accumulator := accumulator }, remaining)

/-- The rest of a commit, when everything was handed on.  An interrupt that came after the last poll
still prevents it. -/
def finishCommit (l : Lease) (env : Environment) : Environment × Lease × Except IntakeError Bool :=
  if env.isRaised l.connection.signal then (env, l.fault .interrupted, .error .interrupted)
  else if l.ledger.isEmpty then (env, l.startNextCycle env.now, .ok true)
  else l.commitLedger env

/-- Hands on everything that is pending, then commits the offsets of all that was polled.  A refused
commit is no error: nothing is committed, and the messages will be delivered again. -/
def commit (l : Lease) (env : Environment) : Environment × Lease × Except IntakeError Bool :=
  if l.state = .faulted then (env, l, .error l.unusable)
  else
    let (l, remaining) := l.flush
    match l.emitAll env remaining with
    | (env, l, .error e) => (env, l, .error e)
    | (env, l, .ok ()) => l.finishCommit env

/-- Gives up all that is not committed.  The connection is moved back to where the lease began, or
is discarded if that fails. -/
def abandon (l : Lease) (env : Environment) : Environment × Connection × Bool :=
  if l.ledger.isEmpty then (env, l.connection, l.discards)
  else
    let env := { env with metrics := env.metrics.add .messagesDiscarded l.ledger.count }
    if l.discards then (env, l.connection, true)
    else
      match env.rewind l.connection l.ledger.rewindPositions with
      | (env, c, .ok ()) => (env, c, false)
      | (env, c, .error _) => (env, c, true)

end Lease
end RecordIntake
