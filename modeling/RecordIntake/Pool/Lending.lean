import RecordIntake.Lease
import RecordIntake.Pool.State

/-!
Lending connections, taking them back, and asking the cluster through them.  A connection is opened
or closed only after the pool's bookkeeping has changed.
-/
namespace RecordIntake.Pool

/-- Handles of all leases that are out. -/
def activeLeases (p : Pool) : List LeaseHandle :=
  p.outstanding.map fun (id, loan) => ⟨id, loan.signal⟩

def gaugeOutstanding (p : Pool) (env : Environment) : Environment :=
  { env with metrics := env.metrics.set .outstandingLeases p.outstanding.length }

/-- Gives a lease back.  A wakeup that came too late for it must not abort the next borrower, so the
signal of a connection that is kept is lowered. -/
def checkIn (p : Pool) (env : Environment) (lease : LeaseId) (c : Option Connection)
    (discard : Bool) : Environment × Pool :=
  let (p, returned) := p.takeBack lease c discard env.now
  let env := p.gaugeOutstanding env
  match returned with
  | .kept c => (env.lower c.signal, p)
  | .rejected c => (env.disconnect c (if discard then .discarded else .closed), p)
  | .missing => (env, p)

/-- Opens a connection for a partition, or for all that the pool subscribes to. -/
def openConnection (p : Pool) (env : Environment) (signal : Signal) (partition : Option Partition) :
    Environment × Except IntakeError Connection :=
  match env.connect signal (p.connectionSubscription partition) with
  | (env, .ok c) => (env.count (.connectionEvents .created), .ok c)
  | (env, .error e) => (env, .error e)

/-- The connection of an offered lease. -/
def Supply.connection (p : Pool) (env : Environment) :
    Supply → Environment × Except IntakeError Connection
  | .idle i => (env, .ok i.connection)
  | .fresh signal partition => p.openConnection env signal partition

/-- Decides on a lease and closes what has to make room for it.  From here on the lease can be
woken, though its connection may still have to be opened.  There is no lease if the pool is closed
or has nothing to lend. -/
def startObtain (p : Pool) (env : Environment) : Environment × Pool × Option Offer :=
  if p.closed then (env, p, none)
  else
    let (p, expired) := p.takeExpired env.now
    match p.offer with
    | (p, none) => ((env.disconnectAll expired .evicted).count .leaseMisses, p, none)
    | (p, some o) =>
      let env := (p.gaugeOutstanding env).disconnectAll expired .evicted
      (env.disconnectAll o.displaced.toList .displaced, p, some o)

/-- Issues the lease that was decided on.  If its connection cannot be opened the lease is taken
back at once. -/
def finishObtain (p : Pool) (env : Environment) (o : Offer) (sink : String) :
    Environment × Pool × Except IntakeError Lease :=
  match Supply.connection p env o.supply with
  | (env, .ok c) => (env, p, .ok (Lease.issue o.lease c p.reader p.settings sink env.now))
  | (env, .error e) =>
    let (env, p) := p.checkIn env o.lease none true
    (env, p, .error e)

/-- Lends a connection; callers that get none try again later. -/
def obtain (p : Pool) (env : Environment) (sink : String) :
    Environment × Pool × Except IntakeError (Option Lease) :=
  match p.startObtain env with
  | (env, p, none) => (env, p, .ok none)
  | (env, p, some o) =>
    match p.finishObtain env o sink with
    | (env, p, .ok l) => (env, p, .ok (some l))
    | (env, p, .error e) => (env, p, .error e)

/-- Gives up all that a lease has not committed, and gives it back. -/
def release (p : Pool) (env : Environment) (l : Lease) : Environment × Pool :=
  let (env, c, discard) := l.abandon env
  p.checkIn env l.id (some c) discard

/-- Takes out a connection to ask through: the idle one that came back last, or a new one. -/
def supplyQuery (p : Pool) : Pool × Option Supply :=
  if p.closed then (p, none)
  else
    let (p, supply) := p.supplyAny
    (p, some supply)

/-- The connection that was taken out to ask through. -/
def Supply.query (p : Pool) (env : Environment) : Supply → Environment × Except IntakeError Query
  | .idle i => (env, .ok ⟨i.connection, i.partition, i.since⟩)
  | .fresh signal partition =>
    match p.openConnection env signal partition with
    | (env, .ok c) => (env, .ok ⟨c, partition, env.now⟩)
    | (env, .error e) => (env, .error e)

def startQuery (p : Pool) (env : Environment) : Environment × Pool × Except IntakeError Query :=
  match p.supplyQuery with
  | (p, none) => (env, p, .error .poolClosed)
  | (p, some supply) =>
    match Supply.query p env supply with
    | (env, result) => (env, p, result)

/-- Whether an answer means that the connection has to be given up. -/
def isFatal : Except IntakeError Nat → Bool
  | .error e => e.isFatal
  | .ok _ => false

/-- Puts the connection back if there is room for it. -/
def returnQuery (p : Pool) (env : Environment) (q : Query) (faulty : Bool) : Environment × Pool :=
  match p.endQuery q faulty with
  | (p, some c) => (env.disconnect c .closed, p)
  | (p, none) => (env, p)

def finishQuery (p : Pool) (env : Environment) (q : Query) (topic : String) :
    Environment × Pool × Except IntakeError Nat :=
  let (env, result) := env.partitionCount q.connection topic
  let (env, p) := p.returnQuery env q (isFatal result)
  (env, p, result)

/-- The number of partitions that a topic has now. -/
def partitionCount (p : Pool) (env : Environment) (topic : String) :
    Environment × Pool × Except IntakeError Nat :=
  match p.startQuery env with
  | (env, p, .error e) => (env, p, .error e)
  | (env, p, .ok q) => p.finishQuery env q topic

/-- The counts of several topics, or the first error. -/
def partitionCounts (p : Pool) (env : Environment) :
    List String → Environment × Pool × Except IntakeError (SortedMap String Nat)
  | [] => (env, p, .ok [])
  | topic :: topics =>
    match p.partitionCount env topic with
    | (env, p, .error e) => (env, p, .error e)
    | (env, p, .ok n) =>
      match p.partitionCounts env topics with
      | (env, p, .error e) => (env, p, .error e)
      | (env, p, .ok counts) => (env, p, .ok (SortedMap.insert topic n counts))

/-- Closes the idle connections whose time is over; tells how many. -/
def evictIdle (p : Pool) (env : Environment) : Environment × Pool × Nat :=
  let (p, expired) := p.takeExpired env.now
  (env.disconnectAll expired .evicted, p, expired.length)

/-- Closes the pool.  Leases that are out are not interrupted; their connections are closed when
they come back. -/
def close (p : Pool) (env : Environment) : Environment × Pool :=
  let (p, idle) := p.shut
  (env.disconnectAll idle .closed, p)

end RecordIntake.Pool
