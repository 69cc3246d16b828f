import RecordIntake.Connection
import RecordIntake.Settings

/-!
The bookkeeping of a pool: which connections are idle, which leases are out, and which owned
partitions have no connection.  Each function here is one uninterrupted change of it.  What has to
be opened or closed on the way is returned, and is opened and closed afterwards.

Under explicit ownership a connection is bound to one partition and a partition to at most one
connection, and the partition that has waited longest is lent first.
-/
namespace RecordIntake

structure IdleConnection where
  connection : Connection
  partition : Option Partition
  since : Nat
  deriving Repr

/-- What is known of a lease that is out. -/
structure Loan where
  signal : Signal
  partition : Option Partition
  deriving DecidableEq, Repr

/-- An owned partition with no connection bound to it. -/
structure Unclaimed where
  partition : Partition
  since : Nat
  deriving DecidableEq, Repr

structure Pool where
  id : PoolId
  subscription : Subscription
  reader : RecordReader
  settings : IntakeSettings
  /-- In the order in which they came back. -/
  idle : List IdleConnection
  outstanding : SortedMap LeaseId Loan
  /-- In the order in which they will be served. -/
  unclaimed : List Unclaimed
  closed : Bool
  /-- The greatest number given to a lease so far. -/
  lastLease : Nat
  /-- The greatest number given to a connection so far. -/
  lastConnection : Nat

/-- A connection to lend: one that is there, or one that has to be opened. -/
inductive Supply where
  | idle (i : IdleConnection)
  | fresh (signal : Signal) (partition : Option Partition)
  deriving Repr

/-- A lease that may be issued, on the given connection. -/
structure Offer where
  lease : LeaseId
  supply : Supply
  /-- An idle connection that has to make room. -/
  displaced : Option Connection
  deriving Repr

namespace Pool

def build (id : PoolId) (s : Subscription) (reader : RecordReader) (settings : IntakeSettings)
    (now : Nat) : Pool where
  id := id
  subscription := s
  reader := reader
  settings := settings
  idle := []
  outstanding := []
  unclaimed := s.ownedPartitions.map (Unclaimed.mk · now)
  closed := false
  lastLease := 0
  lastConnection := 0

def maxLeases (p : Pool) : Nat := p.settings.pool.maxLeases

/-- Whether each connection is bound to one partition. -/
def lendsPartitions (p : Pool) : Bool := p.subscription.isExplicit

/-- What a connection for a partition subscribes to.  Under explicit ownership one without a
partition subscribes to nothing. -/
def connectionSubscription (p : Pool) (partition : Option Partition) : Subscription :=
  if p.lendsPartitions then .ofPartitions partition.toList else p.subscription

/-- The partition of a connection that is given up becomes unclaimed. -/
def unbind (p : Pool) (partition : Option Partition) (since : Nat) : Pool :=
  match partition with
  | some q => { p with unclaimed := p.unclaimed ++ [⟨q, since⟩] }
  | none => p

/-- Takes out the idle connections whose time is over. -/
def takeExpired (p : Pool) (now : Nat) : Pool × List Connection :=
  let (expired, others) :=
    p.idle.partition fun i => p.settings.pool.idleTimeout ≤ now - i.since
  (expired.foldl (fun p i => p.unbind i.partition i.since) { p with idle := others },
    expired.map (·.connection))

def openConnections (p : Pool) : Nat := p.idle.length + p.outstanding.length

/-- The first of the connections that were idle the longest, and the others. -/
def pickOldest : List IdleConnection → Option (IdleConnection × List IdleConnection)
  | [] => none
  | i :: rest =>
    match pickOldest rest with
    | none => some (i, [])
    | some (j, others) => if j.since < i.since then some (j, i :: others) else some (i, rest)

/-- The connection that came back last, so that rarely used ones age. -/
def pickNewest (is : List IdleConnection) : Option (IdleConnection × List IdleConnection) :=
  match is.reverse with
  | [] => none
  | i :: rest => some (i, rest.reverse)

/-- The signal of the next connection to open. -/
def nextSignal (p : Pool) : Pool × Signal :=
  ({ p with lastConnection := p.lastConnection + 1 }, ⟨p.id, p.lastConnection + 1⟩)

/-- Whether the first unclaimed partition has waited at least as long as any idle connection. -/
def servesUnclaimed (p : Pool) : Bool :=
  match p.unclaimed, pickOldest p.idle with
  | [], _ => false
  | _ :: _, none => true
  | u :: _, some (i, _) => u.since ≤ i.since

/-- Closes the oldest idle connection if there are as many as there may be. -/
def makeRoom (p : Pool) : Pool × Option Connection :=
  if p.openConnections < p.maxLeases then (p, none)
  else
    match pickOldest p.idle with
    | none => (p, none)
    | some (i, others) => ({ p with idle := others }.unbind i.partition i.since, some i.connection)

/-- Picks the owned partition that has waited longest, whether it has an idle connection or none. -/
def supplyPartition (p : Pool) : Pool × Option (Supply × Option Connection) :=
  if p.servesUnclaimed then
    match p.unclaimed with
    | [] => (p, none)
    | u :: rest =>
      let (p, displaced) := { p with unclaimed := rest }.makeRoom
      let (p, signal) := p.nextSignal
      (p, some (.fresh signal (some u.partition), displaced))
  else
    match pickOldest p.idle with
    | none => (p, none)
    | some (i, others) => ({ p with idle := others }, some (.idle i, none))

def supplyAny (p : Pool) : Pool × Supply :=
  match pickNewest p.idle with
  | some (i, others) => ({ p with idle := others }, .idle i)
  | none =>
    let (p, signal) := p.nextSignal
    (p, .fresh signal none)

def Supply.loan : Supply → Loan
  | .idle i => ⟨i.connection.signal, i.partition⟩
  | .fresh signal partition => ⟨signal, partition⟩

/-- Decides on a lease, and enters it as outstanding.  There is none if as many are out as there may
be, or if every owned partition is lent. -/
def offer (p : Pool) : Pool × Option Offer :=
  if p.maxLeases ≤ p.outstanding.length then (p, none)
  else
    let (p, found) :=
      if p.lendsPartitions then p.supplyPartition
      else
        let (p, supply) := p.supplyAny
        (p, some (supply, none))
    match found with
    | none => (p, none)
    | some (supply, displaced) =>
      let id := p.lastLease + 1
      ({ p with lastLease := id, outstanding := p.outstanding.insert id (Supply.loan supply) },
        some ⟨id, supply, displaced⟩)

/-- What becomes of a connection that comes back. -/
inductive Return where
  | kept (c : Connection)
  | rejected (c : Connection)
  | missing
  deriving Repr

/-- Takes a lease back.  Its connection is kept unless it has to be discarded or the pool is closed;
otherwise its partition becomes unclaimed, as it does if no connection was opened for it. -/
def takeBack (p : Pool) (lease : LeaseId) (c : Option Connection) (discard : Bool) (now : Nat) :
    Pool × Return :=
  let partition := (p.outstanding.find? lease).bind (·.partition)
  let p := { p with outstanding := p.outstanding.erase lease }
  match c with
  | none => (p.unbind partition now, .missing)
  | some c =>
    if discard || p.closed then (p.unbind partition now, .rejected c)
    else ({ p with idle := p.idle ++ [⟨c, partition, now⟩] }, .kept c)

/-- A connection that is used to ask for a partition count, and what it is bound to. -/
structure Query where
  connection : Connection
  partition : Option Partition
  since : Nat
  deriving Repr

/-- Puts a connection back after a query, at the age it had, or gives it up. -/
def endQuery (p : Pool) (q : Query) (faulty : Bool) : Pool × Option Connection :=
  let unbound := p.lendsPartitions && q.partition.isNone
  if faulty || unbound || p.closed || p.maxLeases ≤ p.openConnections then
    (p.unbind q.partition q.since, some q.connection)
  else ({ p with idle := p.idle ++ [⟨q.connection, q.partition, q.since⟩] }, none)

/-- Refuses further leases; the idle connections have to be closed. -/
def shut (p : Pool) : Pool × List Connection :=
  if p.closed then (p, [])
  else ({ p with closed := true, idle := [] }, p.idle.map (·.connection))

def description (p : Pool) : String :=
  s!"ConsumerPool \x7b max_leases: {p.maxLeases}, idle: {p.idle.length}, " ++
    s!"outstanding: {p.outstanding.length}, unclaimed: {p.unclaimed.length}, " ++
    s!"closed: {p.closed} \x7d"

end Pool
end RecordIntake
