import RecordIntake.Batch.Accumulator

/-!
The limits that a pool, its leases and their batches work under.  Times are in milliseconds.
-/
namespace RecordIntake

structure PoolSettings where
  /-- The greatest number of leases that are out at once, and of connections. -/
  maxLeases : Nat := 4
  /-- A connection that is not lent for longer than this is closed. -/
  idleTimeout : Nat := 300000
  deriving DecidableEq, Repr

structure LeaseSettings where
  /-- Polling stops this long after the last commit. -/
  maxUncommittedTime : Nat := 1000
  /-- Polling stops when this many messages wait to be committed. -/
  maxRecords : Nat := 10000
  pollTimeout : Nat := 100
  deriving DecidableEq, Repr

structure IntakeSettings where
  pool : PoolSettings := {}
  lease : LeaseSettings := {}
  batch : BatchSettings := {}
  deriving Repr

end RecordIntake
