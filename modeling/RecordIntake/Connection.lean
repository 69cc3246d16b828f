import RecordIntake.Subscription

/-!
A session with the cluster.  It is held by one pool or one lease at a time, and nobody else reads or
moves its positions.  What others may do is raise its interrupt signal.
-/
namespace RecordIntake

/-- Pools are numbered in the order in which they are built. -/
abbrev PoolId := Nat

/-- The interrupt signal of one connection.  It outlives the leases that borrow the connection, so
whoever has kept it from an earlier lease can still raise it. -/
structure Signal where
  pool : PoolId
  connection : ConnectionId
  deriving DecidableEq, Repr

structure Connection where
  id : ConnectionId
  signal : Signal
  subscription : Subscription
  /-- The next offset to read of each partition that was read. -/
  positions : Offsets
  deriving Repr

end RecordIntake
