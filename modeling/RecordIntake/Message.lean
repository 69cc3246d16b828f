import RecordIntake.Partition

/-!
Messages as they come out of the log.
-/
namespace RecordIntake

structure Header where
  name : String
  value : Option (List UInt8)
  deriving DecidableEq, Repr

structure Message where
  partition : Partition
  offset : Int
  key : Option (List UInt8)
  payload : Option (List UInt8)
  /-- Milliseconds since the epoch. -/
  timestamp : Option Int
  headers : List Header
  deriving DecidableEq, Repr

end RecordIntake
