import RecordIntake.SortedMap

/-!
The properties that a connection's client is configured with.  Offsets are committed by leases only,
so every configuration starts with automatic commits switched off.
-/
namespace RecordIntake

/-- A property that is set again has its last value. -/
abbrev ClientProperties := SortedMap String String

namespace ClientProperties

def base (brokers group : String) : ClientProperties :=
  .ofList [
    ("bootstrap.servers", brokers),
    ("group.id", group),
    ("enable.auto.commit", "false"),
    ("enable.auto.offset.store", "false"),
    ("enable.partition.eof", "false"),
    ("socket.timeout.ms", "60000")]

/-- Switches encryption on; nothing switches it off again. -/
def withTls (enabled : Bool) (ps : ClientProperties) : ClientProperties :=
  if enabled then
    (ps.insert "security.protocol" "ssl").insert "enable.ssl.certificate.verification" "false"
  else ps

/-- Where a group without a stored offset starts; the client's word for `none` is `error`. -/
def withOffsetReset (policy : String) (ps : ClientProperties) : ClientProperties :=
  ps.insert "auto.offset.reset" (if policy = "none" then "error" else policy)

/-- Whether messages of aborted transactions are left out. -/
def withTransactionsHonored (honored : Bool) (ps : ClientProperties) : ClientProperties :=
  ps.insert "isolation.level" (if honored then "read_committed" else "read_uncommitted")

/-- The client counts its timeout in whole milliseconds. -/
def withTimeout (microseconds : Nat) (ps : ClientProperties) : ClientProperties :=
  ps.insert "socket.timeout.ms" (toString (microseconds / 1000))

def withClientName (name : String) (ps : ClientProperties) : ClientProperties :=
  ps.insert "client.id" name

/-- Sets properties one after the other. -/
def withAll (entries : List (String × String)) (ps : ClientProperties) : ClientProperties :=
  entries.foldl (fun acc (k, v) => acc.insert k v) ps

end ClientProperties
end RecordIntake
