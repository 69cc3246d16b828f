import RecordIntake.Client.Properties
import RecordIntake.Client.PropertyTable
import RecordIntake.Error
import RecordIntake.Offsets.Ledger
import RecordIntake.Subscription

/-!
Connections to a cluster that cannot be reached.  Opening one asks nobody, so it fails only on what
the client itself refuses.  The first thing that a poll brings is the client's complaint.  A call
that needs the cluster's answer is blocked until its time is over, which may be longer than anybody
waits.
-/
namespace RecordIntake.Client

structure OfflineConnection where
  id : ConnectionId
  /-- Whether an interrupt is pending. -/
  interrupted : Bool
  closed : Bool
  /-- How long a question to the cluster is waited for, in milliseconds. -/
  timeout : Nat
  /-- How long a commit is waited for. -/
  sessionTimeout : Nat
  deriving DecidableEq, Repr

/-- What a call comes to. -/
inductive Reply (α : Type) where
  | ended (result : Except IntakeError α)
  | blocked (milliseconds : Nat)

namespace OfflineConnection

def defaultSessionTimeout : Nat := 45000

/-- Whether the client subscribes to it without asking. -/
def isSubscribable : Subscription → Bool
  | .topics names => !names.isEmpty && !names.contains ""
  | .pattern _ => true
  | .partitions _ => true

def isAcceptable (ps : ClientProperties) (s : Subscription) : Bool :=
  ps.all (fun (name, value) => accepts name value) && ps.find? "group.id" != some "" &&
    isSubscribable s

/-- Opens a connection; the client's own refusal is its error. -/
def connect (id : ConnectionId) (ps : ClientProperties) (s : Subscription) (timeout : Nat) :
    Except IntakeError OfflineConnection :=
  if isAcceptable ps s then
    let session := (ps.find? "session.timeout.ms").bind fun text => leadingNumber text.toList
    .ok ⟨id, false, false, timeout, (session.map Int.toNat).getD defaultSessionTimeout⟩
  else .error (.client .other)

def unreachable : IntakeError := .client (.consumption .other)

def lower (c : OfflineConnection) : OfflineConnection := { c with interrupted := false }

/-- A pending interrupt is found before the cluster is missed. -/
def poll (c : OfflineConnection) : OfflineConnection × Except IntakeError Unit :=
  if c.closed then (c, .error (.transport "connection is closed"))
  else if c.interrupted then (c.lower, .error .interrupted)
  else (c, .error unreachable)

/-- There is nothing to ask for no offsets. -/
def commit (c : OfflineConnection) (offsets : Offsets) : OfflineConnection × Reply Unit :=
  if c.interrupted then (c.lower, .ended (.error .interrupted))
  else if offsets.isEmpty then (c, .ended (.ok ()))
  else (c, .blocked c.sessionTimeout)

def rewind (_ : OfflineConnection) (positions : Offsets) : Except IntakeError Unit :=
  if positions.isEmpty then .ok () else .error (.client .other)

def partitionCount (c : OfflineConnection) : Reply Nat := .blocked c.timeout

def interrupt (c : OfflineConnection) : OfflineConnection := { c with interrupted := true }

def close (c : OfflineConnection) : OfflineConnection := { c with closed := true }

end OfflineConnection
end RecordIntake.Client
