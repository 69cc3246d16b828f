import RecordIntake.Client.Offline
import RecordIntake.Metrics

/-!
Scripts over named connections to a cluster that cannot be reached.  A script that is blocked for
longer than anybody waits for it has no answers at all.
-/
namespace RecordIntake.Scenario

open RecordIntake.Client

inductive OfflineCall where
  | poll
  | commit (offsets : Offsets)
  | rewind (positions : Offsets)
  | partitionCount
  | interrupt
  | close
  | drop

inductive OfflineStep where
  | connect (name : String) (id : ConnectionId) (ps : ClientProperties) (s : Subscription)
    (timeout : Nat)
  | call (name : String) (c : OfflineCall)
  /-- Waits until the cluster has a message. -/
  | produce
  /-- Prepares the cluster for something that it will not be asked. -/
  | prepare

inductive OfflineAnswer where
  | opened (id : ConnectionId)
  | done
  | woken
  | nothing
  | failed (e : IntakeError)
  | missing

structure OfflineScript where
  connections : SortedMap String OfflineConnection
  metrics : Metrics
  /-- For how long the script has been blocked, in milliseconds. -/
  blocked : Nat

namespace OfflineScript

/-- For how long a script is waited for. -/
def patience : Nat := 10000

def start : OfflineScript := ⟨[], .empty, 0⟩

def keep (s : OfflineScript) (name : String) (c : OfflineConnection) : OfflineScript :=
  { s with connections := s.connections.insert name c }

def answerOf : Except IntakeError Unit → OfflineAnswer
  | .ok () => .done
  | .error e => .failed e

/-- Waits for an answer that does not come. -/
def await (s : OfflineScript) (milliseconds : Nat) : Option (OfflineScript × OfflineAnswer) :=
  let blocked := s.blocked + milliseconds
  if patience ≤ blocked then none
  else some ({ s with blocked := blocked }, .failed (.client .other))

def countPoll (m : Metrics) : Except IntakeError Unit → Metrics
  | .error (.client _) => m.increment (.clientErrors "consumer" "warn")
  | _ => m

def call (s : OfflineScript) (name : String) (c : OfflineConnection) :
    OfflineCall → Option (OfflineScript × OfflineAnswer)
  | .poll =>
    let (c, r) := c.poll
    some ({ s with metrics := countPoll s.metrics r }.keep name c, answerOf r)
  | .commit offsets =>
    match c.commit offsets with
    | (c, .ended r) => some (s.keep name c, answerOf r)
    | (c, .blocked t) => (s.keep name c).await t
  | .rewind positions => some (s, answerOf (c.rewind positions))
  | .partitionCount =>
    match c.partitionCount with
    | .ended r => some (s, answerOf (r.map fun _ => ()))
    | .blocked t => s.await t
  | .interrupt => some (s.keep name c.interrupt, .woken)
  | .close => some (s.keep name c.close, .nothing)
  | .drop => some ({ s with connections := s.connections.erase name }, .nothing)

def step (s : OfflineScript) : OfflineStep → Option (OfflineScript × OfflineAnswer)
  | .connect name id ps sub timeout =>
    match OfflineConnection.connect id ps sub timeout with
    | .ok c => some (s.keep name c, .opened id)
    | .error e => some (s, .failed e)
  | .call name c =>
    match s.connections.find? name with
    | some connection => s.call name connection c
    | none => some (s, .missing)
  | .produce => none
  | .prepare => some (s, .nothing)

/-- The answers of a script, and what was counted meanwhile. -/
def answers (s : OfflineScript) : List OfflineStep → Option (List OfflineAnswer × Metrics)
  | [] => some ([], s.metrics)
  | step :: steps =>
    match s.step step with
    | none => none
    | some (s, answer) =>
      match s.answers steps with
      | none => none
      | some (rest, metrics) => some (answer :: rest, metrics)

end OfflineScript
end RecordIntake.Scenario
