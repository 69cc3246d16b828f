import RecordIntake.Scenario.Schedule

/-!
Scripts over a trigger: cycles one after the other and side by side, and a whole service.
-/
namespace RecordIntake.Scenario

structure Script where
  schedule : Schedule
  /-- The cycles that were started in the background, by name. -/
  cycles : SortedMap String Nat

inductive ScriptStep where
  | instant (i : Instant)
  | advance (ms : Nat) (asides : List Aside)
  | cycle (asides : List Aside)
  /-- Starts a cycle in the background and lets it run until it waits. -/
  | spawnCycle (name : String)
  | join (name : String) (asides : List Aside)
  | concurrent (n : Nat) (asides : List Aside)
  | interrupt (grace : Nat) (asides : List Aside)
  | awaitUnscheduled (limit : Nat) (asides : List Aside)

namespace Script

def start (env : Environment) (t : Trigger) : Script := ⟨.start (env.withSink t.sink) t, []⟩

/-- Runs the work of a step; times of asides count from its beginning. -/
def run (s : Script) (schedule : Schedule) (w : Work) (asides : List Aside) : Script × Answer :=
  let due := Aside.inOrder (asides.map fun a => { a with time := schedule.env.now + a.time })
  let (schedule, answer) := Schedule.run Schedule.patience schedule w due
  ({ s with schedule := schedule }, answer)

def step (s : Script) : ScriptStep → Script × Answer
  | .instant i =>
    let (schedule, answer) := s.schedule.instant i
    ({ s with schedule := schedule }, answer)
  | .advance ms asides => s.run s.schedule (.sleep (s.schedule.env.now + ms)) asides
  | .cycle asides =>
    let (schedule, id) := s.schedule.spawn .cycle
    s.run { schedule with own := some id } (.cycle id) asides
  | .spawnCycle name =>
    let (schedule, id) := s.schedule.spawn .cycle
    { s with cycles := s.cycles.insert name id }.run schedule (.yield false) []
  | .join name asides =>
    match s.cycles.find? name with
    | none => (s, .nothing)
    | some id => s.run s.schedule (.join id) asides
  | .concurrent n asides =>
    let (schedule, ids) := s.schedule.spawnAll .cycle n
    s.run schedule (.joinAll ids) asides
  | .interrupt grace asides =>
    match s.schedule.trigger.slot with
    | none => (s, .nothing)
    | some pool =>
      let now := s.schedule.env.now
      s.run s.schedule (.grace pool (now + grace) now) asides
  | .awaitUnscheduled limit asides =>
    s.run s.schedule (.unscheduling (s.schedule.env.now + limit)) asides

/-- Runs a service for a time, and then shuts it down. -/
def serve (s : Script) (workers backoff grace runTime : Nat) (asides : List Aside) :
    Script × Answer :=
  let now := s.schedule.env.now
  let (schedule, ids) := s.schedule.spawnAll (.worker backoff now) workers
  s.run schedule (.serve (now + runTime) ids grace) asides

/-- Lets go of the trigger.  Unless a cycle still uses it, this closes its pool. -/
def dropTrigger (s : Script) : Script :=
  match s.schedule.trigger.slot with
  | none => s
  | some id =>
    if s.schedule.tasks.all fun (_, task, _) => task.isFinished then
      let (env, t) := s.schedule.trigger.closePool s.schedule.env id
      { s with schedule := { s.schedule with env := env, trigger := t } }
    else s

end Script
end RecordIntake.Scenario
