import RecordIntake.Trigger.Cycle

/-!
Tasks that run cycles.  A worker runs one cycle after the other until the trigger is unscheduled,
and rests after a cycle that could do nothing.
-/
namespace RecordIntake

/-- What a task is doing. -/
inductive Activity where
  | cycling (s : Stage)
  | resting (wakeTime : Nat)
  | finished (o : Option CycleOutcome) (time : Nat)

structure Task where
  /-- How long a worker rests.  A task that is no worker ends after one cycle. -/
  backoff : Option Nat
  activity : Activity

namespace Task

def cycle : Task := ⟨none, .cycling .beginning⟩

/-- The next cycle of a worker, if there is to be one. -/
def proceed (scheduled : Bool) (now : Nat) : Activity :=
  if scheduled then .cycling .beginning else .finished none now

/-- A worker looks whether it is to run at all when its first turn comes. -/
def worker (backoff now : Nat) : Task := ⟨some backoff, .resting now⟩

/-- What a task does after a cycle. -/
def afterCycle (task : Task) (scheduled : Bool) (now : Nat) (o : CycleOutcome) : Activity :=
  match task.backoff, o with
  | none, o => .finished (some o) now
  | some _, .workPerformed => proceed scheduled now
  | some rest, .backoff =>
    if scheduled && rest ≠ 0 then .resting (now + rest) else proceed scheduled now

/-- One step of a task. -/
def step (task : Task) (t : Trigger) (env : Environment) : Environment × Trigger × Task :=
  match task.activity with
  | .cycling s =>
    match t.step env s with
    | (env, t, .ended o) =>
      (env, t, { task with activity := task.afterCycle t.scheduled env.now o })
    | (env, t, s) => (env, t, { task with activity := .cycling s })
  | .resting wakeTime =>
    if t.scheduled && env.now < wakeTime then (env, t, task)
    else (env, t, { task with activity := proceed t.scheduled env.now })
  | .finished _ _ => (env, t, task)

def isFinished (task : Task) : Bool :=
  match task.activity with
  | .finished _ _ => true
  | _ => false

/-- Whether the task waits for the cluster's answer about partition counts. -/
def isAsking (task : Task) : Bool :=
  match task.activity with
  | .cycling (.asking _ _ _) => true
  | _ => false

/-- Whether the task can go on now, without an answer and without time passing. -/
def isReady (task : Task) (scheduled : Bool) (env : Environment) : Bool :=
  match task.activity with
  | .cycling (.polling _ l deadline) =>
    env.isRaised l.connection.signal || deadline.any (· ≤ env.now)
  | .cycling (.asking _ _ _) => false
  | .cycling _ => true
  | .resting wakeTime => !scheduled || wakeTime ≤ env.now
  | .finished _ _ => false

/-- When the task goes on by itself. -/
def deadline? (task : Task) : Option Nat :=
  match task.activity with
  | .cycling (.polling _ _ deadline) => deadline
  | .resting wakeTime => some wakeTime
  | _ => none

/-- The signal whose raising lets the task go on. -/
def signal? (task : Task) : Option Signal :=
  match task.activity with
  | .cycling (.polling _ l _) => some l.connection.signal
  | _ => none

end Task
end RecordIntake
