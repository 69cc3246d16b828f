import RecordIntake.Scenario.Action
import RecordIntake.Trigger.Worker

/-!
Running cycles and workers side by side in virtual time.  Tasks take turns: one runs until it has to
wait, and those that can go on run in the order in which they became able to.  When nothing can go
on, the cluster answers what it was asked; when nothing was asked, the clock jumps to the next time
that somebody waits for.  The work of the script's own step comes before the tasks, and as soon as
it is done the step is over.
-/
namespace RecordIntake.Scenario

structure Schedule where
  env : Environment
  trigger : Trigger
  /-- The tasks, with a number that tells in which order they began to wait. -/
  tasks : SortedMap Nat (Task × Nat)
  /-- The tasks that can go on, in the order of their turns. -/
  turns : List Nat
  /-- The task that the step runs itself. -/
  own : Option Nat
  nextTask : Nat
  nextMoment : Nat

/-- What the step of a script waits for. -/
inductive Work where
  | sleep (wakeTime : Nat)
  /-- For the others to have had their turns. -/
  | yield (done : Bool)
  | cycle (id : Nat)
  | join (id : Nat)
  | joinAll (ids : List Nat)
  | unscheduling (wakeTime : Nat)
  /-- For leases to end by themselves, before they are woken. -/
  | grace (pool : PoolId) (deadline nextCheck : Nat)
  | serve (wakeTime : Nat) (workers : List Nat) (grace : Nat)
  | drain (pool : PoolId) (deadline nextCheck : Nat) (workers : List Nat) (grace : Nat)
  | settle (workers : List Nat) (deadline : Nat)

namespace Schedule

def start (env : Environment) (t : Trigger) : Schedule := ⟨env, t, [], [], none, 0, 0⟩

def task? (s : Schedule) (id : Nat) : Option Task := (s.tasks.find? id).map (·.1)

def setTime (s : Schedule) (time : Nat) : Schedule := { s with env := { s.env with now := time } }

/-- The number of steps that a task takes at most without waiting, and a script's step at most with
waiting. -/
def patience : Nat := 1000000

/-- Runs a task until it waits or ends. -/
def runTask : Nat → Environment → Trigger → Task → Environment × Trigger × Task
  | 0, env, t, task => (env, t, task)
  | n + 1, env, t, task =>
    match task.step t env with
    | (env, t, task) =>
      if task.isReady t.scheduled env then runTask n env t task else (env, t, task)

def isReady (s : Schedule) (task : Task) : Bool := task.isReady s.trigger.scheduled s.env

/-- Where a signal stands among those that were raised. -/
def raisedAt (s : Schedule) (task : Task) : Nat :=
  match task.signal? with
  | some signal => (s.env.raised.idxOf? signal).getD s.env.raised.length
  | none => s.env.raised.length

/-- Gives turns to all tasks that became able to go on: first those that were woken, in the order in
which they were, then in the order in which they began to wait. -/
def giveTurns (s : Schedule) : Schedule :=
  let able := s.tasks.filter fun (id, task, _) =>
    s.isReady task && some id ≠ s.own && !s.turns.contains id
  let ordered := able.mergeSort fun (_, task, moment) (_, task', moment') =>
    let k := s.raisedAt task
    let k' := s.raisedAt task'
    k < k' || (k = k' && moment ≤ moment')
  { s with turns := s.turns ++ ordered.map (·.1) }

/-- Lets a task go on. -/
def advanceTask (s : Schedule) (id : Nat) : Schedule :=
  match s.task? id with
  | none => s
  | some task =>
    let (env, t, task) := runTask patience s.env s.trigger task
    { s with
      env := env
      trigger := t
      tasks := s.tasks.insert id (task, s.nextMoment)
      nextMoment := s.nextMoment + 1 }

/-- Lets the tasks have their turns until none can go on. -/
def takeTurns : Nat → Schedule → Schedule
  | 0, s => s
  | n + 1, s =>
    match s.turns with
    | [] => s
    | id :: rest => takeTurns n ({ s with turns := rest }.advanceTask id).giveTurns

/-- Starts a task; its turn comes when the others have had theirs. -/
def spawn (s : Schedule) (task : Task) : Schedule × Nat :=
  ({ s with
      tasks := s.tasks.insert s.nextTask (task, s.nextMoment)
      nextTask := s.nextTask + 1
      nextMoment := s.nextMoment + 1 }, s.nextTask)

def spawnAll (s : Schedule) (task : Task) : Nat → Schedule × List Nat
  | 0 => (s, [])
  | n + 1 =>
    let (s, id) := s.spawn task
    let (s, ids) := s.spawnAll task n
    (s, id :: ids)

def instant (s : Schedule) : Instant → Schedule × Answer
  | .onCluster a =>
    let (env, answer) := a.apply s.env
    ({ s with env := env }, answer)
  | .onPool a =>
    match s.trigger.currentPool? with
    | none => (s, noPool)
    | some p =>
      let (env, p, answer) := a.apply s.env p
      ({ s with env := env, trigger := s.trigger.withPool p }, answer)
  | .wake _ => (s, .nothing)
  | .unschedule => ({ s with trigger := s.trigger.unschedule }, .nothing)
  | .closeTrigger =>
    let (env, t) := s.trigger.close s.env
    ({ s with env := env, trigger := t }, .nothing)

/-- An aside that finds no pool leaves a note of it. -/
def aside (s : Schedule) (i : Instant) : Schedule :=
  match i, s.trigger.currentPool? with
  | .onPool _, none => { s with env := s.env.note .poolMissing }
  | i, _ => (s.instant i).1

/-- Does what is due by now. -/
def takeAsides (s : Schedule) : List Aside → Schedule × List Aside
  | [] => (s, [])
  | a :: asides =>
    if a.time ≤ s.env.now then takeAsides (s.aside a.action) asides else (s, a :: asides)

def isOver (s : Schedule) (id : Nat) : Bool := (s.task? id).all Task.isFinished

def outcomeOf (s : Schedule) (id : Nat) : Option CycleOutcome × Nat :=
  match s.task? id with
  | some ⟨_, .finished o time⟩ => (o, time)
  | _ => (none, s.env.now)

/-- How long the leases of a pool are waited for between two looks. -/
def checkInterval : Nat := 100

/-- Looks whether leases are still out and may still end by themselves; wakes them if they may
not. -/
def lookForLeases (s : Schedule) (pool : PoolId) (deadline : Nat) : Schedule × Option Nat :=
  match s.trigger.pools.find? pool with
  | none => (s, none)
  | some p =>
    if !p.outstanding.isEmpty && s.env.now < deadline then (s, some (s.env.now + checkInterval))
    else ({ s with env := Trigger.wakeLeases p s.env }, none)

/-- The end of a service, when its workers have been waited for. -/
def endService (s : Schedule) : Schedule × Sum Work Answer :=
  let (env, t) := s.trigger.close s.env
  ({ s with env := env, trigger := t }, .inr .served)

/-- Waits once more for workers, whose leases have been woken. -/
def settle (s : Schedule) (workers : List Nat) (deadline : Nat) : Schedule × Sum Work Answer :=
  if workers.all s.isOver || deadline ≤ s.env.now then s.endService
  else (s, .inl (.settle workers deadline))

def drain (s : Schedule) (pool : PoolId) (deadline : Nat) (workers : List Nat) (grace : Nat) :
    Schedule × Sum Work Answer :=
  match s.lookForLeases pool deadline with
  | (s, some next) => (s, .inl (.drain pool deadline next workers grace))
  | (s, none) => s.settle workers (s.env.now + grace)

/-- Goes on with the work of a step: what is left of it, or its answer. -/
def advance (s : Schedule) : Work → Schedule × Sum Work Answer
  | .sleep wakeTime =>
    (s, if wakeTime ≤ s.env.now then .inr .nothing else .inl (.sleep wakeTime))
  | .yield done => (s, if done then .inr .nothing else .inl (.yield true))
  | .cycle id =>
    let s :=
      match s.task? id with
      | some task => if s.isReady task then s.advanceTask id else s
      | none => s
    match s.outcomeOf id with
    | (some o, _) => ({ s with own := none }, .inr (.outcome o))
    | (none, _) => (s, .inl (.cycle id))
  | .join id =>
    if s.isOver id then
      let (o, time) := s.outcomeOf id
      (s, .inr (.joined o time))
    else (s, .inl (.join id))
  | .joinAll ids =>
    if ids.all s.isOver then (s, .inr (.outcomes (ids.filterMap fun id => (s.outcomeOf id).1)))
    else (s, .inl (.joinAll ids))
  | .unscheduling wakeTime =>
    if !s.trigger.scheduled then (s, .inr (.flag true))
    else (s, if wakeTime ≤ s.env.now then .inr (.flag false) else .inl (.unscheduling wakeTime))
  | .grace pool deadline next =>
    if s.env.now < next then (s, .inl (.grace pool deadline next))
    else
      match s.lookForLeases pool deadline with
      | (s, some next) => (s, .inl (.grace pool deadline next))
      | (s, none) => (s, .inr .nothing)
  | .serve wakeTime workers grace =>
    if s.env.now < wakeTime then (s, .inl (.serve wakeTime workers grace))
    else
      let s := { s with trigger := s.trigger.unschedule }
      match s.trigger.slot with
      | some pool => s.drain pool (s.env.now + grace) workers grace
      | none => s.settle workers (s.env.now + grace)
  | .drain pool deadline next workers grace =>
    if s.env.now < next then (s, .inl (.drain pool deadline next workers grace))
    else s.drain pool deadline workers grace
  | .settle workers deadline => s.settle workers deadline

/-- When the work of a step goes on by itself. -/
def Work.deadline? : Work → Option Nat
  | .sleep wakeTime => some wakeTime
  | .unscheduling wakeTime => some wakeTime
  | .grace _ _ next => some next
  | .serve wakeTime _ _ => some wakeTime
  | .drain _ _ next _ _ => some next
  | .settle _ deadline => some deadline
  | _ => none

/-- Whether the work of a step can go on now. -/
def canAdvance (s : Schedule) : Work → Bool
  | .yield _ => true
  | .cycle id => (s.task? id).any fun task => s.isReady task || task.isFinished
  | .join id => s.isOver id
  | .joinAll ids => ids.all s.isOver
  | .unscheduling wakeTime => !s.trigger.scheduled || wakeTime ≤ s.env.now
  | .settle workers deadline => workers.all s.isOver || deadline ≤ s.env.now
  | w => (Work.deadline? w).any (· ≤ s.env.now)

/-- The task whose question to the cluster was asked first. -/
def firstAsking? (s : Schedule) : Option Nat :=
  let asking := s.tasks.filter fun (_, task, _) => task.isAsking
  (asking.mergeSort fun (_, _, moment) (_, _, moment') => moment ≤ moment').head?.map (·.1)

/-- Lets the cluster answer a task's questions, one after the other. -/
def answerQuestions : Nat → Environment → Trigger → Task → Environment × Trigger × Task
  | 0, env, t, task => (env, t, task)
  | n + 1, env, t, task =>
    if task.isAsking then
      let (env, t, task) := task.step t env
      answerQuestions n env t task
    else (env, t, task)

def answerTask (s : Schedule) (id : Nat) : Schedule :=
  match s.task? id with
  | none => s
  | some task =>
    let (env, t, task) := answerQuestions patience s.env s.trigger task
    { s with env := env, trigger := t, tasks := s.tasks.insert id (task, s.nextMoment) }

/-- The next time that somebody waits for. -/
def nextTime? (s : Schedule) (w : Work) (asides : List Aside) : Option Nat :=
  let times := (Work.deadline? w).toList ++ (asides.map (·.time)) ++
    s.tasks.filterMap fun (_, task, _) => task.deadline?
  times.min?

/-- Runs everything until the work of a step is done. -/
def run : Nat → Schedule → Work → List Aside → Schedule × Answer
  | 0, s, _, _ => (s, .nothing)
  | n + 1, s, w, asides =>
    match s.advance w with
    | (s, .inr answer) => (s, answer)
    | (s, .inl w) =>
      let (s, asides) := s.takeAsides asides
      let s := takeTurns patience s.giveTurns
      if s.canAdvance w then run n s w asides
      else
        match s.firstAsking? with
        | some id => run n (s.answerTask id).giveTurns w asides
        | none =>
          match s.nextTime? w asides with
          | some time => run n (s.setTime (max time s.env.now)).giveTurns w asides
          | none => (s, .nothing)

end Schedule
end RecordIntake.Scenario
