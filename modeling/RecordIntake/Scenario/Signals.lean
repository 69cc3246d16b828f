import RecordIntake.Interrupt

/-!
Scripts over one interrupt signal.  The waiters of a script get to run whenever the script itself
has to wait.
-/
namespace RecordIntake.Scenario

inductive SignalStep where
  | trigger
  | take
  | isRequested
  /-- Waits for a request for a short time in which nothing else happens. -/
  | wait
  | spawnWaiter
  /-- Counts the waiters that have returned. -/
  | finished

structure SignalScript where
  signal : InterruptSignal
  waiters : List Waiter

namespace SignalScript

inductive Answer where
  | nothing
  | flag (b : Bool)
  | count (n : Nat)

def start : SignalScript := ⟨.quiet, []⟩

def letRun (s : SignalScript) : SignalScript :=
  { s with waiters := s.waiters.map (Waiter.run s.signal) }

def step (s : SignalScript) : SignalStep → SignalScript × Answer
  | .trigger => ({ s with signal := s.signal.trigger }, .nothing)
  | .take =>
    let (signal, found) := s.signal.take
    ({ s with signal := signal }, .flag found)
  | .isRequested => (s, .flag s.signal.requested)
  | .wait =>
    match Waiter.run s.signal .begun with
    | .returned => (s, .flag true)
    | _ => (s.letRun, .flag false)
  | .spawnWaiter => ({ s with waiters := s.waiters ++ [Waiter.begun] }.letRun, .nothing)
  | .finished =>
    let s := s.letRun
    (s, .count (s.waiters.count .returned))

def answers (s : SignalScript) : List SignalStep → List Answer
  | [] => []
  | step :: steps =>
    let (s, answer) := s.step step
    answer :: s.answers steps

end SignalScript
end RecordIntake.Scenario
