import RecordIntake.Scenario.Action

/-!
Scripts over one pool, whose leases are held under names.  Only polling and waiting take time, and
meanwhile nothing but the asides of the step happens.
-/
namespace RecordIntake.Scenario

structure Bench where
  env : Environment
  pool : Pool
  leases : SortedMap String Lease
  /-- The handle of the lease last obtained under each name. -/
  handles : SortedMap String LeaseHandle

inductive BenchStep where
  | instant (i : Instant)
  | advance (ms : Nat) (asides : List Aside)
  | obtain (lease sink : String)
  | continuePolling (lease : String)
  /-- A poll, and after how long it is given up. -/
  | poll (lease : String) (asides : List Aside) (giveUpAfter : Option Nat)
  | commit (lease : String)
  | wakeup (lease : String)
  | close (lease : String)
  | drop (lease : String)

namespace Bench

def start (env : Environment) (s : Subscription) (settings : IntakeSettings) : Bench :=
  ⟨env, .build 0 s Record.read settings env.now, [], []⟩

def noLease : Answer := .text "no such lease"

def wake (b : Bench) (h : LeaseHandle) : Bench × Answer :=
  ({ b with env := h.wake b.env }, .text (leaseName h.id))

def instant (b : Bench) : Instant → Bench × Answer
  | .onCluster a =>
    let (env, answer) := a.apply b.env
    ({ b with env := env }, answer)
  | .onPool a =>
    let (env, pool, answer) := a.apply b.env b.pool
    ({ b with env := env, pool := pool }, answer)
  | .wake name =>
    match b.handles.find? name with
    | some h => b.wake h
    | none => (b, noLease)
  | .unschedule => (b, .nothing)
  | .closeTrigger => (b, .nothing)

def setTime (b : Bench) (time : Nat) : Bench := { b with env := { b.env with now := time } }

/-- Waits until a time.  The asides that come before it happen meanwhile. -/
def waitUntil (b : Bench) (time : Nat) : List Aside → Bench
  | [] => b.setTime time
  | a :: asides =>
    if a.time < time then waitUntil ((b.setTime a.time).instant a.action).1 time asides
    else b.setTime time

/-- Gives a lease back. -/
def release (b : Bench) (l : Lease) : Bench :=
  let (env, pool) := b.pool.release b.env l
  { b with env := env, pool := pool }

def obtain (b : Bench) (name sink : String) : Bench × Answer :=
  match b.pool.obtain (b.env.withSink sink) sink with
  | (env, pool, .error e) => ({ b with env := env, pool := pool }, .failed e)
  | (env, pool, .ok none) => ({ b with env := env, pool := pool }, .nothing)
  | (env, pool, .ok (some l)) =>
    let earlier := b.leases.find? name
    let b : Bench := ⟨env, pool, b.leases.insert name l, b.handles.insert name l.handle⟩
    let b :=
      match earlier with
      | some l => b.release l
      | none => b
    (b, .text (leaseName l.id))

def keep (b : Bench) (name : String) (env : Environment) (l : Lease) : Bench :=
  { b with env := env, leases := b.leases.insert name l }

/-- The earlier of two times that may not come at all. -/
def earlier : Option Nat → Option Nat → Option Nat
  | none, t => t
  | t, none => t
  | some t, some u => some (min t u)

/-- Lets a poll that waits end by itself or be given up, whichever comes first.  A poll that is
given up leaves its lease as it is. -/
def endWait (b : Bench) (name : String) (l : Lease) (deadline giveUp : Option Nat) :
    Bench × Answer :=
  let b :=
    match earlier deadline giveUp with
    | some time => b.setTime time
    | none => b
  match l.resumePoll b.env deadline with
  | (env, l, .ended r) => (b.keep name env l, .ofResult (fun n => .number n) r)
  | (env, l, .waiting _) => (b.keep name env l, .text "cancelled")

/-- Goes on with a poll that waits, while asides happen.  An interrupt ends it at once. -/
def awaitPoll (b : Bench) (name : String) (l : Lease) (deadline giveUp : Option Nat) :
    List Aside → Bench × Answer
  | [] => b.endWait name l deadline giveUp
  | a :: asides =>
    if (earlier deadline giveUp).all (a.time < ·) then
      let (b, _) := (b.setTime a.time).instant a.action
      match l.resumePoll b.env deadline with
      | (env, l, .ended r) => (b.keep name env l, .ofResult (fun n => .number n) r)
      | (_, l, .waiting _) => awaitPoll b name l deadline giveUp asides
    else b.endWait name l deadline giveUp

def poll (b : Bench) (name : String) (l : Lease) (asides : List Aside) (giveUp : Option Nat) :
    Bench × Answer :=
  match l.startPoll b.env with
  | (env, l, .ended r) => (b.keep name env l, .ofResult (fun n => .number n) r)
  | (env, l, .waiting deadline) => ({ b with env := env }).awaitPoll name l deadline giveUp asides

/-- Times of asides count from the beginning of the step. -/
def shift (b : Bench) (asides : List Aside) : List Aside :=
  Aside.inOrder (asides.map fun a => { a with time := b.env.now + a.time })

/-- Does something with a lease that is held. -/
def withLease (b : Bench) (name : String) (f : Lease → Bench × Answer) : Bench × Answer :=
  match b.leases.find? name with
  | some l => f l
  | none => (b, noLease)

def step (b : Bench) : BenchStep → Bench × Answer
  | .instant i => b.instant i
  | .advance ms asides => (b.waitUntil (b.env.now + ms) (b.shift asides), .nothing)
  | .obtain name sink => b.obtain name sink
  | .continuePolling name => b.withLease name fun l =>
    let (l, go) := l.continuePolling b.env
    (b.keep name b.env l, .flag go)
  | .poll name asides giveUpAfter => b.withLease name fun l =>
    b.poll name l (b.shift asides) (giveUpAfter.map (b.env.now + ·))
  | .commit name => b.withLease name fun l =>
    let (env, l, r) := l.commit b.env
    (b.keep name env l, .ofResult .flag r)
  | .wakeup name => b.withLease name fun l => ({ b with env := l.handle.wake b.env }, .nothing)
  | .close name => b.withLease name fun l =>
    (({ b with leases := b.leases.erase name }).release l, .text "closed")
  | .drop name =>
    match b.leases.find? name with
    | some l => (({ b with leases := b.leases.erase name }).release l, .flag true)
    | none => (b, .flag false)

/-- Drops all leases that are held, in the order of their names. -/
def dropLeases (b : Bench) : Bench :=
  b.leases.foldl (fun b (_, l) => b.release l) { b with leases := [] }

/-- Drops the pool, which closes it. -/
def dropPool (b : Bench) : Bench :=
  let (env, pool) := b.pool.close b.env
  { b with env := env, pool := pool }

end Bench
end RecordIntake.Scenario
