import RecordIntake.Proofs.Environment
import RecordIntake.Scenario.Action

/-!
Everything that can happen to one pool, its leases and the cluster, step by step and in any order.

A step is what runs without interruption: one change of the pool's bookkeeping, one call to the
cluster or to a sink, or what a lease does between two of them.  A lease can be given up between any
two of its steps.  Whatever fails, fails because the cluster, a sink or a queued fault says so, and
each of these may change between any two steps.

A run is a list of actions, and an action that is not possible changes nothing.
-/
namespace RecordIntake

/-- What units are handed on for. -/
inductive Errand where
  | poll
  | commit
  deriving DecidableEq, Repr

/-- How far a lease has come, from the decision to issue it until it is back. -/
inductive Phase where
  /-- Its connection has still to be supplied. -/
  | opening (o : Offer) (sink : String)
  | held (l : Lease)
  /-- In a poll that waits. -/
  | waiting (l : Lease) (deadline : Option Nat)
  | emitting (l : Lease) (units : List Emission) (errand : Errand)
  /-- Given up, and on its way back. -/
  | returning (c : Connection) (discard : Bool)
  | ended

/-- The lease, once it is issued and until it is given up. -/
def Phase.lease? : Phase → Option Lease
  | .held l | .waiting l _ | .emitting l _ _ => some l
  | _ => none

/-- How far a question for a partition count has come. -/
inductive Inquiry where
  | taken (s : Supply)
  | asking (q : Pool.Query)
  | answered (q : Pool.Query) (faulty : Bool)

/-- What is remembered of a run. -/
inductive Occurrence where
  | lent (id : LeaseId) (c : Connection)
  /-- What a poll read, and the connection before and after it. -/
  | read (id : LeaseId) (cluster : Cluster) (before after : Connection) (messages : List Message)
  /-- A successful commit, and what was committed before it. -/
  | committed (id : LeaseId) (c : Connection) (before offsets : Offsets)
  /-- The pool took the connection of a lease back and kept it. -/
  | returned (id : LeaseId) (c : Connection)

structure World where
  env : Environment
  pool : Pool
  phases : SortedMap LeaseId Phase
  inquiries : List Inquiry
  /-- Latest first. -/
  history : List Occurrence

inductive Action where
  | onCluster (a : Scenario.ClusterAction)
  | advance (ms : Nat)
  | wake (h : LeaseHandle)
  | evictIdle
  | close
  | request (sink : String)
  | supply (id : LeaseId)
  | continuePolling (id : LeaseId)
  | poll (id : LeaseId)
  | resume (id : LeaseId)
  | commit (id : LeaseId)
  | emit (id : LeaseId)
  | abandon (id : LeaseId)
  | checkIn (id : LeaseId)
  | inquire
  | connect (inquiry : Nat)
  | ask (inquiry : Nat) (topic : String)
  | putBack (inquiry : Nat)

/-- A log has room for as many messages as there are offsets. -/
def Cluster.hasRoom (c : Cluster) : Bool :=
  c.logs.all fun (_, log) => decide ((log.size : Int) ≤ Ledger.greatestOffset)

namespace World

def start (maxPollRecords now : Nat) (s : Subscription) (reader : RecordReader)
    (settings : IntakeSettings) : World where
  env := { Environment.start maxPollRecords with now := now }
  pool := .build 0 s reader settings now
  phases := []
  inquiries := []
  history := []

def setPhase (w : World) (id : LeaseId) (ph : Phase) : World :=
  { w with phases := w.phases.insert id ph }

def remember (w : World) (o : Occurrence) : World := { w with history := o :: w.history }

def onCluster (w : World) (a : Scenario.ClusterAction) : World :=
  let env := (a.apply w.env).1
  if env.cluster.hasRoom then { w with env := env } else w

/-! ## Obtaining a lease -/

def request (w : World) (sink : String) : World :=
  match w.pool.startObtain w.env with
  | (env, pool, none) => { w with env := env, pool := pool }
  | (env, pool, some o) => { w with env := env, pool := pool }.setPhase o.lease (.opening o sink)

def supply (w : World) (id : LeaseId) (o : Offer) (sink : String) : World :=
  match w.pool.finishObtain w.env o sink with
  | (env, pool, .ok l) =>
    ({ w with env := env, pool := pool }.setPhase id (.held l)).remember (.lent id l.connection)
  | (env, pool, .error _) => { w with env := env, pool := pool }.setPhase id .ended

/-! ## Polling -/

def continuePolling (w : World) (id : LeaseId) (l : Lease) : World :=
  w.setPhase id (.held (l.continuePolling w.env).1)

def endPoll (w : World) (id : LeaseId) (l : Lease) (result : Except IntakeError (List Message)) :
    World :=
  match l.takeIn w.env result with
  | (env, l, .error _) => { w with env := env }.setPhase id (.held l)
  | (env, l, .ok (_, units)) => { w with env := env }.setPhase id (.emitting l units .poll)

def poll (w : World) (id : LeaseId) (l : Lease) : World :=
  if l.state = .faulted then w
  else
    match w.env.startPoll l.connection l.settings.pollTimeout with
    | (env, c, p) =>
      let w := { w with env := env }.remember
        (.read id w.env.cluster l.connection c p.messages)
      let l := { l with state := .polling, connection := c }
      match p with
      | .waiting deadline => w.setPhase id (.waiting l deadline)
      | .ended result => w.endPoll id l result

def resume (w : World) (id : LeaseId) (l : Lease) (deadline : Option Nat) : World :=
  match w.env.resumePoll l.connection deadline with
  | (env, .waiting deadline) => { w with env := env }.setPhase id (.waiting l deadline)
  | (env, .ended result) => { w with env := env }.endPoll id l result

/-! ## Handing units on, and committing -/

def commit (w : World) (id : LeaseId) (l : Lease) : World :=
  if l.state = .faulted then w
  else
    let (l, remaining) := l.flush
    w.setPhase id (.emitting l remaining .commit)

def finishCommit (w : World) (id : LeaseId) (l : Lease) : World :=
  match l.finishCommit w.env with
  | (env, l', outcome) =>
    let w' := { w with env := env }.setPhase id (.held l')
    match outcome with
    | .ok true =>
      if l.ledger.isEmpty then w'
      else
        w'.remember (.committed id l.connection w.env.cluster.committed l.ledger.committable)
    | _ => w'

def emit (w : World) (id : LeaseId) (l : Lease) : List Emission → Errand → World
  | e :: units, errand =>
    match l.emitOne w.env e with
    | (env, l, .ok ()) => { w with env := env }.setPhase id (.emitting l units errand)
    | (env, l, .error _) => { w with env := env }.setPhase id (.held l)
  | [], .poll => w.setPhase id (.held l)
  | [], .commit => w.finishCommit id l

/-! ## Giving a lease back -/

def abandon (w : World) (id : LeaseId) (l : Lease) : World :=
  match l.abandon w.env with
  | (env, c, discard) => { w with env := env }.setPhase id (.returning c discard)

def checkIn (w : World) (id : LeaseId) (c : Connection) (discard : Bool) : World :=
  match w.pool.checkIn w.env id (some c) discard with
  | (env, pool) =>
    let w' := { w with env := env, pool := pool }.setPhase id .ended
    if discard || w.pool.closed then w' else w'.remember (.returned id c)

/-! ## Asking for a partition count -/

def inquire (w : World) : World :=
  match w.pool.supplyQuery with
  | (pool, none) => { w with pool := pool }
  | (pool, some s) => { w with pool := pool, inquiries := .taken s :: w.inquiries }

def connect (w : World) (i : Nat) (s : Supply) : World :=
  match Pool.Supply.query w.pool w.env s with
  | (env, .ok q) => { w with env := env, inquiries := w.inquiries.set i (.asking q) }
  | (env, .error _) => { w with env := env, inquiries := w.inquiries.eraseIdx i }

def ask (w : World) (i : Nat) (q : Pool.Query) (topic : String) : World :=
  match w.env.partitionCount q.connection topic with
  | (env, result) =>
    { w with env := env, inquiries := w.inquiries.set i (.answered q (Pool.isFatal result)) }

def putBack (w : World) (i : Nat) (q : Pool.Query) (faulty : Bool) : World :=
  match w.pool.returnQuery w.env q faulty with
  | (env, pool) => { w with env := env, pool := pool, inquiries := w.inquiries.eraseIdx i }

/-! ## Runs -/

/-- What an action changes. -/
def act (w : World) : Action → World
  | .onCluster a => w.onCluster a
  | .advance ms => { w with env := { w.env with now := w.env.now + ms } }
  | .wake h => { w with env := h.wake w.env }
  | .evictIdle => { w with env := (w.pool.evictIdle w.env).1, pool := (w.pool.evictIdle w.env).2.1 }
  | .close => { w with env := (w.pool.close w.env).1, pool := (w.pool.close w.env).2 }
  | .request sink => w.request sink
  | .supply id =>
    match w.phases.find? id with
    | some (.opening o sink) => w.supply id o sink
    | _ => w
  | .continuePolling id =>
    match w.phases.find? id with
    | some (.held l) => w.continuePolling id l
    | _ => w
  | .poll id =>
    match w.phases.find? id with
    | some (.held l) => w.poll id l
    | _ => w
  | .resume id =>
    match w.phases.find? id with
    | some (.waiting l deadline) => w.resume id l deadline
    | _ => w
  | .commit id =>
    match w.phases.find? id with
    | some (.held l) => w.commit id l
    | _ => w
  | .emit id =>
    match w.phases.find? id with
    | some (.emitting l units errand) => w.emit id l units errand
    | _ => w
  | .abandon id =>
    match (w.phases.find? id).bind Phase.lease? with
    | some l => w.abandon id l
    | none => w
  | .checkIn id =>
    match w.phases.find? id with
    | some (.returning c discard) => w.checkIn id c discard
    | _ => w
  | .inquire => w.inquire
  | .connect i =>
    match w.inquiries[i]? with
    | some (.taken s) => w.connect i s
    | _ => w
  | .ask i topic =>
    match w.inquiries[i]? with
    | some (.asking q) => w.ask i q topic
    | _ => w
  | .putBack i =>
    match w.inquiries[i]? with
    | some (.answered q faulty) => w.putBack i q faulty
    | _ => w

def run (w : World) (as : List Action) : World := as.foldl act w

/-- What a step can do, with what has to hold for it. -/
inductive Step (w : World) : World → Prop where
  | stay : Step w w
  | onCluster (a : Scenario.ClusterAction) : Step w (w.onCluster a)
  | advance (ms : Nat) : Step w { w with env := { w.env with now := w.env.now + ms } }
  | wake (h : LeaseHandle) : Step w { w with env := h.wake w.env }
  | evictIdle :
    Step w { w with env := (w.pool.evictIdle w.env).1, pool := (w.pool.evictIdle w.env).2.1 }
  | close : Step w { w with env := (w.pool.close w.env).1, pool := (w.pool.close w.env).2 }
  | request (sink : String) : Step w (w.request sink)
  | supply {id : LeaseId} {o : Offer} {sink : String}
    (h : w.phases.find? id = some (.opening o sink)) : Step w (w.supply id o sink)
  | continuePolling {id : LeaseId} {l : Lease} (h : w.phases.find? id = some (.held l)) :
    Step w (w.continuePolling id l)
  | poll {id : LeaseId} {l : Lease} (h : w.phases.find? id = some (.held l)) :
    Step w (w.poll id l)
  | resume {id : LeaseId} {l : Lease} {deadline : Option Nat}
    (h : w.phases.find? id = some (.waiting l deadline)) : Step w (w.resume id l deadline)
  | commit {id : LeaseId} {l : Lease} (h : w.phases.find? id = some (.held l)) :
    Step w (w.commit id l)
  | emit {id : LeaseId} {l : Lease} {units : List Emission} {errand : Errand}
    (h : w.phases.find? id = some (.emitting l units errand)) : Step w (w.emit id l units errand)
  | abandon {id : LeaseId} {ph : Phase} {l : Lease} (h : w.phases.find? id = some ph)
    (hl : ph.lease? = some l) : Step w (w.abandon id l)
  | checkIn {id : LeaseId} {c : Connection} {discard : Bool}
    (h : w.phases.find? id = some (.returning c discard)) : Step w (w.checkIn id c discard)
  | inquire : Step w w.inquire
  | connect {i : Nat} {s : Supply} (h : w.inquiries[i]? = some (.taken s)) :
    Step w (w.connect i s)
  | ask {i : Nat} {q : Pool.Query} (h : w.inquiries[i]? = some (.asking q)) (topic : String) :
    Step w (w.ask i q topic)
  | putBack {i : Nat} {q : Pool.Query} {faulty : Bool}
    (h : w.inquiries[i]? = some (.answered q faulty)) : Step w (w.putBack i q faulty)

theorem act_step (w : World) (a : Action) : Step w (w.act a) := by
  cases a with
  | onCluster a => exact .onCluster a
  | advance ms => exact .advance ms
  | wake h => exact .wake h
  | evictIdle => exact .evictIdle
  | close => exact .close
  | request sink => exact .request sink
  | inquire => exact .inquire
  | abandon id =>
    simp only [act]
    split
    · rename_i l h
      obtain ⟨ph, h, hl⟩ := Option.bind_eq_some_iff.mp h
      exact .abandon h hl
    · exact .stay
  | supply id =>
    simp only [act]
    split
    · exact .supply ‹_›
    · exact .stay
  | continuePolling id =>
    simp only [act]
    split
    · exact .continuePolling ‹_›
    · exact .stay
  | poll id =>
    simp only [act]
    split
    · exact .poll ‹_›
    · exact .stay
  | resume id =>
    simp only [act]
    split
    · exact .resume ‹_›
    · exact .stay
  | commit id =>
    simp only [act]
    split
    · exact .commit ‹_›
    · exact .stay
  | emit id =>
    simp only [act]
    split
    · exact .emit ‹_›
    · exact .stay
  | checkIn id =>
    simp only [act]
    split
    · exact .checkIn ‹_›
    · exact .stay
  | connect i =>
    simp only [act]
    split
    · exact .connect ‹_›
    · exact .stay
  | ask i topic =>
    simp only [act]
    split
    · exact .ask ‹_› topic
    · exact .stay
  | putBack i =>
    simp only [act]
    split
    · exact .putBack ‹_›
    · exact .stay

/-- What each step preserves holds after every run. -/
theorem run_induction {P : World → Prop} (hstep : ∀ w w', Step w w' → P w → P w') {w : World}
    (h : P w) (as : List Action) : P (w.run as) := by
  induction as generalizing w with
  | nil => exact h
  | cons a as ih => exact ih (hstep w (w.act a) (act_step w a) h)

end World
end RecordIntake
