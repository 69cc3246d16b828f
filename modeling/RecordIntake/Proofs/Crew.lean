import RecordIntake.Proofs.Replies
import RecordIntake.Proofs.Signals
import RecordIntake.Scenario.Schedule

/-!
Everything that can happen around one trigger, step by step and in any order: cycles, calls to close
it, and calls to interrupt its leases, with any number of each at work side by side.

A task is at a post, and a turn of it is what runs without interruption: one look at the trigger,
one change of its slot, one call that asks for a count, one action on the pool that it uses.  The
slot is under a lock.  A task that only reads it has the lock for that turn; one that may change it
keeps the lock until it has also closed what has to be closed, and meanwhile nobody else looks.

The pools stay in the trigger, and beside them stands how far their leases have come, so that each
pool with its leases is a world of its own.  All that a cycle does with a lease is an action on it.
-/
namespace RecordIntake

/-- How far a cycle is with the lease that it holds. -/
inductive Stint where
  /-- About to look whether the trigger is still scheduled, before it polls. -/
  | checking
  /-- About to ask the lease whether another poll is worthwhile. -/
  | weighing
  /-- About to start a poll. -/
  | starting
  | polling
  /-- Done with polling, and about to look once more whether the trigger is scheduled. -/
  | settling
  | committing
  /-- In a commit, with units still to hand on. -/
  | handing
  | leaving (o : CycleOutcome)
  | returning (o : CycleOutcome)
  deriving DecidableEq, Repr

/-- How far a task has come. -/
inductive Post where
  | arriving
  | looking
  /-- A pool was built, and the counts of these topics are still missing. -/
  | asking (pool : PoolId) (topics : List String) (counts : SortedMap String Nat)
  /-- The pool that was built is not to be used. -/
  | rejecting (pool : PoolId)
  | installing (pool : PoolId)
  /-- Has the slot, and has seen that the trigger is scheduled. -/
  | placing (pool : PoolId)
  /-- Has the slot, and closes what was built in vain. -/
  | dismissing (pool : PoolId) (existing : Option PoolId)
  | obtaining (pool : PoolId)
  | opening (pool : PoolId) (lease : LeaseId)
  | leased (pool : PoolId) (lease : LeaseId) (s : Stint)
  | ended (o : CycleOutcome)
  /-- A call to close the trigger. -/
  | closing
  | taking
  /-- Has the slot, which it has emptied. -/
  | shutting (pool : PoolId)
  | closed
  /-- A call to interrupt the leases. -/
  | rousing (grace : Nat)
  /-- Waits for leases to end by themselves. -/
  | sparing (pool : PoolId) (deadline next : Nat)
  | gathering (pool : PoolId)
  | waking (handles : List LeaseHandle)

/-- What a task is for. -/
inductive Job where
  | cycle
  | close
  | interrupt (grace : Nat)

/-- What is remembered of a run. -/
inductive Milestone where
  | built (task : Nat) (pool : PoolId)
  /-- The cluster told the count of a topic. -/
  | answered (task : Nat) (pool : PoolId) (topic : String) (count : Nat)
  | installed (task : Nat) (pool : PoolId)
  /-- A cycle got the pool that it uses from then on. -/
  | obtained (task : Nat) (pool : PoolId)
  /-- A cycle started a poll. -/
  | polled (task : Nat)
  /-- A call to close the trigger was over. -/
  | shut (task : Nat)
  deriving DecidableEq, Repr

/-- The trigger, the tasks that use it, and what they work in. -/
structure Crew where
  env : Environment
  trigger : Trigger
  /-- How far the leases of each pool have come. -/
  phases : SortedMap PoolId (SortedMap LeaseId Phase)
  posts : SortedMap Nat Post
  nextTask : Nat
  /-- Latest first. -/
  history : List Milestone

/-- What can happen. -/
inductive Doing where
  | spawn (job : Job)
  | turn (task : Nat)
  /-- The query of a task that asks for counts does not complete. -/
  | lose (task : Nat)
  | unschedule
  | onCluster (a : Scenario.ClusterAction)
  | advance (ms : Nat)
  | wake (h : LeaseHandle)
  | evictIdle

def Job.post : Job → Post
  | .cycle => .arriving
  | .close => .closing
  | .interrupt grace => .rousing grace

namespace Stint

/-- What a cycle does with its lease.  A poll that waits is taken up again; one that has brought
messages hands on what is due. -/
def action? (id : LeaseId) (waits : Bool) : Stint → Option Action
  | .weighing => some (.continuePolling id)
  | .starting => some (.poll id)
  | .polling => some (if waits then .resume id else .emit id)
  | .committing => some (.commit id)
  | .handing => some (.emit id)
  | .leaving _ => some (.abandon id)
  | .returning _ => some (.checkIn id)
  | .checking | .settling => none

/-- What comes next, given what the lease answered, if its call is over. -/
def next (scheduled : Bool) (r : Option Reply) : Stint → Stint
  | .checking => if scheduled then .weighing else .settling
  | .weighing =>
    match r with
    | some (.continued true) => .starting
    | _ => .settling
  | .starting | .polling =>
    match r with
    | none => .polling
    | some (.polled (.ok _)) => .checking
    | some _ => .leaving .backoff
  | .settling => if scheduled then .committing else .leaving .backoff
  | .committing | .handing =>
    match r with
    | none => .handing
    | some (.committed (.ok true)) => .leaving .workPerformed
    | some _ => .leaving .backoff
  | .leaving o | .returning o => .returning o

end Stint

/-- Whether a phase is that of a poll that waits. -/
def Phase.isWaiting : Phase → Bool
  | .waiting _ _ => true
  | _ => false

namespace Post

/-- Whether a task has the lock of the slot. -/
def holdsSlot : Post → Bool
  | .placing _ | .dismissing _ _ | .shutting _ => true
  | _ => false

/-- Whether a task is there to close the trigger. -/
def closes : Post → Bool
  | .closing | .taking | .shutting _ | .closed => true
  | _ => false

/-- Whether a task needs the lock of the slot for its next turn. -/
def needsSlot : Post → Bool
  | .looking | .installing _ | .taking | .rousing _ => true
  | _ => false

end Post

namespace Crew

def start (maxPollRecords now : Nat) (resolver : Resolver) (reader : RecordReader)
    (settings : IntakeSettings) (sink : String) : Crew where
  env := { Environment.start maxPollRecords with now := now }
  trigger := { Trigger.start resolver settings sink with reader := reader }
  phases := []
  posts := []
  nextTask := 0
  history := []

/-! ## Pools -/

def pool? (c : Crew) (id : PoolId) : Option Pool := c.trigger.pools.find? id

def phasesOf (c : Crew) (id : PoolId) : SortedMap LeaseId Phase := (c.phases.find? id).getD []

def phase? (c : Crew) (id : PoolId) (lease : LeaseId) : Option Phase := (c.phasesOf id).find? lease

/-- A pool with its leases, and what they work in. -/
def world (c : Crew) (p : Pool) : World := ⟨c.env, p, c.phasesOf p.id, [], []⟩

def withWorld (c : Crew) (w : World) : Crew :=
  { c with
    env := w.env
    trigger := c.trigger.withPool w.pool
    phases := c.phases.insert w.pool.id w.phases }

/-- An action on a pool or on a lease of it. -/
def onPool (c : Crew) (id : PoolId) (a : Action) : Crew :=
  match c.pool? id with
  | some p => c.withWorld ((c.world p).act a)
  | none => c

/-- An action, if there is one to take. -/
def onPool? (c : Crew) (id : PoolId) : Option Action → Crew
  | some a => c.onPool id a
  | none => c

/-- What an action answers. -/
def reply (c : Crew) (id : PoolId) (a : Action) : Option Reply :=
  (c.pool? id).bind fun p => (c.world p).reply a

/-! ## Tasks -/

def proceed (c : Crew) (n : Nat) (post : Post) : Crew := { c with posts := c.posts.insert n post }

def remember (c : Crew) (m : Milestone) : Crew := { c with history := m :: c.history }

def spawn (c : Crew) (job : Job) : Crew :=
  { c.proceed c.nextTask job.post with nextTask := c.nextTask + 1 }

def isLocked (c : Crew) : Bool := c.posts.any fun (_, post) => post.holdsSlot

/-- The end of a cycle. -/
def finish (c : Crew) (n : Nat) (o : CycleOutcome) : Crew :=
  { c with env := c.env.count (.cycles o) }.proceed n (.ended o)

/-! ## Getting a pool -/

/-- A cycle has got a pool. -/
def enter (c : Crew) (n : Nat) (id : PoolId) : Crew :=
  (c.remember (.obtained n id)).proceed n (.obtaining id)

def arrive (c : Crew) (n : Nat) : Crew :=
  if c.trigger.scheduled then c.proceed n .looking else c.finish n .backoff

/-- Builds a pool; its counts are asked for if that is required. -/
def build (c : Crew) (n : Nat) : Crew :=
  match c.trigger.buildPool c.env.now with
  | (t, id) =>
    ({ c with trigger := t }.remember (.built n id)).proceed n
      (if t.resolver.requiresCounts then .asking id t.resolver.topicsToVerify []
        else .installing id)

def look (c : Crew) (n : Nat) : Crew :=
  match c.trigger.slot with
  | some id => c.enter n id
  | none => c.build n

/-- Asks for the count of one more topic, or checks all the counts. -/
def ask (c : Crew) (n : Nat) (id : PoolId) (counts : SortedMap String Nat) : List String → Crew
  | [] =>
    match c.trigger.resolver.resolve counts with
    | .ok _ => c.proceed n (.installing id)
    | .error _ => c.proceed n (.rejecting id)
  | topic :: topics =>
    match c.pool? id with
    | none => c.proceed n (.rejecting id)
    | some p =>
      match p.partitionCount c.env topic with
      | (env, p, .ok k) =>
        ({ c with env := env, trigger := c.trigger.withPool p }.remember
          (.answered n id topic k)).proceed n (.asking id topics (counts.insert topic k))
      | (env, p, .error _) =>
        { c with env := env, trigger := c.trigger.withPool p }.proceed n (.rejecting id)

/-- Looks, with the slot locked, whether the trigger is scheduled. -/
def install (c : Crew) (n : Nat) (id : PoolId) : Crew :=
  c.proceed n (if c.trigger.scheduled then .placing id else .dismissing id none)

/-- Puts a pool into the slot, unless another cycle came first. -/
def place (c : Crew) (n : Nat) (id : PoolId) : Crew :=
  match c.trigger.slot with
  | some existing => c.proceed n (.dismissing id (some existing))
  | none =>
    ({ c with trigger := { c.trigger with slot := some id } }.remember (.installed n id)).enter n id

/-- Closes what was built in vain. -/
def dismiss (c : Crew) (n : Nat) (id : PoolId) (existing : Option PoolId) : Crew :=
  match existing with
  | some id' => (c.onPool id .close).enter n id'
  | none => (c.onPool id .close).finish n .backoff

/-! ## Leases -/

def obtain (c : Crew) (n : Nat) (id : PoolId) : Crew :=
  match (c.pool? id).bind fun p => (p.startObtain c.env).2.2 with
  | none => (c.onPool id (.request c.trigger.sink)).finish n .backoff
  | some o => (c.onPool id (.request c.trigger.sink)).proceed n (.opening id o.lease)

def openLease (c : Crew) (n : Nat) (id : PoolId) (lease : LeaseId) : Crew :=
  let c := c.onPool id (.supply lease)
  match c.phase? id lease with
  | some (.held _) => c.proceed n (.leased id lease .checking)
  | _ => c.finish n .backoff

/-- What a cycle does with its lease in one turn. -/
def actOn (c : Crew) (id : PoolId) (lease : LeaseId) (s : Stint) : Option Action :=
  s.action? lease ((c.phase? id lease).any Phase.isWaiting)

def attend (c : Crew) (n : Nat) (id : PoolId) (lease : LeaseId) (s : Stint) : Crew :=
  let a := c.actOn id lease s
  let c' := c.onPool? id a
  match s with
  | .starting =>
    (c'.remember (.polled n)).proceed n
      (.leased id lease (s.next c.trigger.scheduled (a.bind (c.reply id))))
  | .returning o => c'.finish n o
  | _ => c'.proceed n (.leased id lease (s.next c.trigger.scheduled (a.bind (c.reply id))))

/-! ## Closing -/

def shut (c : Crew) (n : Nat) : Crew := (c.remember (.shut n)).proceed n .closed

/-- Empties the slot. -/
def take (c : Crew) (n : Nat) : Crew :=
  match c.trigger.slot with
  | some id => { c with trigger := { c.trigger with slot := none } }.proceed n (.shutting id)
  | none => c.shut n

/-! ## Interrupting -/

def rouse (c : Crew) (n : Nat) (grace : Nat) : Crew :=
  match c.trigger.slot with
  | some id => c.proceed n (.sparing id (c.env.now + grace) c.env.now)
  | none => c.proceed n (.waking [])

/-- Waits as long as leases are out and may still end by themselves. -/
def spare (c : Crew) (n : Nat) (id : PoolId) (deadline next : Nat) : Crew :=
  if c.env.now < next then c
  else if (c.pool? id).any (!·.outstanding.isEmpty) && c.env.now < deadline then
    c.proceed n (.sparing id deadline (c.env.now + Scenario.Schedule.checkInterval))
  else c.proceed n (.gathering id)

def gather (c : Crew) (n : Nat) (id : PoolId) : Crew :=
  c.proceed n (.waking (((c.pool? id).map Pool.activeLeases).getD []))

/-! ## Runs -/

/-- What a task does in one turn. -/
def turn (c : Crew) (n : Nat) : Post → Crew
  | .arriving => c.arrive n
  | .looking => c.look n
  | .asking id topics counts => c.ask n id counts topics
  | .rejecting id => c.dismiss n id none
  | .installing id => c.install n id
  | .placing id => c.place n id
  | .dismissing id existing => c.dismiss n id existing
  | .obtaining id => c.obtain n id
  | .opening id lease => c.openLease n id lease
  | .leased id lease s => c.attend n id lease s
  | .closing => { c with trigger := c.trigger.unschedule }.proceed n .taking
  | .taking => c.take n
  | .shutting id => (c.onPool id .close).shut n
  | .rousing grace => c.rouse n grace
  | .sparing id deadline next => c.spare n id deadline next
  | .gathering id => c.gather n id
  | .waking (h :: hs) => { c with env := h.wake c.env }.proceed n (.waking hs)
  | .waking [] | .ended _ | .closed => c

def act (c : Crew) : Doing → Crew
  | .spawn job => c.spawn job
  | .turn n =>
    match c.posts.find? n with
    | some post => if post.needsSlot && c.isLocked then c else c.turn n post
    | none => c
  | .lose n =>
    match c.posts.find? n with
    | some (.asking id _ _) => c.proceed n (.rejecting id)
    | _ => c
  | .unschedule => { c with trigger := c.trigger.unschedule }
  | .onCluster a => { c with env := (a.apply c.env).1 }
  | .advance ms => { c with env := { c.env with now := c.env.now + ms } }
  | .wake h => { c with env := h.wake c.env }
  | .evictIdle =>
    match c.trigger.slot with
    | some id => c.onPool id .evictIdle
    | none => c

def run (c : Crew) (ds : List Doing) : Crew := ds.foldl act c

/-- What a step can do, with what has to hold for it. -/
inductive Step (c : Crew) : Crew → Prop where
  | stay : Step c c
  | spawn (job : Job) : Step c (c.spawn job)
  | turn {n : Nat} {post : Post} (h : c.posts.find? n = some post)
    (hfree : post.needsSlot = true → c.isLocked = false) : Step c (c.turn n post)
  | lose {n : Nat} {id : PoolId} {topics : List String} {counts : SortedMap String Nat}
    (h : c.posts.find? n = some (.asking id topics counts)) : Step c (c.proceed n (.rejecting id))
  | unschedule : Step c { c with trigger := c.trigger.unschedule }
  /-- The cluster changes, or time passes. -/
  | environs {env : Environment} (h : env.raised = c.env.raised) : Step c { c with env := env }
  | wake (h : LeaseHandle) : Step c { c with env := h.wake c.env }
  | evictIdle {id : PoolId} (h : c.trigger.slot = some id) : Step c (c.onPool id .evictIdle)

theorem act_step (c : Crew) (d : Doing) : Step c (c.act d) := by
  cases d with
  | spawn job => exact .spawn job
  | turn n =>
    simp only [act]
    split
    · rename_i post h
      split
      · exact .stay
      · rename_i hfree
        refine .turn h fun hneeds => ?_
        rw [hneeds, Bool.true_and] at hfree
        exact Bool.eq_false_iff.mpr hfree
    · exact .stay
  | lose n =>
    simp only [act]
    split
    · exact .lose ‹_›
    · exact .stay
  | unschedule => exact .unschedule
  | onCluster a => exact .environs (c.env.raised_apply a)
  | advance ms => exact .environs rfl
  | wake h => exact .wake h
  | evictIdle =>
    simp only [act]
    split
    · exact .evictIdle ‹_›
    · exact .stay

/-- What each step preserves holds after every run. -/
theorem run_induction {P : Crew → Prop} (hstep : ∀ c c', Step c c' → P c → P c') {c : Crew}
    (h : P c) (ds : List Doing) : P (c.run ds) := by
  induction ds generalizing c with
  | nil => exact h
  | cons d ds ih => exact ih (hstep c (c.act d) (act_step c d) h)

/-! ## What actions on pools leave alone -/

/-- Only pools and leases differ, and what they work in. -/
structure Beside (c c' : Crew) : Prop where
  posts : c'.posts = c.posts
  nextTask : c'.nextTask = c.nextTask
  history : c'.history = c.history
  slot : c'.trigger.slot = c.trigger.slot
  scheduled : c'.trigger.scheduled = c.trigger.scheduled
  resolver : c'.trigger.resolver = c.trigger.resolver
  nextPool : c'.trigger.nextPool = c.trigger.nextPool
  sink : c'.trigger.sink = c.trigger.sink

theorem Beside.refl (c : Crew) : Beside c c := ⟨rfl, rfl, rfl, rfl, rfl, rfl, rfl, rfl⟩

theorem beside_onPool (c : Crew) (id : PoolId) (a : Action) : Beside c (c.onPool id a) := by
  unfold onPool
  split
  · exact ⟨rfl, rfl, rfl, rfl, rfl, rfl, rfl, rfl⟩
  · exact .refl c

theorem beside_onPool? (c : Crew) (id : PoolId) (a : Option Action) :
    Beside c (c.onPool? id a) := by
  cases a with
  | none => exact .refl c
  | some a => exact c.beside_onPool id a

/-! ## What is remembered -/

end Crew

/-- The task that started a poll. -/
def Milestone.poller? : Milestone → Option Nat
  | .polled n => some n
  | _ => none

/-- Whether a task starts a poll with its next turn. -/
def Post.startsPoll : Post → Bool
  | .leased _ _ .starting => true
  | _ => false

namespace Crew

/-- A turn adds to what is remembered, a poll just if it starts one, and the end of a call to close
only if it belongs to one. -/
theorem history_turn (c : Crew) (n : Nat) (post : Post) :
    ∃ ms, (c.turn n post).history = ms ++ c.history ∧
      ms.filterMap Milestone.poller? = (if post.startsPoll = true then [n] else []) ∧
        ∀ m, .shut m ∈ ms → post.closes = true := by
  cases post with
  | arriving =>
    simp only [turn, arrive]
    split <;> exact ⟨[], rfl, rfl, nofun⟩
  | looking =>
    simp only [turn, look]
    split
    · exact ⟨[.obtained ..], rfl, rfl, by simp⟩
    · exact ⟨[.built ..], rfl, rfl, by simp⟩
  | asking id topics counts =>
    cases topics with
    | nil =>
      simp only [turn, ask]
      split <;> exact ⟨[], rfl, rfl, nofun⟩
    | cons topic topics =>
      simp only [turn, ask]
      split
      · exact ⟨[], rfl, rfl, nofun⟩
      · split
        · exact ⟨[.answered ..], rfl, rfl, by simp⟩
        · exact ⟨[], rfl, rfl, nofun⟩
  | rejecting id => exact ⟨[], (c.beside_onPool id .close).history, rfl, nofun⟩
  | installing id => exact ⟨[], rfl, rfl, nofun⟩
  | placing id =>
    simp only [turn, place]
    split
    · exact ⟨[], rfl, rfl, nofun⟩
    · exact ⟨[.obtained .., .installed ..], rfl, rfl, by simp⟩
  | dismissing id existing =>
    have hsame := (c.beside_onPool id .close).history
    cases existing with
    | none => exact ⟨[], hsame, rfl, nofun⟩
    | some id' => exact ⟨[.obtained n id'], congrArg (_ :: ·) hsame, rfl, by simp⟩
  | obtaining id =>
    have hsame := (c.beside_onPool id (.request c.trigger.sink)).history
    simp only [turn, obtain]
    split <;> exact ⟨[], hsame, rfl, nofun⟩
  | opening id lease =>
    have hsame := (c.beside_onPool id (.supply lease)).history
    simp only [turn, openLease]
    split <;> exact ⟨[], hsame, rfl, nofun⟩
  | leased id lease s =>
    have hsame := (c.beside_onPool? id (c.actOn id lease s)).history
    cases s with
    | starting => exact ⟨[.polled n], congrArg (_ :: ·) hsame, rfl, by simp⟩
    | _ => exact ⟨[], hsame, rfl, nofun⟩
  | closing => exact ⟨[], rfl, rfl, nofun⟩
  | taking =>
    simp only [turn, take]
    split
    · exact ⟨[], rfl, rfl, nofun⟩
    · exact ⟨[.shut n], rfl, rfl, fun _ _ => rfl⟩
  | shutting id =>
    have hsame := (c.beside_onPool id .close).history
    exact ⟨[.shut n], congrArg (_ :: ·) hsame, rfl, fun _ _ => rfl⟩
  | rousing grace =>
    simp only [turn, rouse]
    split <;> exact ⟨[], rfl, rfl, nofun⟩
  | sparing id deadline next =>
    simp only [turn, spare]
    split
    · exact ⟨[], rfl, rfl, nofun⟩
    · split <;> exact ⟨[], rfl, rfl, nofun⟩
  | gathering id => exact ⟨[], rfl, rfl, nofun⟩
  | waking handles => cases handles <;> exact ⟨[], rfl, rfl, nofun⟩
  | ended o => exact ⟨[], rfl, rfl, nofun⟩
  | closed => exact ⟨[], rfl, rfl, nofun⟩

theorem mem_history_step {c c' : Crew} (hstep : Step c c') {m : Milestone} (hm : m ∈ c.history) :
    m ∈ c'.history := by
  cases hstep with
  | @turn n post hpost hfree =>
    obtain ⟨ms, h, -⟩ := c.history_turn n post
    exact h ▸ List.mem_append_right ms hm
  | @evictIdle id hslot => exact (c.beside_onPool id .evictIdle).history ▸ hm
  | _ => exact hm

theorem mem_history_run {c : Crew} {m : Milestone} (hm : m ∈ c.history) (ds : List Doing) :
    m ∈ (c.run ds).history :=
  run_induction (P := fun c => m ∈ c.history) (fun _ _ hstep hm => mem_history_step hstep hm) hm ds

theorem run_append (c : Crew) (ds ds' : List Doing) : c.run (ds ++ ds') = (c.run ds).run ds' :=
  List.foldl_append

end Crew
end RecordIntake
