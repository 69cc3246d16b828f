import RecordIntake.Proofs.Clock
import RecordIntake.Proofs.Interruption
import RecordIntake.Proofs.Shutdown

/-!
What the turns of one cycle add up to, however they are interleaved with those of others: its polls
and what they brought, the units that sinks accepted from it, its calls to commit offsets, and the
answers of the calls on its lease.

Journals and histories are kept latest first, so what is new after a turn stands in front of what
was there before.
-/
namespace RecordIntake

/-- What was put in front of a list. -/
def since {α : Type} (old new : List α) : List α := new.take (new.length - old.length)

theorem since_append {α : Type} (xs old : List α) : since old (xs ++ old) = xs := by
  rw [since, List.length_append, Nat.add_sub_cancel, List.take_left]

theorem since_cons {α : Type} (x : α) (old : List α) : since old (x :: old) = [x] :=
  since_append [x] old

theorem since_self {α : Type} (old : List α) : since old old = [] := since_append [] old

/-- The sink that accepted a unit, and the unit. -/
def Event.unit? : Event → Option (String × Emission)
  | .emitted sink e => some (sink, e)
  | _ => none

/-- The offsets that were to be committed, and what came of it. -/
def Event.attempt? : Event → Option (Offsets × Except IntakeError Unit)
  | .committed _ offsets result => some (offsets, result)
  | _ => none

def Occurrence.isRead : Occurrence → Bool
  | .read _ _ _ _ _ => true
  | _ => false

/-- The messages that a poll brought. -/
def Occurrence.messages : Occurrence → List Message
  | .read _ _ _ _ messages => messages
  | _ => []

structure Account where
  /-- The number of polls. -/
  polls : Nat := 0
  /-- The messages that they brought, in that order. -/
  polled : List Message := []
  /-- The units that were accepted, each with its sink, latest first. -/
  accepted : List (String × Emission) := []
  /-- The calls to commit offsets, latest first. -/
  commits : List (Offsets × Except IntakeError Unit) := []
  /-- What the calls on leases answered, latest first. -/
  replies : List Reply := []

namespace Account

def add (a b : Account) : Account where
  polls := a.polls + b.polls
  polled := a.polled ++ b.polled
  accepted := b.accepted ++ a.accepted
  commits := b.commits ++ a.commits
  replies := b.replies ++ a.replies

@[simp] theorem add_empty (a : Account) : a.add {} = a := by
  simp [add]

@[simp] theorem empty_add (a : Account) : add {} a = a := by
  simp [add]

theorem add_assoc (a b c : Account) : (a.add b).add c = a.add (b.add c) := by
  simp [add, Nat.add_assoc]

/-- The account of what happened, given what was noted of it. -/
def ofRecords (events : List Event) (occurrences : List Occurrence) (reply : Option Reply) :
    Account where
  polls := occurrences.countP Occurrence.isRead
  polled := occurrences.reverse.flatMap Occurrence.messages
  accepted := events.filterMap Event.unit?
  commits := events.filterMap Event.attempt?
  replies := reply.toList

theorem ofRecords_read (id : LeaseId) (cluster : Cluster) (before after : Connection)
    (ms : List Message) (reply : Option Reply) :
    ofRecords [] [.read id cluster before after ms] reply =
      { polls := 1, polled := ms, replies := reply.toList } := by
  simp [ofRecords, Occurrence.isRead, Occurrence.messages]

/-- Without a read there is no poll. -/
theorem ofRecords_unread {occurrences : List Occurrence}
    (h : ∀ o ∈ occurrences, o.isRead = false ∧ o.messages = []) (events : List Event)
    (reply : Option Reply) : ofRecords events occurrences reply = ofRecords events [] reply := by
  have hpolls : occurrences.countP Occurrence.isRead = 0 :=
    List.countP_eq_zero.mpr fun o ho => Bool.eq_false_iff.mp (h o ho).1
  have hpolled : occurrences.reverse.flatMap Occurrence.messages = [] :=
    List.flatMap_eq_nil_iff.mpr fun o ho => (h o (List.mem_reverse.mp ho)).2
  rw [ofRecords, hpolls, hpolled]
  rfl

/-- Quiet events count for nothing. -/
theorem ofRecords_quiet {events : List Event} (h : ∀ e ∈ events, e.isQuiet = true)
    (occurrences : List Occurrence) (reply : Option Reply) :
    ofRecords events occurrences reply = ofRecords [] occurrences reply := by
  have hunits : events.filterMap Event.unit? = [] := by
    refine List.filterMap_eq_nil_iff.mpr fun e he => ?_
    have hquiet := h e he
    cases e with
    | emitted sink unit => cases hquiet
    | _ => rfl
  have hattempts : events.filterMap Event.attempt? = [] := by
    refine List.filterMap_eq_nil_iff.mpr fun e he => ?_
    have hquiet := h e he
    cases e with
    | committed connection offsets result => cases hquiet
    | _ => rfl
  rw [ofRecords, hunits, hattempts]
  rfl

end Account

/-- Asking for a partition count is steady as a whole. -/
theorem Pool.steady_partitionCount (p : Pool) (env : Environment) (topic : String) :
    env.Steady (p.partitionCount env topic).1 := by
  unfold partitionCount startQuery
  cases p.supplyQuery with
  | mk p' s =>
    cases s with
    | none => exact .refl env
    | some s =>
      have h := p'.steady_query env s
      dsimp only
      cases hquery : Supply.query p' env s with
      | mk env' result =>
        rw [hquery] at h
        cases result with
        | error e => exact h
        | ok q =>
          exact (h.trans (env'.steady_partitionCount q.connection topic)).trans
            (p'.steady_returnQuery _ q _)

/-! ## Actions on a lease -/

/-- Whether an action hands on what a lease has to, or commits when there is nothing left. -/
def Action.emits : Action → Bool
  | .emit _ => true
  | _ => false

namespace World

variable {w w' : World} {a : Action}

/-- What an action on a lease comes to. -/
def gains (w : World) (a : Action) : Account :=
  .ofRecords (since w.env.journal (w.act a).env.journal) (since w.history (w.act a).history)
    (w.reply a)

theorem gains_eq (es : List Event) (os : List Occurrence) {r : Option Reply}
    (hact : w.act a = w') (hj : w'.env.journal = es ++ w.env.journal)
    (hh : w'.history = os ++ w.history) (hr : w.reply a = r) :
    w.gains a = .ofRecords es os r := by
  rw [gains, hact, hj, hh, hr, since_append, since_append]

theorem gains_steady (os : List Occurrence) {r : Option Reply} (hact : w.act a = w')
    (hsteady : w.env.Steady w'.env) (hh : w'.history = os ++ w.history) (hr : w.reply a = r) :
    w.gains a = .ofRecords [] os r := by
  obtain ⟨es, hes, hj⟩ := hsteady.journal
  rw [gains_eq es os hact hj hh hr, Account.ofRecords_quiet hes]

/-- Only handing on and committing are not steady, and both come with an emission. -/
theorem steady_act (w : World) (ha : a.emits = false) : w.env.Steady (w.act a).env := by
  cases a with
  | onCluster a => exact (calm_onCluster w a).steady
  | advance ms => exact .of_eq rfl rfl
  | wake h => exact (w.env.steady_count _).trans (Environment.steady_raise ..)
  | evictIdle => exact w.pool.steady_evictIdle w.env
  | close => exact w.pool.steady_close w.env
  | request sink => exact (calm_request w sink).steady
  | supply id =>
    simp only [act]
    split
    · rename_i o sink hph
      have h := w.pool.steady_finishObtain w.env o sink
      unfold supply
      split <;> rename_i he <;> rw [he] at h <;> exact h
    · exact .refl w.env
  | continuePolling id =>
    simp only [act]
    split <;> exact .refl w.env
  | poll id =>
    simp only [act]
    split
    · exact steady_poll ..
    · exact .refl w.env
  | resume id =>
    simp only [act]
    split
    · exact steady_resume ..
    · exact .refl w.env
  | commit id =>
    simp only [act]
    split
    · unfold commit
      split <;> exact .refl w.env
    · exact .refl w.env
  | emit id => cases ha
  | abandon id =>
    simp only [act]
    split
    · exact Lease.steady_abandon ..
    · exact .refl w.env
  | checkIn id =>
    simp only [act]
    split
    · rename_i c discard hph
      have h := w.pool.steady_checkIn w.env id (some c) discard
      unfold checkIn
      dsimp only
      split <;> exact h
    · exact .refl w.env
  | inquire => exact (calm_inquire w).steady
  | connect i =>
    simp only [act]
    split
    · exact (calm_connect ‹_›).steady
    · exact .refl w.env
  | ask i topic =>
    simp only [act]
    split
    · exact (calm_ask ‹_› topic).steady
    · exact .refl w.env
  | putBack i =>
    simp only [act]
    split
    · exact (calm_putBack ‹_›).steady
    · exact .refl w.env

/-- Committed offsets change only through a commit that is accounted for. -/
theorem committed_act (w : World) (a : Action) :
    (w.act a).env.cluster.committed = w.env.cluster.committed ∨
      ∃ offsets, (offsets, .ok ()) ∈ (w.gains a).commits := by
  have hmoves := moves_of_step (act_step w a)
  unfold gains
  generalize w.act a = w' at hmoves ⊢
  cases hmoves with
  | calm h => exact .inl h.steady.committed
  | lend hph hsteady => exact .inl hsteady.committed
  | read hph hl hsteady => exact .inl hsteady.committed
  | absorb hph hx hsteady => exact .inl hsteady.committed
  | accept hph hcluster => exact .inl (by rw [hcluster])
  | @commit id l env hph hempty hlogs hj hc now =>
    refine .inr ⟨l.ledger.committable, ?_⟩
    show _ ∈ (since w.env.journal env.journal).filterMap Event.attempt?
    rw [hj, since_cons]
    exact List.mem_singleton_self _
  | refuse hph hlogs hj hc => exact .inl hc
  | abandon hph hl hsteady => exact .inl hsteady.committed
  | checkIn hph hsteady => exact .inl hsteady.committed

end World

/-! ## Turns -/

namespace Crew

variable {c c' : Crew} {n : Nat} {post : Post}

/-- What a task does with its lease in its next turn. -/
def call? (c : Crew) (n : Nat) : Option (World × Action) :=
  match c.posts.find? n with
  | some (.leased id lease s) =>
    (c.pool? id).bind fun p => (c.actOn id lease s).map fun a => (c.world p, a)
  | _ => none

/-- What the next turn of a task comes to. -/
def gains (c : Crew) (n : Nat) : Account :=
  .ofRecords (since c.env.journal (c.act (.turn n)).env.journal)
    ((c.call? n).elim [] fun (w, a) => since w.history (w.act a).history)
    ((c.call? n).bind fun (w, a) => w.reply a)

/-- What the turns of a task add up to. -/
def account (c : Crew) (n : Nat) : List Doing → Account
  | [] => {}
  | d :: ds => (if d.isTurnOf n = true then c.gains n else {}).add ((c.act d).account n ds)

theorem account_append (c : Crew) (n : Nat) (ds ds' : List Doing) :
    c.account n (ds ++ ds') = (c.account n ds).add ((c.run ds).account n ds') := by
  induction ds generalizing c with
  | nil => exact (Account.empty_add _).symm
  | cons d ds ih =>
    rw [List.cons_append, account, ih, account, Account.add_assoc]
    rfl

/-! ## What turns change outside -/

/-- Nothing has been handed on or committed, and time has gone on at most. -/
structure Undisturbed (env env' : Environment) : Prop where
  steady : env.Steady env'
  onward : env.Onward env'

namespace Undisturbed

variable {env env' : Environment}

theorem refl (env : Environment) : Undisturbed env env := ⟨.refl env, .refl env⟩

/-- Only counters, gauges and signals may have changed. -/
theorem of_eq (hcluster : env'.cluster = env.cluster) (hjournal : env'.journal = env.journal)
    (hnow : env'.now = env.now) : Undisturbed env env' :=
  ⟨.of_eq hcluster hjournal, .of_eq hnow hcluster⟩

/-- A cycle that is over is counted. -/
theorem count (h : Undisturbed env env') (o : CycleOutcome) :
    Undisturbed env (env'.count (.cycles o)) :=
  ⟨h.steady.trans (Environment.steady_count ..), h.onward.trans (.of_eq rfl rfl)⟩

end Undisturbed

/-- What somebody who has no lease does with a pool. -/
theorem undisturbed_onPool (c : Crew) (id : PoolId) {a : Action} (ha : a.emits = false) :
    Undisturbed c.env (c.onPool id a).env := by
  cases hp : c.pool? id with
  | none =>
    rw [onPool_none hp]
    exact .refl c.env
  | some p =>
    rw [onPool_some hp]
    exact ⟨World.steady_act (c.world p) ha, World.onward_step (World.act_step (c.world p) a)⟩

/-- A turn of a task that has no lease. -/
theorem undisturbed_turn (c : Crew) (n : Nat) (hpost : ∀ id lease s, post ≠ .leased id lease s) :
    Undisturbed c.env (c.turn n post).env := by
  cases post with
  | arriving =>
    simp only [turn, arrive]
    split <;> exact .of_eq rfl rfl rfl
  | looking =>
    simp only [turn, look]
    split <;> exact .of_eq rfl rfl rfl
  | asking id topics counts =>
    cases topics with
    | nil =>
      simp only [turn, ask]
      split <;> exact .of_eq rfl rfl rfl
    | cons topic topics =>
      simp only [turn, ask]
      split
      · exact .of_eq rfl rfl rfl
      · rename_i p hp
        have hsteady := p.steady_partitionCount c.env topic
        have honward := p.onward_partitionCount c.env topic
        split <;> rename_i he <;> rw [he] at hsteady honward <;> exact ⟨hsteady, honward⟩
  | rejecting id => exact (c.undisturbed_onPool id rfl).count .backoff
  | installing id => exact .of_eq rfl rfl rfl
  | placing id =>
    simp only [turn, place]
    split <;> exact .of_eq rfl rfl rfl
  | dismissing id existing =>
    cases existing with
    | none => exact (c.undisturbed_onPool id rfl).count .backoff
    | some id' => exact c.undisturbed_onPool id rfl
  | obtaining id =>
    have hrequest := c.undisturbed_onPool id (a := .request c.trigger.sink) rfl
    simp only [turn, obtain]
    split
    · exact hrequest.count .backoff
    · exact hrequest
  | opening id lease =>
    have hsupply := c.undisturbed_onPool id (a := .supply lease) rfl
    simp only [turn, openLease]
    split
    · exact hsupply
    · exact hsupply.count .backoff
  | leased id lease s => exact absurd rfl (hpost id lease s)
  | closing => exact .of_eq rfl rfl rfl
  | taking =>
    simp only [turn, take]
    split <;> exact .of_eq rfl rfl rfl
  | shutting id => exact c.undisturbed_onPool id rfl
  | rousing grace =>
    simp only [turn, rouse]
    split <;> exact .of_eq rfl rfl rfl
  | sparing id deadline next =>
    simp only [turn, spare]
    split
    · exact .of_eq rfl rfl rfl
    · split <;> exact .of_eq rfl rfl rfl
  | gathering id => exact .of_eq rfl rfl rfl
  | waking handles =>
    cases handles with
    | nil => exact .of_eq rfl rfl rfl
    | cons h hs =>
      exact ⟨(c.env.steady_count _).trans (Environment.steady_raise ..),
        Environment.onward_wake h c.env⟩
  | ended o => exact .of_eq rfl rfl rfl
  | closed => exact .of_eq rfl rfl rfl

/-- What a cycle does with its lease in one turn. -/
theorem env_attend (c : Crew) (n : Nat) (id : PoolId) (lease : LeaseId) (s : Stint) :
    (c.attend n id lease s).env.now = (c.onPool? id (c.actOn id lease s)).env.now ∧
      (c.attend n id lease s).env.cluster = (c.onPool? id (c.actOn id lease s)).env.cluster ∧
        (c.attend n id lease s).env.journal = (c.onPool? id (c.actOn id lease s)).env.journal := by
  unfold attend
  dsimp only
  split <;> exact ⟨rfl, rfl, rfl⟩

theorem onward_onPool (c : Crew) (id : PoolId) (a : Action) :
    c.env.Onward (c.onPool id a).env := by
  unfold onPool
  split
  · rename_i p hp
    exact World.onward_step (World.act_step (c.world p) a)
  · exact .refl c.env

theorem onward_turn (c : Crew) (n : Nat) (post : Post) : c.env.Onward (c.turn n post).env := by
  cases post with
  | leased id lease s =>
    obtain ⟨hnow, hcluster, -⟩ := c.env_attend n id lease s
    have hact : c.env.Onward (c.onPool? id (c.actOn id lease s)).env := by
      cases c.actOn id lease s with
      | none => exact .refl c.env
      | some a => exact c.onward_onPool id a
    exact hact.trans (.of_eq hnow hcluster)
  | _ => exact (c.undisturbed_turn n (by rintro _ _ _ ⟨⟩)).onward

theorem onward_act (c : Crew) (d : Doing) : c.env.Onward (c.act d).env := by
  cases d with
  | spawn job => exact .refl c.env
  | turn n =>
    simp only [act]
    split
    · split
      · exact .refl c.env
      · exact c.onward_turn n _
    · exact .refl c.env
  | lose n =>
    simp only [act]
    split <;> exact .refl c.env
  | unschedule => exact .refl c.env
  | onCluster a => exact c.env.onward_apply a
  | advance ms => exact ⟨Nat.le_add_right _ _, rfl⟩
  | wake h => exact Environment.onward_wake h c.env
  | evictIdle =>
    simp only [act]
    split
    · exact c.onward_onPool _ .evictIdle
    · exact .refl c.env

/-! ## What turns come to -/

/-- A task that has no lease gains nothing. -/
theorem gains_of_post (hpost : ∀ id lease s, c.posts.find? n ≠ some (.leased id lease s)) :
    c.gains n = {} := by
  have hcall : c.call? n = none := by
    unfold call?
    split
    · exact absurd ‹_› (hpost _ _ _)
    · rfl
  have hsteady : c.env.Steady (c.act (.turn n)).env := by
    simp only [act]
    split
    · rename_i post hp
      split
      · exact .refl c.env
      · exact (c.undisturbed_turn n fun id lease s h => hpost id lease s (h ▸ hp)).steady
    · exact .refl c.env
  obtain ⟨es, hes, hj⟩ := hsteady.journal
  rw [gains, hcall, hj, since_append, Account.ofRecords_quiet hes]
  rfl

theorem act_turn_leased {id : PoolId} {lease : LeaseId} {s : Stint}
    (hpost : c.posts.find? n = some (.leased id lease s)) :
    c.act (.turn n) = c.attend n id lease s := by
  simp only [act, hpost]
  rfl

/-- If there is nothing to do with a lease, nothing is gained. -/
theorem gains_idle {id : PoolId} {lease : LeaseId} {s : Stint}
    (hpost : c.posts.find? n = some (.leased id lease s)) (ha : c.actOn id lease s = none) :
    c.gains n = {} := by
  have hcall : c.call? n = none := by
    simp only [call?, hpost, ha, Option.map_none]
    cases c.pool? id <;> rfl
  have hj := (c.env_attend n id lease s).2.2
  rw [ha] at hj
  rw [gains, hcall, act_turn_leased hpost, hj]
  show Account.ofRecords (since c.env.journal c.env.journal) [] none = {}
  rw [since_self]
  rfl

/-- What a cycle gains is what the action on its lease comes to. -/
theorem gains_attend {id : PoolId} {lease : LeaseId} {s : Stint} {p : Pool} {a : Action}
    (hpost : c.posts.find? n = some (.leased id lease s)) (hp : c.pool? id = some p)
    (ha : c.actOn id lease s = some a) : c.gains n = (c.world p).gains a := by
  have hcall : c.call? n = some (c.world p, a) := by
    simp only [call?, hpost, ha, hp, Option.bind_some, Option.map_some]
  have hj := (c.env_attend n id lease s).2.2
  rw [ha] at hj
  rw [gains, hcall, act_turn_leased hpost, hj]
  show Account.ofRecords (since c.env.journal (c.onPool id a).env.journal) _ _ = _
  rw [onPool_some hp]
  rfl

/-- Committed offsets change in a turn only through a commit that is accounted for. -/
theorem committed_turn (c : Crew) (n : Nat) :
    (c.act (.turn n)).env.cluster.committed = c.env.cluster.committed ∨
      ∃ offsets, (offsets, .ok ()) ∈ (c.gains n).commits := by
  cases hpost : c.posts.find? n with
  | none =>
    simp only [act, hpost]
    exact .inl trivial
  | some post =>
    cases post with
    | leased id lease s =>
      rw [act_turn_leased hpost, (c.env_attend n id lease s).2.1]
      cases ha : c.actOn id lease s with
      | none => exact .inl rfl
      | some a =>
        cases hp : c.pool? id with
        | none =>
          show (c.onPool id a).env.cluster.committed = _ ∨ _
          rw [onPool_none hp]
          exact .inl rfl
        | some p =>
          rw [gains_attend hpost hp ha]
          show (c.onPool id a).env.cluster.committed = _ ∨ _
          rw [onPool_some hp]
          exact (c.world p).committed_act a
    | _ =>
      simp only [act, hpost]
      split
      · exact .inl rfl
      · exact .inl (c.undisturbed_turn n (by rintro _ _ _ ⟨⟩)).steady.committed

end Crew
end RecordIntake
