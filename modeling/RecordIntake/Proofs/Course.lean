import RecordIntake.Proofs.Account

/-!
How one cycle goes while it has a lease, and how it ends, whatever happens around it.  `Course` says
how the cycle gets from one stint to the next, with the time, the phase of its lease and the account
of its turns so far; `Ends` says how it comes to its outcome.  Between two turns time may pass, and
nothing else that matters to it changes.

That an action on its lease keeps a cycle to this course is said once, in `Course.act`.  Whatever
holds of all cycles is then proved by induction on the course, without a look at other tasks or at
the pool.
-/
namespace RecordIntake

/-- What all cycles of a trigger have in common. -/
structure CycleTerms where
  reader : RecordReader
  settings : IntakeSettings
  sink : String
  /-- The greatest number of messages in one poll. -/
  limit : Nat

namespace Lease

/-- The lease after a poll that left its connection as given, while it has brought nothing yet. -/
def pollingWith (l : Lease) (c : Connection) : Lease := { l with state := .polling, connection := c }

/-- The lease after the messages of a poll were absorbed at some time. -/
def taking (l : Lease) (time : Nat) (ms : List Message) : Lease :=
  { l with
    accumulator := (l.accumulator.receive time ms).1
    ledger := l.ledger.recordAll ms
    received := l.received + ms.length }

/-- The units that are due when the messages of a poll were absorbed. -/
def due (l : Lease) (time : Nat) (ms : List Message) : List Emission :=
  (l.accumulator.receive time ms).2

end Lease

/-- Where a cycle with a lease can be at a time, and what its turns may have come to by then. -/
inductive Course (t : CycleTerms) : Nat → Stint → Phase → Account → Prop where
  | begins {now : Nat} (id : LeaseId) (c : Connection) :
    Course t now .checking (.held (.issue id c t.reader t.settings t.sink now)) {}
  | later {now now' : Nat} {s : Stint} {ph : Phase} {acc : Account}
    (h : Course t now s ph acc) (hnow : now ≤ now') : Course t now' s ph acc
  /-- The trigger is scheduled, or not. -/
  | looks {now : Nat} {l : Lease} {acc : Account} (h : Course t now .checking (.held l) acc)
    (scheduled : Bool) :
    Course t now (if scheduled then .weighing else .settling) (.held l) acc
  | goesOn {now : Nat} {l : Lease} {acc : Account} (h : Course t now .weighing (.held l) acc)
    (hnow : now < l.deadline) (hroom : l.received < l.settings.maxRecords) :
    Course t now .starting (.held l) (acc.add { replies := [.continued true] })
  | stops {now : Nat} {l : Lease} {acc : Account} (h : Course t now .weighing (.held l) acc)
    (state : LeaseState) :
    Course t now .settling (.held { l with state := state })
      (acc.add { replies := [.continued false] })
  /-- A poll has nothing to bring yet. -/
  | waits {now : Nat} {l : Lease} {acc : Account} (h : Course t now .starting (.held l) acc)
    (c : Connection) (deadline : Option Nat)
    (hdeadline : ∀ time, deadline = some time → time = now + l.settings.pollTimeout) :
    Course t now .polling (.waiting (l.pollingWith c) deadline) (acc.add { polls := 1 })
  | brings {now : Nat} {l : Lease} {acc : Account} (h : Course t now .starting (.held l) acc)
    (c : Connection) (time : Nat) {ms : List Message} (hlimit : ms.length ≤ t.limit)
    (hnone : ms = [] → l.settings.pollTimeout = 0) :
    Course t now .polling
      (.emitting ((l.pollingWith c).taking time ms) ((l.pollingWith c).due time ms) .poll)
      (acc.add { polls := 1, polled := ms })
  | timesOut {now deadline : Nat} {l : Lease} {acc : Account}
    (h : Course t now .polling (.waiting l (some deadline)) acc) (hnow : deadline ≤ now)
    (time : Nat) : Course t now .polling (.emitting (l.taking time []) (l.due time []) .poll) acc
  | accepts {now : Nat} {s : Stint} {l : Lease} {e : Emission} {units : List Emission}
    {errand : Errand} {acc : Account}
    (h : Course t now s (.emitting l (e :: units) errand) acc) :
    Course t now s (.emitting l units errand) (acc.add { accepted := [(l.sink, e)] })
  | pollEnds {now : Nat} {l : Lease} {acc : Account}
    (h : Course t now .polling (.emitting l [] .poll) acc) :
    Course t now .checking (.held l) (acc.add { replies := [.polled (.ok ())] })
  | schedules {now : Nat} {l : Lease} {acc : Account} (h : Course t now .settling (.held l) acc) :
    Course t now .committing (.held l) acc
  | flushes {now : Nat} {l : Lease} {acc : Account} (h : Course t now .committing (.held l) acc) :
    Course t now .handing (.emitting l.flush.1 l.flush.2 .commit) acc

/-- How a cycle can come to its outcome, and what its turns come to then. -/
inductive Ends (t : CycleTerms) : CycleOutcome → Account → Prop where
  /-- The trigger was unscheduled. -/
  | unscheduled {now : Nat} {l : Lease} {acc : Account}
    (h : Course t now .settling (.held l) acc) : Ends t .backoff acc
  | pollFails {now : Nat} {l : Lease} {acc : Account} (h : Course t now .starting (.held l) acc)
    (e : IntakeError) :
    Ends t .backoff (acc.add { polls := 1, replies := [.polled (.error e)] })
  | interrupted {now : Nat} {l : Lease} {deadline : Option Nat} {acc : Account}
    (h : Course t now .polling (.waiting l deadline) acc) (e : IntakeError) :
    Ends t .backoff (acc.add { replies := [.polled (.error e)] })
  | refuses {now : Nat} {s : Stint} {l : Lease} {e : Emission} {units : List Emission}
    {errand : Errand} {acc : Account} (h : Course t now s (.emitting l (e :: units) errand) acc)
    (fault : IntakeError) : Ends t .backoff (acc.add { replies := [.failed fault errand] })
  /-- The lease had faulted. -/
  | unusable {now : Nat} {l : Lease} {acc : Account} (h : Course t now .committing (.held l) acc)
    (e : IntakeError) : Ends t .backoff (acc.add { replies := [.committed (.error e)] })
  /-- The commit was interrupted, or refused. -/
  | commitFails {now : Nat} {l : Lease} {acc : Account}
    (h : Course t now .handing (.emitting l [] .commit) acc)
    {commits : List (Offsets × Except IntakeError Unit)} {outcome : Except IntakeError Bool}
    (hcommits : commits = [] ∨ ∃ e, commits = [(l.ledger.committable, .error e)])
    (ho : outcome ≠ .ok true) :
    Ends t .backoff (acc.add { commits := commits, replies := [.committed outcome] })
  | nothingToCommit {now : Nat} {l : Lease} {acc : Account}
    (h : Course t now .handing (.emitting l [] .commit) acc) (hempty : l.ledger.isEmpty = true) :
    Ends t .workPerformed (acc.add { replies := [.committed (.ok true)] })
  | commits {now : Nat} {l : Lease} {acc : Account}
    (h : Course t now .handing (.emitting l [] .commit) acc) :
    Ends t .workPerformed
      (acc.add
        { commits := [(l.ledger.committable, .ok ())], replies := [.committed (.ok true)] })

/-! ## What a poll brings -/

namespace Cluster

theorem length_readFrom_le (log : Array Message) (position : Int) (room : Nat) :
    (readFrom log position room).length ≤ room := by
  unfold readFrom
  split
  · rw [Array.length_toList, Array.size_extract]
    omega
  · exact Nat.zero_le _

theorem length_fetchFrom_le (committed : Offsets) (s : Subscription)
    (logs : List (Partition × Array Message)) (room : Nat) (positions : Offsets) :
    (fetchFrom committed s logs room positions).1.length ≤ room := by
  induction logs generalizing room positions with
  | nil => exact Nat.zero_le _
  | cons e logs ih =>
    obtain ⟨p, log⟩ := e
    simp only [fetchFrom]
    split
    · have hread := length_readFrom_le log ((positions.find? p).getD ((committed.find? p).getD 0)) room
      have hrest := ih (room - (readFrom log ((positions.find? p).getD
        ((committed.find? p).getD 0)) room).length) (positions.insert p
        ((positions.find? p).getD ((committed.find? p).getD 0) + (readFrom log
          ((positions.find? p).getD ((committed.find? p).getD 0)) room).length))
      rw [List.length_append]
      omega
    · exact ih room positions

end Cluster

namespace Environment

/-- A poll brings no more than the cluster allows, and waits for as long as it was asked to if it
has nothing to bring. -/
theorem startPoll_result (env : Environment) (c : Connection) (timeout : Nat) :
    (∀ ms, (env.startPoll c timeout).2.2 = .ended (.ok ms) →
      ms.length ≤ env.cluster.maxPollRecords ∧ (ms = [] → timeout = 0)) ∧
    ∀ time, (env.startPoll c timeout).2.2 = .waiting (some time) → time = env.now + timeout := by
  unfold startPoll
  split
  · exact ⟨nofun, nofun⟩
  · split
    · exact ⟨nofun, nofun⟩
    · split
      · exact ⟨nofun, nofun⟩
      · have hlimit : env.cluster.takeMidwayInterrupt.2.maxPollRecords = env.cluster.maxPollRecords := by
          unfold Cluster.takeMidwayInterrupt
          split <;> rfl
        have hlength : (env.cluster.takeMidwayInterrupt.2.fetch c.subscription c.positions).1.length ≤
            env.cluster.maxPollRecords := by
          rw [← hlimit]
          exact Cluster.length_fetchFrom_le ..
        dsimp only
        split
        · exact ⟨nofun, nofun⟩
        · split
          · rename_i hwaits
            refine ⟨nofun, fun time htime => ?_⟩
            exact (Option.some.inj (Progress.waiting.inj htime)).symm
          · rename_i hbrings
            refine ⟨fun ms hms => ?_, nofun⟩
            obtain rfl := Except.ok.inj (Progress.ended.inj hms)
            refine ⟨hlength, fun hnone => ?_⟩
            rw [hnone] at hbrings
            simpa using hbrings

/-- A poll that was waiting goes on waiting, fails, or its time is over. -/
theorem resumePoll_result (env : Environment) (c : Connection) (deadline : Option Nat) :
    (env.resumePoll c deadline).2 = .waiting deadline ∨
      (∃ e, (env.resumePoll c deadline).2 = .ended (.error e)) ∨
        ∃ time, deadline = some time ∧ time ≤ env.now ∧
          (env.resumePoll c deadline).2 = .ended (.ok []) := by
  unfold resumePoll
  split
  · exact .inr (.inl ⟨_, rfl⟩)
  · cases deadline with
    | none => exact .inl rfl
    | some time =>
      dsimp only
      split
      · exact .inr (.inr ⟨time, rfl, ‹_›, rfl⟩)
      · exact .inl rfl

end Environment

/-- Another poll is worthwhile only as long as there is time and room. -/
theorem Lease.continuePolling_within {l : Lease} {env : Environment}
    (h : (l.continuePolling env).2 = true) :
    env.now < l.deadline ∧ l.received < l.settings.maxRecords := by
  unfold continuePolling at h
  split at h
  · cases h
  · cases h
  all_goals
    split at h
    · cases h
    · split at h
      · rename_i hmore
        simpa using hmore
      · cases h

/-! ## Actions on the lease -/

namespace World

/-- The messages of a poll are absorbed, and what is due is handed on next. -/
theorem phase_endPoll_ok (w : World) (id : LeaseId) (l : Lease) (ms : List Message) :
    (w.endPoll id l (.ok ms)).phases.find? id =
      some (.emitting (l.taking w.env.now ms) (l.due w.env.now ms) .poll) := by
  obtain ⟨env, -, hin⟩ := l.takeIn_ok w.env ms
  unfold endPoll
  rw [hin]
  exact SortedMap.find?_insert_self ..

theorem history_endPoll (w : World) (id : LeaseId) (l : Lease)
    (result : Except IntakeError (List Message)) : (w.endPoll id l result).history = w.history := by
  unfold endPoll
  split <;> rfl

/-- A poll, once the call on its connection came to something. -/
def afterPoll (w : World) (id : LeaseId) (l : Lease) :
    Progress (Except IntakeError (List Message)) → World
  | .waiting deadline => w.setPhase id (.waiting l deadline)
  | .ended result => w.endPoll id l result

theorem poll_eq {w : World} {l : Lease} {env : Environment} {c : Connection}
    {p : Progress (Except IntakeError (List Message))} (hl : l.state ≠ .faulted)
    (hstart : w.env.startPoll l.connection l.settings.pollTimeout = (env, c, p)) (id : LeaseId) :
    w.poll id l =
      (remember { w with env := env } (.read id w.env.cluster l.connection c p.messages)).afterPoll
        id (l.pollingWith c) p := by
  rw [poll, if_neg hl, hstart]
  cases p <;> rfl

/-- Whatever is remembered of a commit, it is no poll. -/
theorem history_finishCommit (w : World) (id : LeaseId) (l : Lease) :
    ∃ os, (w.finishCommit id l).history = os ++ w.history ∧
      ∀ o ∈ os, o.isRead = false ∧ o.messages = [] := by
  unfold finishCommit
  dsimp only
  split
  · split
    · exact ⟨[], rfl, List.forall_mem_nil _⟩
    · exact ⟨[.committed ..], rfl, List.forall_mem_singleton.mpr ⟨rfl, rfl⟩⟩
  · exact ⟨[], rfl, List.forall_mem_nil _⟩

end World

/-- A cycle is on its way, or it has come to its outcome and is about to leave. -/
inductive Heads (t : CycleTerms) (now : Nat) (ph : Phase) (acc : Account) : Stint → Prop where
  | on {s : Stint} (h : Course t now s ph acc) : Heads t now ph acc s
  | out {o : CycleOutcome} (h : Ends t o acc) : Heads t now ph acc (.leaving o)
  | back {o : CycleOutcome} (h : Ends t o acc) : Heads t now ph acc (.returning o)

theorem Heads.later {t : CycleTerms} {now now' : Nat} {ph : Phase} {acc : Account} {s : Stint}
    (h : Heads t now ph acc s) (hnow : now ≤ now') : Heads t now' ph acc s := by
  cases h with
  | on h => exact .on (h.later hnow)
  | out h => exact .out h
  | back h => exact .back h

namespace Course

variable {t : CycleTerms} {now : Nat} {s : Stint} {ph : Phase} {acc : Account} {w : World}
  {id : LeaseId} {l : Lease}

theorem not_leaving (h : Course t now s ph acc) (o : CycleOutcome) :
    s ≠ .leaving o ∧ s ≠ .returning o := by
  induction h with
  | later h hnow ih => exact ih
  | accepts h ih => exact ih
  | looks h scheduled => cases scheduled <;> exact ⟨nofun, nofun⟩
  | _ => exact ⟨nofun, nofun⟩

theorem weigh (h : Course t w.env.now .weighing (.held l) acc)
    (hph : w.phases.find? id = some (.held l)) :
    ∃ ph', (w.act (.continuePolling id)).phases.find? id = some ph' ∧
      Heads t w.env.now ph' (acc.add (w.gains (.continuePolling id)))
        (Stint.weighing.next true (w.reply (.continuePolling id))) := by
  have hact : w.act (.continuePolling id) = w.continuePolling id l := by simp only [World.act, hph]
  have hreply : w.reply (.continuePolling id) = some (.continued (l.continuePolling w.env).2) := by
    simp only [World.reply, hph]
  rw [World.gains_steady [] hact (.refl w.env) rfl hreply, hact, hreply]
  refine ⟨_, SortedMap.find?_insert_self .., ?_⟩
  cases hc : (l.continuePolling w.env).2 with
  | true =>
    obtain ⟨hnow, hroom⟩ := Lease.continuePolling_within hc
    rw [(World.continuePolling_true hc).1]
    exact .on (h.goesOn hnow hroom)
  | false =>
    obtain ⟨state, hstate, -⟩ := l.continuePolling_eq w.env
    rw [hstate]
    exact .on (h.stops state)

theorem poll (h : Course t w.env.now .starting (.held l) acc)
    (hph : w.phases.find? id = some (.held l)) (hl : l.state ≠ .faulted)
    (hlimit : w.env.cluster.maxPollRecords = t.limit) :
    ∃ ph', (w.act (.poll id)).phases.find? id = some ph' ∧
      Heads t w.env.now ph' (acc.add (w.gains (.poll id)))
        (Stint.starting.next true (w.reply (.poll id))) := by
  have hact : w.act (.poll id) = w.poll id l := by simp only [World.act, hph]
  have hreply : w.reply (.poll id) =
      Reply.ofPoll (w.env.startPoll l.connection l.settings.pollTimeout).2.2 := by
    simp only [World.reply, hph, if_neg hl]
  obtain ⟨hbrings, hwaits⟩ := w.env.startPoll_result l.connection l.settings.pollTimeout
  have hsteady := w.steady_poll id l
  cases hstart : w.env.startPoll l.connection l.settings.pollTimeout with
  | mk env rest =>
    obtain ⟨c, p⟩ := rest
    rw [hstart] at hbrings hwaits hreply
    have hpoll := World.poll_eq hl hstart id
    have hhistory : (w.poll id l).history =
        [.read id w.env.cluster l.connection c p.messages] ++ w.history := by
      rw [hpoll]
      cases p with
      | waiting deadline => rfl
      | ended result => exact World.history_endPoll ..
    rw [World.gains_steady _ hact hsteady hhistory hreply, Account.ofRecords_read, hact, hreply, hpoll]
    cases p with
    | waiting deadline =>
      exact ⟨_, SortedMap.find?_insert_self .., .on (h.waits c deadline fun time htime =>
        hwaits time (congrArg Progress.waiting htime))⟩
    | ended result =>
      cases result with
      | error e => exact ⟨_, SortedMap.find?_insert_self .., .out (.pollFails h e)⟩
      | ok ms =>
        obtain ⟨hlength, hnone⟩ := hbrings ms rfl
        exact ⟨_, World.phase_endPoll_ok ..,
          .on (h.brings c env.now (hlimit ▸ hlength) hnone)⟩

theorem resume {deadline : Option Nat} (h : Course t w.env.now .polling (.waiting l deadline) acc)
    (hph : w.phases.find? id = some (.waiting l deadline)) :
    ∃ ph', (w.act (.resume id)).phases.find? id = some ph' ∧
      Heads t w.env.now ph' (acc.add (w.gains (.resume id)))
        (Stint.polling.next true (w.reply (.resume id))) := by
  have hact : w.act (.resume id) = w.resume id l deadline := by simp only [World.act, hph]
  have hreply : w.reply (.resume id) =
      Reply.ofPoll (w.env.resumePoll l.connection deadline).2 := by
    simp only [World.reply, hph]
  have hresult := w.env.resumePoll_result l.connection deadline
  have hsteady := w.steady_resume id l deadline
  cases hresume : w.env.resumePoll l.connection deadline with
  | mk env p =>
    rw [hresume] at hresult hreply
    have hhistory : (w.resume id l deadline).history = [] ++ w.history := by
      rw [World.resume, hresume]
      cases p with
      | waiting deadline => rfl
      | ended result => exact World.history_endPoll ..
    rw [World.gains_steady [] hact hsteady hhistory hreply, hact, hreply, World.resume, hresume]
    obtain hp | ⟨e, hp⟩ | ⟨time, rfl, htime, hp⟩ := hresult <;> obtain rfl : p = _ := hp
    · exact ⟨_, SortedMap.find?_insert_self .., .on (acc.add_empty.symm ▸ h)⟩
    · exact ⟨_, SortedMap.find?_insert_self .., .out (.interrupted h e)⟩
    · exact ⟨_, World.phase_endPoll_ok .., .on (acc.add_empty.symm ▸ h.timesOut htime env.now)⟩

/-- A unit is handed on, or refused. -/
theorem emit {e : Emission} {units : List Emission} {errand : Errand}
    (h : Course t w.env.now s (.emitting l (e :: units) errand) acc)
    (hph : w.phases.find? id = some (.emitting l (e :: units) errand)) :
    (w.reply (.emit id) = none ∧
      (w.act (.emit id)).phases.find? id = some (.emitting l units errand) ∧
        Course t w.env.now s (.emitting l units errand) (acc.add (w.gains (.emit id)))) ∨
    ∃ fault l', w.reply (.emit id) = some (.failed fault errand) ∧
      (w.act (.emit id)).phases.find? id = some (.held l') ∧
        Ends t .backoff (acc.add (w.gains (.emit id))) := by
  cases hone : l.emitOne w.env e with
  | mk env rest =>
    obtain ⟨l', outcome⟩ := rest
    cases outcome with
    | ok u =>
      obtain ⟨rfl, -, hj⟩ := Lease.emitOne_ok hone
      have hact : w.act (.emit id) =
          { w with env := env }.setPhase id (.emitting l' units errand) := by
        simp only [World.act, hph, World.emit, hone]
      have hreply : w.reply (.emit id) = none := by simp only [World.reply, hph, hone]
      rw [World.gains_eq [.emitted l'.sink e] [] hact hj rfl hreply, hact, hreply]
      exact .inl ⟨rfl, SortedMap.find?_insert_self .., h.accepts⟩
    | error fault =>
      obtain ⟨rfl, hsteady⟩ := Lease.emitOne_error hone
      have hact : w.act (.emit id) =
          { w with env := env }.setPhase id (.held (l.fault Lease.sinkFailure)) := by
        simp only [World.act, hph, World.emit, hone]
      have hreply : w.reply (.emit id) = some (.failed fault errand) := by
        simp only [World.reply, hph, hone]
      rw [World.gains_steady [] hact hsteady rfl hreply, hact, hreply]
      exact .inr ⟨fault, _, rfl, SortedMap.find?_insert_self .., .refuses h fault⟩

/-- All units of a poll were handed on. -/
theorem endPoll (h : Course t w.env.now .polling (.emitting l [] .poll) acc)
    (hph : w.phases.find? id = some (.emitting l [] .poll)) :
    ∃ ph', (w.act (.emit id)).phases.find? id = some ph' ∧
      Heads t w.env.now ph' (acc.add (w.gains (.emit id)))
        (Stint.polling.next true (w.reply (.emit id))) := by
  have hact : w.act (.emit id) = w.setPhase id (.held l) := by
    simp only [World.act, hph, World.emit]
  have hreply : w.reply (.emit id) = some (.polled (.ok ())) := by simp only [World.reply, hph]
  rw [World.gains_steady [] hact (.refl w.env) rfl hreply, hact, hreply]
  exact ⟨_, SortedMap.find?_insert_self .., .on h.pollEnds⟩

theorem commit (h : Course t w.env.now .committing (.held l) acc)
    (hph : w.phases.find? id = some (.held l)) :
    ∃ ph', (w.act (.commit id)).phases.find? id = some ph' ∧
      Heads t w.env.now ph' (acc.add (w.gains (.commit id)))
        (Stint.committing.next true (w.reply (.commit id))) := by
  by_cases hl : l.state = .faulted
  · have hact : w.act (.commit id) = w := by simp only [World.act, hph, World.commit, if_pos hl]
    have hreply : w.reply (.commit id) = some (.committed (.error l.unusable)) := by
      simp only [World.reply, hph, if_pos hl]
    rw [World.gains_steady [] hact (.refl w.env) rfl hreply, hact, hreply]
    exact ⟨_, hph, .out (.unusable h _)⟩
  · have hact : w.act (.commit id) = w.setPhase id (.emitting l.flush.1 l.flush.2 .commit) := by
      simp only [World.act, hph, World.commit, if_neg hl]
    have hreply : w.reply (.commit id) = none := by simp only [World.reply, hph, if_neg hl]
    rw [World.gains_steady [] hact (.refl w.env) rfl hreply, hact, hreply]
    exact ⟨_, SortedMap.find?_insert_self .., .on (acc.add_empty.symm ▸ h.flushes)⟩

/-- Everything was handed on, and the offsets are committed. -/
theorem finish (h : Course t w.env.now .handing (.emitting l [] .commit) acc)
    (hph : w.phases.find? id = some (.emitting l [] .commit)) :
    ∃ ph', (w.act (.emit id)).phases.find? id = some ph' ∧
      Heads t w.env.now ph' (acc.add (w.gains (.emit id)))
        (Stint.handing.next true (w.reply (.emit id))) := by
  have hact : w.act (.emit id) = w.finishCommit id l := by
    simp only [World.act, hph, World.emit]
  have hreply : w.reply (.emit id) = some (.committed (l.finishCommit w.env).2.2) := by
    simp only [World.reply, hph]
  have hdone := (World.at_finishCommit w id l).phase
  have henv := (World.at_finishCommit w id l).env
  obtain ⟨os, hh, hos⟩ := w.history_finishCommit id l
  have hcommits := l.finishCommit_commits w.env
  have hgains : ∀ es, (w.finishCommit id l).env.journal = es ++ w.env.journal →
      w.gains (.emit id) = .ofRecords es os (some (.committed (l.finishCommit w.env).2.2)) :=
    fun es hj => World.gains_eq es os hact hj hh hreply
  rw [henv] at hgains
  refine ⟨_, hact ▸ hdone, ?_⟩
  rw [hreply]
  generalize (l.finishCommit w.env).1 = env, (l.finishCommit w.env).2.1 = l',
    (l.finishCommit w.env).2.2 = outcome at hgains hcommits ⊢
  have hone : ∀ es, Account.ofRecords es os (some (.committed outcome)) =
      .ofRecords es [] (some (.committed outcome)) := fun es => Account.ofRecords_unread hos es _
  cases hcommits with
  | interrupted =>
    rw [hgains [] rfl, hone]
    exact .out (.commitFails h (.inl rfl) (by rintro ⟨⟩))
  | empty hempty =>
    rw [hgains [] rfl, hone]
    exact .out (.nothingToCommit h hempty)
  | done env' hempty hlogs hj hc now =>
    rw [hgains [_] hj, hone]
    exact .out (.commits h)
  | @refused env' e outcome hlogs hj hc ho =>
    rw [hgains [_] hj, hone]
    have hnext : Stint.handing.next true (some (.committed outcome)) = .leaving .backoff := by
      cases outcome with
      | error e => rfl
      | ok b =>
        cases b with
        | false => rfl
        | true => exact absurd rfl ho
    rw [hnext]
    exact .out (.commitFails h (.inr ⟨e, rfl⟩) ho)

/-- Whatever a cycle does with its lease, it keeps to its course or comes to its outcome. -/
theorem act {a : Action} (h : Course t w.env.now s ph acc) (hph : w.phases.find? id = some ph)
    (hfits : s.Fits ph) (ha : s.action? id ph.isWaiting = some a)
    (hlimit : w.env.cluster.maxPollRecords = t.limit) (scheduled : Bool) :
    ∃ ph', (w.act a).phases.find? id = some ph' ∧
      Heads t w.env.now ph' (acc.add (w.gains a)) (s.next scheduled (w.reply a)) := by
  cases hfits with
  | checking l => cases ha
  | settling l => cases ha
  | leaving o l => exact absurd rfl (h.not_leaving o).1
  | returning o c discard => exact absurd rfl (h.not_leaving o).2
  | weighing l =>
    cases ha
    exact h.weigh hph
  | starting hl =>
    cases ha
    exact h.poll hph hl hlimit
  | waiting l deadline =>
    obtain rfl : Action.resume id = a := Option.some.inj ha
    exact h.resume hph
  | receiving l units =>
    obtain rfl : Action.emit id = a := Option.some.inj ha
    cases units with
    | nil => exact h.endPoll hph
    | cons e units =>
      obtain ⟨hr, hph', h'⟩ | ⟨fault, l', hr, hph', h'⟩ := h.emit hph <;> rw [hr]
      · exact ⟨_, hph', .on h'⟩
      · exact ⟨_, hph', .out h'⟩
  | committing l =>
    cases ha
    exact h.commit hph
  | handing l units =>
    cases ha
    cases units with
    | nil => exact h.finish hph
    | cons e units =>
      obtain ⟨hr, hph', h'⟩ | ⟨fault, l', hr, hph', h'⟩ := h.emit hph <;> rw [hr]
      · exact ⟨_, hph', .on h'⟩
      · exact ⟨_, hph', .out h'⟩

end Course

namespace World

variable {w : World} {id : LeaseId}

/-- A lease that is given up, or given back, gains nothing by that. -/
theorem gains_leave (w : World) (id : LeaseId) :
    w.gains (.abandon id) = {} ∧ w.gains (.checkIn id) = {} := by
  have habandon : (w.act (.abandon id)).history = [] ++ w.history := by
    simp only [act]
    split <;> rfl
  obtain ⟨os, hcheckIn, hos⟩ : ∃ os, (w.act (.checkIn id)).history = os ++ w.history ∧
      ∀ o ∈ os, o.isRead = false ∧ o.messages = [] := by
    simp only [act]
    split
    · unfold checkIn
      dsimp only
      split
      · exact ⟨[], rfl, List.forall_mem_nil _⟩
      · exact ⟨[.returned ..], rfl, List.forall_mem_singleton.mpr ⟨rfl, rfl⟩⟩
    · exact ⟨[], rfl, List.forall_mem_nil _⟩
  constructor
  · exact gains_steady [] rfl (steady_act w (a := .abandon id) rfl) habandon rfl
  · rw [gains_steady os rfl (steady_act w (a := .checkIn id) rfl) hcheckIn rfl,
      Account.ofRecords_unread hos]
    rfl

/-- A lease that was to be opened is as new, or it is over. -/
theorem phase_supply_issued {o : Offer} {sink : String}
    (hph : w.phases.find? id = some (.opening o sink)) :
    (∃ c, (w.act (.supply id)).phases.find? id = some (.held (.issue o.lease c w.pool.reader
      w.pool.settings sink (w.act (.supply id)).env.now))) ∨
      (w.act (.supply id)).phases.find? id = some .ended := by
  simp only [act, hph]
  unfold supply
  split
  · rename_i env p l he
    obtain ⟨rfl, c, -, rfl⟩ := Pool.finishObtain_ok he
    exact .inl ⟨c, SortedMap.find?_insert_self ..⟩
  · exact .inr (SortedMap.find?_insert_self ..)

end World
end RecordIntake
