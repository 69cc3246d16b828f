import RecordIntake.Proofs.Dealing

/-!
Which signals are raised.  A wakeup raises one, and it stays raised until the lease on its
connection takes it with a poll, which fails for it, or gives the connection back.
-/
namespace RecordIntake
namespace Environment

theorem isRaised_eq (env : Environment) (s : Signal) : env.isRaised s = decide (s ∈ env.raised) :=
  List.contains_eq_mem s env.raised

theorem isRaised_congr {env env' : Environment} (h : env'.raised = env.raised) (s : Signal) :
    env'.isRaised s = env.isRaised s := by
  rw [isRaised, h]
  rfl

theorem isRaised_raise (env : Environment) (s t : Signal) :
    (env.raise s).isRaised t = (env.isRaised t || decide (t = s)) := by
  unfold raise
  split
  · rename_i hs
    by_cases ht : t = s
    · rw [ht, hs]
      rfl
    · simp [ht]
  · simp [isRaised_eq]

theorem isRaised_lower (env : Environment) (s t : Signal) :
    (env.lower s).isRaised t = (env.isRaised t && decide (t ≠ s)) := by
  simp [isRaised_eq, lower]

theorem isRaised_wake (h : LeaseHandle) (env : Environment) (t : Signal) :
    (h.wake env).isRaised t = (env.isRaised t || decide (t = h.signal)) :=
  isRaised_raise (env.count .wakeups) h.signal t

/-! ## Calls -/

theorem raised_takeFault {env env' : Environment} {call : Call} {e : IntakeError}
    (h : env.takeFault call = some (e, env')) : env'.raised = env.raised := by
  obtain ⟨faults, rfl⟩ := takeFault_eq h
  rfl

theorem raised_connect (env : Environment) (signal : Signal) (s : Subscription) :
    (env.connect signal s).1.raised = env.raised := rfl

theorem raised_disconnectAll (env : Environment) (cs : List Connection) (why : ConnectionEvent) :
    (env.disconnectAll cs why).raised = env.raised := by
  induction cs generalizing env with
  | nil => rfl
  | cons c cs ih => exact ih (env.disconnect c why)

theorem raised_partitionCount (env : Environment) (c : Connection) (topic : String) :
    (env.partitionCount c topic).1.raised = env.raised := by
  unfold partitionCount
  split
  · rename_i e env₁ h
    have hraised := raised_takeFault h
    exact hraised
  · rfl

theorem raised_emit (env : Environment) (name : String) (e : Emission) :
    (env.emit name e).1.raised = env.raised := by
  unfold emit
  dsimp only
  split <;> rfl

theorem raised_commit (env : Environment) (c : Connection) (offsets : Offsets) :
    (env.commit c offsets).1.raised = env.raised := by
  unfold commit
  split
  · rename_i e env₁ h
    have hraised := raised_takeFault h
    exact hraised
  · rfl

theorem raised_rewind (env : Environment) (c : Connection) (positions : Offsets) :
    (env.rewind c positions).1.raised = env.raised := by
  unfold rewind
  split
  · rename_i e env₁ h
    have hraised := raised_takeFault h
    exact hraised
  · rfl

theorem raised_apply (env : Environment) (a : Scenario.ClusterAction) :
    (a.apply env).1.raised = env.raised := by
  cases a <;> rfl

/-- A poll that takes a signal fails for it. -/
theorem raised_startPoll (env : Environment) (c : Connection) (timeout : Nat) :
    (env.startPoll c timeout).1.raised = env.raised ∨
      env.startPoll c timeout = (env.lower c.signal, c, .ended (.error .interrupted)) := by
  unfold startPoll
  split
  · exact .inl (raised_takeFault ‹_›)
  · split
    · exact .inr rfl
    · left
      split
      · rfl
      · dsimp only
        split
        · rfl
        · split <;> rfl

theorem raised_resumePoll (env : Environment) (c : Connection) (deadline : Option Nat) :
    (env.resumePoll c deadline).1.raised = env.raised ∨
      env.resumePoll c deadline = (env.lower c.signal, .ended (.error .interrupted)) := by
  unfold resumePoll
  split
  · exact .inr rfl
  · left
    split
    · rfl
    · split <;> rfl

end Environment

namespace Lease

theorem raised_takeIn (l : Lease) (env : Environment)
    (result : Except IntakeError (List Message)) :
    (l.takeIn env result).1.raised = env.raised := by
  cases result with
  | error e => rfl
  | ok ms =>
    obtain ⟨metrics, h⟩ := l.receive_eq (env.note (.polled l.connection.id (.ok ms.length))) ms
    show (l.receive (env.note (.polled l.connection.id (.ok ms.length))) ms).1.raised = _
    rw [h]
    rfl

theorem raised_emitOne (l : Lease) (env : Environment) (e : Emission) :
    (l.emitOne env e).1.raised = env.raised := by
  have h := env.raised_emit l.sink e
  unfold emitOne
  split <;> rename_i he <;> rw [he] at h <;> exact h

theorem raised_finishCommit (l : Lease) (env : Environment) :
    (l.finishCommit env).1.raised = env.raised := by
  have h := env.raised_commit l.connection l.ledger.committable
  unfold finishCommit
  split
  · rfl
  · split
    · rfl
    · unfold commitLedger
      split <;> rename_i he <;> rw [he] at h <;> exact h

theorem raised_abandon (l : Lease) (env : Environment) :
    (l.abandon env).1.raised = env.raised := by
  unfold abandon
  split
  · rfl
  · dsimp only
    split
    · rfl
    · have h := Environment.raised_rewind
        { env with metrics := env.metrics.add .messagesDiscarded l.ledger.count } l.connection
        l.ledger.rewindPositions
      split <;> rename_i he <;> rw [he] at h <;> exact h

end Lease

namespace Pool

theorem raised_openConnection (p : Pool) (env : Environment) (signal : Signal)
    (partition : Option Partition) :
    (p.openConnection env signal partition).1.raised = env.raised := by
  have h := env.raised_connect signal (p.connectionSubscription partition)
  unfold openConnection
  split <;> rename_i he <;> rw [he] at h <;> exact h

theorem raised_startObtain (p : Pool) (env : Environment) :
    (p.startObtain env).1.raised = env.raised := by
  unfold startObtain
  split
  · rfl
  · split
    split
    · exact Environment.raised_disconnectAll ..
    · exact (Environment.raised_disconnectAll ..).trans (Environment.raised_disconnectAll ..)

theorem raised_query (p : Pool) (env : Environment) (s : Supply) :
    (Supply.query p env s).1.raised = env.raised := by
  cases s with
  | idle i => rfl
  | fresh signal partition =>
    have h := p.raised_openConnection env signal partition
    unfold Supply.query
    dsimp only
    split <;> rename_i he <;> rw [he] at h <;> exact h

theorem raised_finishObtain (p : Pool) (env : Environment) (o : Offer) (sink : String) :
    (p.finishObtain env o sink).1.raised = env.raised := by
  have h : (Supply.connection p env o.supply).1.raised = env.raised := by
    cases o.supply with
    | idle i => rfl
    | fresh signal partition => exact p.raised_openConnection env signal partition
  unfold finishObtain
  split <;> rename_i he <;> rw [he] at h <;> exact h

theorem raised_returnQuery (p : Pool) (env : Environment) (q : Query) (faulty : Bool) :
    (p.returnQuery env q faulty).1.raised = env.raised := by
  unfold returnQuery
  split <;> rfl

theorem raised_partitionCount (p : Pool) (env : Environment) (topic : String) :
    (p.partitionCount env topic).1.raised = env.raised := by
  unfold partitionCount startQuery
  cases p.supplyQuery with
  | mk p' s =>
    cases s with
    | none => rfl
    | some s =>
      have h := p'.raised_query env s
      dsimp only
      cases hquery : Supply.query p' env s with
      | mk env' result =>
        rw [hquery] at h
        cases result with
        | error e => exact h
        | ok q =>
          have hasked := env'.raised_partitionCount q.connection topic
          exact (p'.raised_returnQuery _ q _).trans (hasked.trans h)

/-- A connection that is kept comes back with its signal lowered. -/
theorem raised_checkIn (p : Pool) (env : Environment) (lease : LeaseId) (c : Connection)
    (discard : Bool) :
    (p.checkIn env lease (some c) discard).1.raised =
      if (discard || p.closed) = true then env.raised else (env.lower c.signal).raised := by
  unfold checkIn
  cases hd : discard || p.closed with
  | true =>
    simp only [takeBack, hd, if_true]
    rfl
  | false =>
    simp only [takeBack, hd, Bool.false_eq_true, if_false]
    rfl

end Pool

/-! ## Every step -/

namespace World

/-- What an action can do to the signals. -/
inductive Signals (w : World) : Action → World → Prop where
  | keeps {a : Action} {w' : World} (h : w'.env.raised = w.env.raised) : Signals w a w'
  | wakes (h : LeaseHandle) : Signals w (.wake h) { w with env := h.wake w.env }
  /-- A poll fails for the signal of its lease. -/
  | takes {a : Action} {w' : World} {id : LeaseId} {ph : Phase} {l l' : Lease}
    (hph : w.phases.find? id = some ph) (hl : ph.lease? = some l)
    (hph' : w'.phases.find? id = some (.held l')) (hfault : l'.state = .faulted)
    (h : w'.env.raised = (w.env.lower l.connection.signal).raised) : Signals w a w'
  | returns {a : Action} {w' : World} {id : LeaseId} {c : Connection} {discard : Bool}
    (hph : w.phases.find? id = some (.returning c discard))
    (hph' : w'.phases.find? id = some .ended)
    (h : w'.env.raised = (w.env.lower c.signal).raised) : Signals w a w'

variable {w : World} {a : Action}

theorem raised_endPoll (w : World) (id : LeaseId) (l : Lease)
    (result : Except IntakeError (List Message)) :
    (w.endPoll id l result).env.raised = w.env.raised := by
  have h := l.raised_takeIn w.env result
  unfold endPoll
  split <;> rename_i he <;> rw [he] at h <;> exact h

theorem signals_poll {id : LeaseId} {l : Lease} (hph : w.phases.find? id = some (.held l)) :
    Signals w a (w.poll id l) := by
  unfold poll
  split
  · exact .keeps rfl
  · obtain h | h := w.env.raised_startPoll l.connection l.settings.pollTimeout
    · split
      rename_i env c p he
      rw [he] at h
      dsimp only
      split
      · exact .keeps h
      · exact .keeps ((raised_endPoll ..).trans h)
    · rw [h]
      exact .takes hph rfl (SortedMap.find?_insert_self ..) rfl rfl

theorem signals_resume {id : LeaseId} {l : Lease} {deadline : Option Nat}
    (hph : w.phases.find? id = some (.waiting l deadline)) :
    Signals w a (w.resume id l deadline) := by
  unfold resume
  obtain h | h := w.env.raised_resumePoll l.connection deadline
  · split <;> rename_i he <;> rw [he] at h
    · exact .keeps h
    · exact .keeps ((raised_endPoll ..).trans h)
  · rw [h]
    exact .takes hph rfl (SortedMap.find?_insert_self ..) rfl rfl

theorem raised_emission (w : World) (id : LeaseId) (l : Lease) (units : List Emission)
    (errand : Errand) : (w.emit id l units errand).env.raised = w.env.raised := by
  unfold emit
  split
  · rename_i e units
    have h := l.raised_emitOne w.env e
    split <;> rename_i he <;> rw [he] at h <;> exact h
  · rfl
  · have h := l.raised_finishCommit w.env
    unfold finishCommit
    split
    rename_i env l' outcome he
    rw [he] at h
    dsimp only
    split
    · split
      · exact h
      · exact h
    · exact h

theorem signals_checkIn {id : LeaseId} {c : Connection} {discard : Bool}
    (hph : w.phases.find? id = some (.returning c discard)) :
    Signals w a (w.checkIn id c discard) := by
  have h := w.pool.raised_checkIn w.env id c discard
  unfold checkIn
  dsimp only
  split
  · rw [if_pos ‹_›] at h
    exact .keeps h
  · rw [if_neg ‹_›] at h
    exact .returns hph (SortedMap.find?_insert_self ..) h

theorem signals_of_act (w : World) (a : Action) : Signals w a (w.act a) := by
  cases a with
  | onCluster a =>
    simp only [act, onCluster]
    split
    · exact .keeps (w.env.raised_apply a)
    · exact .keeps rfl
  | advance ms => exact .keeps rfl
  | wake h => exact .wakes h
  | evictIdle => exact .keeps (Environment.raised_disconnectAll ..)
  | close => exact .keeps (Environment.raised_disconnectAll ..)
  | request sink =>
    have h := w.pool.raised_startObtain w.env
    simp only [act, request]
    split <;> rename_i he <;> rw [he] at h <;> exact .keeps h
  | supply id =>
    simp only [act]
    split
    · rename_i o sink hph
      have h := w.pool.raised_finishObtain w.env o sink
      unfold supply
      split <;> rename_i he <;> rw [he] at h <;> exact .keeps h
    · exact .keeps rfl
  | continuePolling id =>
    simp only [act]
    split <;> exact .keeps rfl
  | poll id =>
    simp only [act]
    split
    · exact signals_poll ‹_›
    · exact .keeps rfl
  | resume id =>
    simp only [act]
    split
    · exact signals_resume ‹_›
    · exact .keeps rfl
  | commit id =>
    simp only [act]
    split
    · unfold commit
      split <;> exact .keeps rfl
    · exact .keeps rfl
  | emit id =>
    simp only [act]
    split
    · exact .keeps (raised_emission ..)
    · exact .keeps rfl
  | abandon id =>
    simp only [act]
    split
    · rename_i l hl
      exact .keeps (l.raised_abandon w.env)
    · exact .keeps rfl
  | checkIn id =>
    simp only [act]
    split
    · exact signals_checkIn ‹_›
    · exact .keeps rfl
  | inquire =>
    simp only [act, inquire]
    split <;> exact .keeps rfl
  | connect i =>
    simp only [act]
    split
    · rename_i s hx
      have h := w.pool.raised_query w.env s
      unfold connect
      split <;> rename_i he <;> rw [he] at h <;> exact .keeps h
    · exact .keeps rfl
  | ask i topic =>
    simp only [act]
    split
    · rename_i q hx
      exact .keeps (w.env.raised_partitionCount q.connection topic)
    · exact .keeps rfl
  | putBack i =>
    simp only [act]
    split
    · rename_i q faulty hx
      exact .keeps (w.pool.raised_returnQuery w.env q faulty)
    · exact .keeps rfl

/-- Only a wakeup raises a signal. -/
theorem isRaised_act {s : Signal} (h : (w.act a).env.isRaised s = true) :
    w.env.isRaised s = true ∨ ∃ handle : LeaseHandle, a = .wake handle ∧ handle.signal = s := by
  have hsignals := signals_of_act w a
  generalize w.act a = w' at h hsignals
  cases hsignals with
  | keeps hr => exact .inl ((Environment.isRaised_congr hr s).symm.trans h)
  | wakes handle =>
    have hwoken : ((w.env.count .wakeups).raise handle.signal).isRaised s = true := h
    rw [Environment.isRaised_raise, Bool.or_eq_true, decide_eq_true_eq] at hwoken
    obtain hraised | rfl := hwoken
    · exact .inl hraised
    · exact .inr ⟨handle, rfl, rfl⟩
  | takes hph hl hph' hfault hr =>
    rw [Environment.isRaised_congr hr, Environment.isRaised_lower, Bool.and_eq_true] at h
    exact .inl h.1
  | returns hph hph' hr =>
    rw [Environment.isRaised_congr hr, Environment.isRaised_lower, Bool.and_eq_true] at h
    exact .inl h.1

end World
end RecordIntake
