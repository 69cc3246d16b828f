import RecordIntake.Proofs.Signals

/-!
The clock only goes on, and the number of messages that one poll may bring stays what it was.  Both
hold whatever is done: no call turns the clock back, and none asks the cluster for more at a time.
-/
namespace RecordIntake
namespace Environment

/-- The second environment is not earlier, and polls bring as much there as in the first. -/
structure Onward (env env' : Environment) : Prop where
  now : env.now ≤ env'.now
  limit : env'.cluster.maxPollRecords = env.cluster.maxPollRecords

theorem Onward.refl (env : Environment) : Onward env env := ⟨Nat.le_refl _, rfl⟩

theorem Onward.trans {a b c : Environment} (h : Onward a b) (h' : Onward b c) : Onward a c :=
  ⟨Nat.le_trans h.now h'.now, h'.limit.trans h.limit⟩

/-- Neither time has passed nor has the cluster changed. -/
theorem Onward.of_eq {env env' : Environment} (hnow : env'.now = env.now)
    (hcluster : env'.cluster = env.cluster) : Onward env env' :=
  ⟨Nat.le_of_eq hnow.symm, by rw [hcluster]⟩

/-! ## Calls -/

theorem onward_wake (h : LeaseHandle) (env : Environment) : Onward env (h.wake env) := by
  unfold LeaseHandle.wake raise
  split <;> exact .of_eq rfl rfl

theorem onward_takeFault {env env' : Environment} {call : Call} {e : IntakeError}
    (h : env.takeFault call = some (e, env')) : Onward env env' := by
  obtain ⟨faults, rfl⟩ := takeFault_eq h
  exact .of_eq rfl rfl

theorem onward_connect (env : Environment) (signal : Signal) (s : Subscription) :
    Onward env (env.connect signal s).1 := by
  refine ⟨Nat.le_refl _, ?_⟩
  show env.cluster.connect.1.maxPollRecords = _
  unfold Cluster.connect
  split <;> rfl

theorem onward_disconnectAll (env : Environment) (cs : List Connection) (why : ConnectionEvent) :
    Onward env (env.disconnectAll cs why) := by
  induction cs generalizing env with
  | nil => exact .refl env
  | cons c cs ih =>
    have hone : Onward env (env.disconnect c why) := ⟨Nat.le_refl _, rfl⟩
    exact hone.trans (ih _)

theorem onward_startPoll (env : Environment) (c : Connection) (timeout : Nat) :
    Onward env (env.startPoll c timeout).1 := by
  have hmidway : Onward env { env with cluster := env.cluster.takeMidwayInterrupt.2 } := by
    refine ⟨Nat.le_refl _, ?_⟩
    show env.cluster.takeMidwayInterrupt.2.maxPollRecords = _
    unfold Cluster.takeMidwayInterrupt
    split <;> rfl
  unfold startPoll
  split
  · exact onward_takeFault ‹_›
  · split
    · exact .of_eq rfl rfl
    · split
      · exact .refl env
      · dsimp only
        split
        · exact hmidway
        · split <;> exact hmidway

theorem onward_resumePoll (env : Environment) (c : Connection) (deadline : Option Nat) :
    Onward env (env.resumePoll c deadline).1 := by
  unfold resumePoll
  split
  · exact .of_eq rfl rfl
  · split
    · exact .refl env
    · split <;> exact .refl env

theorem onward_commit (env : Environment) (c : Connection) (offsets : Offsets) :
    Onward env (env.commit c offsets).1 := by
  unfold commit
  split
  · rename_i e env₁ h
    exact (onward_takeFault h).trans (.of_eq rfl rfl)
  · refine ⟨Nat.le_refl _, ?_⟩
    show (env.cluster.commit offsets).1.maxPollRecords = _
    unfold Cluster.commit
    dsimp only
    split <;> rfl

theorem onward_rewind (env : Environment) (c : Connection) (positions : Offsets) :
    Onward env (env.rewind c positions).1 := by
  unfold rewind
  split
  · rename_i e env₁ h
    exact (onward_takeFault h).trans (.of_eq rfl rfl)
  · exact .of_eq rfl rfl

theorem onward_partitionCount (env : Environment) (c : Connection) (topic : String) :
    Onward env (env.partitionCount c topic).1 := by
  unfold partitionCount
  split
  · rename_i e env₁ h
    exact (onward_takeFault h).trans (.of_eq rfl rfl)
  · exact .of_eq rfl rfl

theorem onward_emit (env : Environment) (name : String) (e : Emission) :
    Onward env (env.emit name e).1 := by
  unfold emit
  dsimp only
  split <;> exact .of_eq rfl rfl

theorem onward_apply (env : Environment) (a : Scenario.ClusterAction) :
    Onward env (a.apply env).1 := by
  refine ⟨(env.retains_apply a).now, ?_⟩
  cases a with
  | produceMany ms =>
    show (env.cluster.produceAll ms).1.maxPollRecords = _
    generalize env.cluster = c
    induction ms generalizing c with
    | nil => rfl
    | cons m ms ih => exact ih (c.produce m).1
  | _ => rfl

end Environment

open Environment (Onward)

namespace Lease

theorem onward_takeIn (l : Lease) (env : Environment)
    (result : Except IntakeError (List Message)) : Onward env (l.takeIn env result).1 := by
  cases result with
  | error e => exact .of_eq rfl rfl
  | ok ms =>
    obtain ⟨metrics, h⟩ := l.receive_eq (env.note (.polled l.connection.id (.ok ms.length))) ms
    show Onward env (l.receive (env.note (.polled l.connection.id (.ok ms.length))) ms).1
    rw [h]
    exact .of_eq rfl rfl

theorem onward_emitOne (l : Lease) (env : Environment) (e : Emission) :
    Onward env (l.emitOne env e).1 := by
  have h := env.onward_emit l.sink e
  unfold emitOne
  split <;> rename_i he <;> rw [he] at h <;> exact h

theorem onward_finishCommit (l : Lease) (env : Environment) :
    Onward env (l.finishCommit env).1 := by
  have h := env.onward_commit l.connection l.ledger.committable
  unfold finishCommit
  split
  · exact .refl env
  · split
    · exact .refl env
    · unfold commitLedger
      split <;> rename_i he <;> rw [he] at h <;> exact h.trans (.of_eq rfl rfl)

theorem onward_abandon (l : Lease) (env : Environment) : Onward env (l.abandon env).1 := by
  unfold abandon
  split
  · exact .refl env
  · dsimp only
    split
    · exact .of_eq rfl rfl
    · have hcounted : Onward env
          { env with metrics := env.metrics.add .messagesDiscarded l.ledger.count } :=
        .of_eq rfl rfl
      have h := hcounted.trans
        (Environment.onward_rewind _ l.connection l.ledger.rewindPositions)
      split <;> rename_i he <;> rw [he] at h <;> exact h

end Lease

namespace Pool

theorem onward_openConnection (p : Pool) (env : Environment) (signal : Signal)
    (partition : Option Partition) : Onward env (p.openConnection env signal partition).1 := by
  have h := env.onward_connect signal (p.connectionSubscription partition)
  unfold openConnection
  split <;> rename_i he <;> rw [he] at h
  · exact h.trans (.of_eq rfl rfl)
  · exact h

theorem onward_startObtain (p : Pool) (env : Environment) :
    Onward env (p.startObtain env).1 := by
  unfold startObtain
  split
  · exact .refl env
  · split
    split
    · exact (Environment.onward_disconnectAll ..).trans (.of_eq rfl rfl)
    · rename_i p' o _
      have hgauge : Onward env (p'.gaugeOutstanding env) := .of_eq rfl rfl
      exact (hgauge.trans (Environment.onward_disconnectAll ..)).trans
        (Environment.onward_disconnectAll ..)

theorem onward_checkIn (p : Pool) (env : Environment) (lease : LeaseId) (c : Option Connection)
    (discard : Bool) : Onward env (p.checkIn env lease c discard).1 := by
  unfold checkIn
  dsimp only
  split
  · exact .of_eq rfl rfl
  · exact ⟨Nat.le_refl _, rfl⟩
  · exact .of_eq rfl rfl

theorem onward_finishObtain (p : Pool) (env : Environment) (o : Offer) (sink : String) :
    Onward env (p.finishObtain env o sink).1 := by
  have h : Onward env (Supply.connection p env o.supply).1 := by
    cases o.supply with
    | idle i => exact .refl env
    | fresh signal partition => exact p.onward_openConnection env signal partition
  unfold finishObtain
  split <;> rename_i he <;> rw [he] at h
  · exact h
  · exact h.trans (p.onward_checkIn ..)

theorem onward_query (p : Pool) (env : Environment) (s : Supply) :
    Onward env (Supply.query p env s).1 := by
  cases s with
  | idle i => exact .refl env
  | fresh signal partition =>
    have h := p.onward_openConnection env signal partition
    unfold Supply.query
    dsimp only
    split <;> rename_i he <;> rw [he] at h <;> exact h

theorem onward_returnQuery (p : Pool) (env : Environment) (q : Query) (faulty : Bool) :
    Onward env (p.returnQuery env q faulty).1 := by
  unfold returnQuery
  split
  · exact ⟨Nat.le_refl _, rfl⟩
  · exact .refl env

theorem onward_partitionCount (p : Pool) (env : Environment) (topic : String) :
    Onward env (p.partitionCount env topic).1 := by
  unfold partitionCount startQuery
  cases p.supplyQuery with
  | mk p' s =>
    cases s with
    | none => exact .refl env
    | some s =>
      have h := p'.onward_query env s
      dsimp only
      cases hquery : Supply.query p' env s with
      | mk env' result =>
        rw [hquery] at h
        cases result with
        | error e => exact h
        | ok q =>
          exact (h.trans (env'.onward_partitionCount q.connection topic)).trans
            (p'.onward_returnQuery _ q _)

end Pool

/-! ## Every step -/

namespace World

variable {w w' : World}

theorem onward_endPoll (w : World) (id : LeaseId) (l : Lease)
    (result : Except IntakeError (List Message)) : w.env.Onward (w.endPoll id l result).env := by
  have h := l.onward_takeIn w.env result
  unfold endPoll
  split <;> rename_i he <;> rw [he] at h <;> exact h

theorem onward_poll (w : World) (id : LeaseId) (l : Lease) : w.env.Onward (w.poll id l).env := by
  have h := w.env.onward_startPoll l.connection l.settings.pollTimeout
  unfold poll
  split
  · exact .refl w.env
  · split
    rename_i env c p he
    rw [he] at h
    dsimp only
    split
    · exact h
    · exact h.trans (onward_endPoll (remember { w with env := env } _) id _ _)

theorem onward_resume (w : World) (id : LeaseId) (l : Lease) (deadline : Option Nat) :
    w.env.Onward (w.resume id l deadline).env := by
  have h := w.env.onward_resumePoll l.connection deadline
  unfold resume
  split <;> rename_i he <;> rw [he] at h
  · exact h
  · exact h.trans (onward_endPoll { w with env := _ } id l _)

theorem onward_emission (w : World) (id : LeaseId) (l : Lease) (units : List Emission)
    (errand : Errand) : w.env.Onward (w.emit id l units errand).env := by
  unfold emit
  split
  · rename_i e units
    have h := l.onward_emitOne w.env e
    split <;> rename_i he <;> rw [he] at h <;> exact h
  · exact .refl w.env
  · have h := l.onward_finishCommit w.env
    unfold finishCommit
    split
    rename_i env l' outcome he
    rw [he] at h
    dsimp only
    split
    · split <;> exact h
    · exact h

theorem onward_step (hstep : Step w w') : w.env.Onward w'.env := by
  cases hstep with
  | stay => exact .refl w.env
  | onCluster a =>
    unfold onCluster
    dsimp only
    split
    · exact w.env.onward_apply a
    · exact .refl w.env
  | advance ms => exact ⟨Nat.le_add_right _ _, rfl⟩
  | wake h => exact Environment.onward_wake h w.env
  | evictIdle => exact Environment.onward_disconnectAll ..
  | close => exact Environment.onward_disconnectAll ..
  | request sink =>
    have h := w.pool.onward_startObtain w.env
    unfold request
    split <;> rename_i he <;> rw [he] at h <;> exact h
  | @supply id o sink hph =>
    have h := w.pool.onward_finishObtain w.env o sink
    unfold supply
    split <;> rename_i he <;> rw [he] at h <;> exact h
  | continuePolling hph => exact .refl w.env
  | poll hph => exact onward_poll ..
  | resume hph => exact onward_resume ..
  | commit hph =>
    unfold commit
    split <;> exact .refl w.env
  | emit hph => exact onward_emission ..
  | @abandon id ph l hph hl => exact l.onward_abandon w.env
  | @checkIn id c discard hph =>
    have h := w.pool.onward_checkIn w.env id (some c) discard
    unfold checkIn
    dsimp only
    split <;> exact h
  | inquire =>
    unfold inquire
    split <;> exact .refl w.env
  | @connect i s hx =>
    have h := w.pool.onward_query w.env s
    unfold connect
    split <;> rename_i he <;> rw [he] at h <;> exact h
  | @ask i q hx topic => exact w.env.onward_partitionCount q.connection topic
  | @putBack i q faulty hx => exact w.pool.onward_returnQuery w.env q faulty

end World
end RecordIntake
