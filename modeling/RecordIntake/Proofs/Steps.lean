import RecordIntake.Proofs.Lease
import RecordIntake.Proofs.Lending
import RecordIntake.Proofs.World

/-!
The steps of a run once more, as far as messages, positions and commits are concerned.  Most of them
are calm: connections that rest are where they were or are new, and the leases have polled the same.
What is left are the steps in which a lease begins, reads, hands a unit on, commits, or ends.
-/
namespace RecordIntake

open Environment (Steady Polls)

/-- A lease that may still commit, with the units that it has to hand on before. -/
structure Work where
  lease : Lease
  units : List Emission
  errand : Errand

namespace Phase

/-- The work of a lease that has not faulted. -/
def work? : Phase → Option Work
  | .held l => if l.state = .faulted then none else some ⟨l, [], .poll⟩
  | .waiting l _ => some ⟨l, [], .poll⟩
  | .emitting l units errand => some ⟨l, units, errand⟩
  | _ => none

theorem lease_of_work {ph : Phase} {x : Work} (h : ph.work? = some x) :
    ph.lease? = some x.lease := by
  cases ph with
  | held l =>
    simp only [work?] at h
    split at h
    · cases h
    · cases h
      rfl
  | waiting l deadline =>
    cases h
    rfl
  | emitting l units errand =>
    cases h
    rfl
  | opening o sink => cases h
  | returning c discard => cases h
  | ended => cases h

end Phase

def Inquiry.connection? : Inquiry → Option Connection
  | .taken s => Pool.Supply.connection? s
  | .asking q | .answered q _ => some q.connection

/-- The connection is idle, about to be lent, or used to ask. -/
inductive World.Spare (w : World) (c : Connection) : Prop where
  | idle (i : IdleConnection) (h : i ∈ w.pool.idle) (hc : i.connection = c)
  | opening (id : LeaseId) (o : Offer) (sink : String)
    (h : w.phases.find? id = some (.opening o sink)) (hc : Pool.Supply.connection? o.supply = some c)
  | inquiry (x : Inquiry) (h : x ∈ w.inquiries) (hc : x.connection? = some c)

/-- The connection of that number is to be opened, for a lease or to ask. -/
inductive World.Unopened (w : World) (k : ConnectionId) : Prop where
  | opening (id : LeaseId) (o : Offer) (sink : String)
    (h : w.phases.find? id = some (.opening o sink)) (hk : Pool.Supply.unopened? o.supply = some k)
  | inquiry (s : Supply) (h : .taken s ∈ w.inquiries) (hk : Pool.Supply.unopened? s = some k)

/-- Two works that have polled, kept back and handed on the same. -/
structure Work.Like (x x' : Work) : Prop where
  connection : x'.lease.connection = x.lease.connection
  ranges : x'.lease.ledger.ranges = x.lease.ledger.ranges
  accumulator : x'.lease.accumulator = x.lease.accumulator
  units : x'.units = x.units
  errand : x'.errand = .commit → x.errand = .commit

theorem Work.Like.refl (x : Work) : Work.Like x x := ⟨rfl, rfl, rfl, rfl, id⟩

/-- Whatever a phase has of a lease or of a connection that comes back, another phase had. -/
structure Phase.Continues (ph ph' : Phase) : Prop where
  lease : ∀ l', ph'.lease? = some l' → ∃ l, ph.lease? = some l ∧
    l'.connection = l.connection ∧ l'.ledger.ranges = l.ledger.ranges
  work : ∀ x', ph'.work? = some x' → ∃ x, ph.work? = some x ∧ x.Like x'
  returning : ∀ c, ph' = .returning c false → ph = .returning c false
  opening : ∀ o sink, ph' = .opening o sink → ph = .opening o sink

theorem Phase.Continues.refl (ph : Phase) : ph.Continues ph :=
  ⟨fun l h => ⟨l, h, rfl, rfl⟩, fun x h => ⟨x, h, .refl x⟩, fun _ h => h, fun _ _ h => h⟩

/-- What becomes of a lease that is handed messages, or that hands on all it has kept back. -/
inductive Lease.Absorbs (l : Lease) (ms : List Message) : Phase → Prop where
  | waits (deadline : Option Nat) (h : ms = []) : Absorbs l ms (.waiting l deadline)
  | fails (e : IntakeError) (h : ms = []) : Absorbs l ms (.held (l.fault e))
  | receives (now received : Nat) :
    Absorbs l ms
      (.emitting
        { l with
          accumulator := (l.accumulator.receive now ms).1
          ledger := l.ledger.recordAll ms
          received := received }
        (l.accumulator.receive now ms).2 .poll)
  | flushes (h : ms = []) : Absorbs l ms (.emitting l.flush.1 l.flush.2 .commit)

theorem Lease.Absorbs.not_opening {l : Lease} {ms : List Message} {ph' : Phase}
    (h : l.Absorbs ms ph') (o : Offer) (sink : String) : ph' ≠ .opening o sink := by
  cases h <;> simp

theorem Lease.Absorbs.not_returning {l : Lease} {ms : List Message} {ph' : Phase}
    (h : l.Absorbs ms ph') (c : Connection) (discard : Bool) : ph' ≠ .returning c discard := by
  cases h <;> simp

/-- Messages that are handed to a lease are noted in its ledger. -/
theorem Lease.Absorbs.lease {l : Lease} {ms : List Message} {ph' : Phase} (h : l.Absorbs ms ph') :
    ∀ l', ph'.lease? = some l' →
      l'.connection = l.connection ∧ l'.ledger.ranges = (l.ledger.recordAll ms).ranges := by
  intro l' hl'
  cases h with
  | waits deadline hms =>
    cases hl'
    subst hms
    exact ⟨rfl, rfl⟩
  | fails e hms =>
    cases hl'
    subst hms
    exact ⟨rfl, rfl⟩
  | flushes hms =>
    cases hl'
    subst hms
    exact ⟨rfl, rfl⟩
  | receives now received =>
    cases hl'
    exact ⟨rfl, rfl⟩

namespace World

/-- A step between which nothing was read, accepted, committed or given up. -/
structure Calm (w w' : World) : Prop where
  steady : w.env.Steady w'.env
  terms : Pool.SameTerms w.pool w'.pool
  history : w'.history = w.history
  phases : ∀ id ph', w'.phases.find? id = some ph' →
    (ph'.lease? = none ∧ ∀ c, ph' ≠ .returning c false) ∨
      ∃ ph, w.phases.find? id = some ph ∧ ph.Continues ph'
  spare : ∀ c, w'.Spare c → w.Spare c ∨ c.positions = [] ∧ w.Unopened c.id
  unopened : ∀ k, w'.Unopened k → w.Unopened k ∨ k = w.pool.lastConnection + 1
  lastConnection : w.pool.lastConnection ≤ w'.pool.lastConnection

/-- What a step can do to messages, positions and commits. -/
inductive Moves (w : World) : World → Prop where
  | calm {w' : World} (h : Calm w w') : Moves w w'
  /-- A lease begins, with nothing polled. -/
  | lend {id : LeaseId} {o : Offer} {sink sink' : String} {c : Connection} {env : Environment}
    (hph : w.phases.find? id = some (.opening o sink)) (hsteady : w.env.Steady env)
    (hy : Pool.Supply.Yields w.pool o.supply c) (now : Nat) :
    Moves w
      { w with
        env := env
        phases := w.phases.insert id
          (.held (Lease.issue o.lease c w.pool.reader w.pool.settings sink' now))
        history := .lent id c :: w.history }
  | read {id : LeaseId} {l : Lease} {env : Environment} {after : Connection}
    {result : Progress (Except IntakeError (List Message))} {ph' : Phase}
    (hph : w.phases.find? id = some (.held l)) (hl : l.state ≠ .faulted)
    (hsteady : w.env.Steady env) (hpolls : Polls w.env.cluster l.connection after result)
    (hph' : Lease.Absorbs { l with state := .polling, connection := after } result.messages ph') :
    Moves w
      { w with
        env := env
        phases := w.phases.insert id ph'
        history := .read id w.env.cluster l.connection after result.messages :: w.history }
  /-- Without a read, units become due. -/
  | absorb {id : LeaseId} {ph ph' : Phase} {l : Lease} {env : Environment}
    (hph : w.phases.find? id = some ph) (hx : ph.work? = some ⟨l, [], .poll⟩)
    (hsteady : w.env.Steady env) (hph' : l.Absorbs [] ph') :
    Moves w { w with env := env, phases := w.phases.insert id ph' }
  | accept {id : LeaseId} {l : Lease} {e : Emission} {units : List Emission} {errand : Errand}
    {env : Environment} (hph : w.phases.find? id = some (.emitting l (e :: units) errand))
    (hcluster : env.cluster = w.env.cluster)
    (hj : env.journal = .emitted l.sink e :: w.env.journal) :
    Moves w { w with env := env, phases := w.phases.insert id (.emitting l units errand) }
  | commit {id : LeaseId} {l : Lease} {env : Environment}
    (hph : w.phases.find? id = some (.emitting l [] .commit)) (hempty : l.ledger.isEmpty = false)
    (hlogs : env.cluster.logs = w.env.cluster.logs)
    (hj : env.journal =
      .committed l.connection.id l.ledger.committable (.ok ()) :: w.env.journal)
    (hc : env.cluster.committed = w.env.cluster.committed.union l.ledger.committable) (now : Nat) :
    Moves w
      { w with
        env := env
        phases := w.phases.insert id (.held (l.startNextCycle now))
        history :=
          .committed id l.connection w.env.cluster.committed l.ledger.committable :: w.history }
  | refuse {id : LeaseId} {l : Lease} {env : Environment} {e : IntakeError}
    (hph : w.phases.find? id = some (.emitting l [] .commit))
    (hlogs : env.cluster.logs = w.env.cluster.logs)
    (hj : env.journal =
      .committed l.connection.id l.ledger.committable (.error e) :: w.env.journal)
    (hc : env.cluster.committed = w.env.cluster.committed) :
    Moves w { w with env := env, phases := w.phases.insert id (.held (l.fault e)) }
  | abandon {id : LeaseId} {ph : Phase} {l : Lease} {env : Environment} {c : Connection}
    {discard : Bool} (hph : w.phases.find? id = some ph) (hl : ph.lease? = some l)
    (hsteady : w.env.Steady env) (ha : l.abandon w.env = (env, c, discard)) :
    Moves w { w with env := env, phases := w.phases.insert id (.returning c discard) }
  | checkIn {id : LeaseId} {c : Connection} {discard : Bool} {env : Environment}
    (hph : w.phases.find? id = some (.returning c discard)) (hsteady : w.env.Steady env)
    (now : Nat) :
    Moves w
      { w with
        env := env
        pool := (w.pool.takeBack id (some c) discard now).1
        phases := w.phases.insert id .ended
        history := if discard || w.pool.closed then w.history else .returned id c :: w.history }

variable {w : World}

/-- The connection of a lease that was decided on is spare, or new. -/
theorem spare_of_yields {id : LeaseId} {o : Offer} {sink : String} {c : Connection}
    (hph : w.phases.find? id = some (.opening o sink))
    (hy : Pool.Supply.Yields w.pool o.supply c) :
    w.Spare c ∨ c.positions = [] ∧ w.Unopened c.id := by
  cases hsupply : o.supply with
  | idle i =>
    rw [hsupply] at hy
    obtain rfl : c = i.connection := hy
    exact .inl (.opening id o sink hph (by rw [hsupply]; rfl))
  | fresh signal partition =>
    rw [hsupply] at hy
    obtain rfl : c = ⟨signal.connection, signal, _, []⟩ := hy
    exact .inr ⟨rfl, .opening id o sink hph (by rw [hsupply]; rfl)⟩

/-- A step of one lease that leaves it as it is. -/
theorem Calm.of_phase {id : LeaseId} {ph ph' : Phase} {env : Environment}
    (hph : w.phases.find? id = some ph) (hsteady : w.env.Steady env) (hc : ph.Continues ph') :
    Calm w { w with env := env, phases := w.phases.insert id ph' } where
  steady := hsteady
  terms := .refl w.pool
  history := rfl
  phases id₁ ph₁ h₁ := by
    rw [SortedMap.find?_insert] at h₁
    split at h₁
    · rename_i hid
      cases h₁
      exact .inr ⟨ph, hid ▸ hph, hc⟩
    · exact .inr ⟨ph₁, h₁, .refl ph₁⟩
  spare c hspare := by
    cases hspare with
    | idle i h hi => exact .inl (.idle i h hi)
    | inquiry x h hx => exact .inl (.inquiry x h hx)
    | opening id₁ o sink h ho =>
      rw [SortedMap.find?_insert] at h
      split at h
      · exact .inl (.opening id o sink (hc.opening o sink (Option.some.inj h) ▸ hph) ho)
      · exact .inl (.opening id₁ o sink h ho)
  unopened k hk := by
    cases hk with
    | inquiry s h hs => exact .inl (.inquiry s h hs)
    | opening id₁ o sink h ho =>
      rw [SortedMap.find?_insert] at h
      split at h
      · exact .inl (.opening id o sink (hc.opening o sink (Option.some.inj h) ▸ hph) ho)
      · exact .inl (.opening id₁ o sink h ho)
  lastConnection := Nat.le_refl _

/-- A step in which no lease takes part. -/
theorem Calm.of_inquiries {env : Environment} {p : Pool} {xs : List Inquiry}
    (hsteady : w.env.Steady env) (hterms : Pool.SameTerms w.pool p)
    (hlast : w.pool.lastConnection ≤ p.lastConnection)
    (hidle : ∀ i ∈ p.idle, w.Spare i.connection)
    (hxs : ∀ x ∈ xs, ∀ c, x.connection? = some c →
      w.Spare c ∨ c.positions = [] ∧ w.Unopened c.id)
    (hunopened : ∀ s, .taken s ∈ xs → ∀ k, Pool.Supply.unopened? s = some k →
      w.Unopened k ∨ k = w.pool.lastConnection + 1) :
    Calm w { w with env := env, pool := p, inquiries := xs } where
  steady := hsteady
  terms := hterms
  history := rfl
  phases id ph h := .inr ⟨ph, h, .refl ph⟩
  spare c hspare := by
    cases hspare with
    | idle i h hi => exact .inl (hi ▸ hidle i h)
    | inquiry x h hx => exact hxs x h c hx
    | opening id o sink h ho => exact .inl (.opening id o sink h ho)
  unopened k hk := by
    cases hk with
    | inquiry s h hs => exact hunopened s h k hs
    | opening id o sink h ho => exact .inl (.opening id o sink h ho)
  lastConnection := hlast

/-- A step in which no lease and no question takes part. -/
theorem Calm.of_pool {env : Environment} {p : Pool} (hsteady : w.env.Steady env)
    (hterms : Pool.SameTerms w.pool p) (hlast : w.pool.lastConnection ≤ p.lastConnection)
    (hidle : ∀ i ∈ p.idle, i ∈ w.pool.idle) : Calm w { w with env := env, pool := p } :=
  .of_inquiries hsteady hterms hlast (fun i h => .idle i (hidle i h) rfl)
    (fun x h _ hx => .inl (.inquiry x h hx)) fun s h _ hs => .inl (.inquiry s h hs)

theorem Calm.refl (w : World) : Calm w w :=
  .of_pool (.refl w.env) (.refl w.pool) (Nat.le_refl _) fun _ hi => hi

theorem steady_apply (env : Environment) (a : Scenario.ClusterAction)
    (hroom : (a.apply env).1.cluster.hasRoom = true) : env.Steady (a.apply env).1 := by
  have hbound : ∀ p, (((a.apply env).1.cluster.log p).size : Int) ≤ Ledger.greatestOffset := by
    intro p
    simp only [Cluster.hasRoom, List.all_eq_true, decide_eq_true_eq] at hroom
    cases hlog : (a.apply env).1.cluster.logs.find? p with
    | none => simp [Cluster.log, hlog, Ledger.greatestOffset]
    | some log =>
      rw [Cluster.log_of_find? hlog]
      exact hroom _ (SortedMap.mem_of_find? hlog)
  cases a with
  | produce m =>
    exact ⟨⟨Cluster.log_produce_append env.cluster m, fun h => ⟨h.toOrdered.produce m, hbound⟩⟩,
      rfl, [], by simp, rfl⟩
  | produceMany ms =>
    exact ⟨⟨Cluster.log_produceAll_append env.cluster ms,
      fun h => ⟨h.toOrdered.produceAll ms, hbound⟩⟩,
      Cluster.committed_produceAll env.cluster ms, [], by simp, rfl⟩
  | setPartitionCount topic n => exact .of_logs rfl rfl [] (by simp) rfl
  | failCommits n => exact .of_logs rfl rfl [] (by simp) rfl
  | failConnects n => exact .of_logs rfl rfl [] (by simp) rfl
  | interruptMidway skip => exact .of_logs rfl rfl [] (by simp) rfl
  | blockPolls on => exact .of_logs rfl rfl [] (by simp) rfl
  | delayCounts => exact .refl env
  | failSink sink on => exact .of_logs rfl rfl [] (by simp) rfl
  | fault call e => exact .of_logs rfl rfl [] (by simp) rfl

theorem calm_onCluster (w : World) (a : Scenario.ClusterAction) : Calm w (w.onCluster a) := by
  unfold onCluster
  dsimp only
  split
  · rename_i hroom
    exact .of_pool (steady_apply w.env a hroom) (.refl w.pool) (Nat.le_refl _) fun _ hi => hi
  · exact .refl w

theorem calm_request (w : World) (sink : String) : Calm w (w.request sink) := by
  have hsteady := w.pool.steady_startObtain w.env
  have hsub := (w.pool.sublist_takeExpired w.env.now).subset
  have hlast := Nat.le_of_eq (w.pool.lastConnection_takeExpired w.env.now).symm
  unfold request
  split
  · rename_i env p hr
    rw [hr] at hsteady
    obtain rfl | rfl := Pool.startObtain_none hr
    · exact .of_pool hsteady (.refl w.pool) (Nat.le_refl _) fun _ hi => hi
    · exact .of_pool hsteady (w.pool.sameTerms_takeExpired _) hlast fun _ hi => hsub hi
  · rename_i env p o hr
    rw [hr] at hsteady
    obtain ⟨p₁, hdraws, hid, rfl⟩ := Pool.offer_eq_some (Pool.startObtain_some hr).2
    have hterms := (w.pool.sameTerms_takeExpired w.env.now).trans hdraws.sameTerms
    refine ⟨hsteady, ⟨hterms.id, hterms.subscription, hterms.reader, hterms.settings⟩, rfl,
      fun id ph' h => ?_, fun c hspare => ?_, fun k hk => ?_,
      Nat.le_trans hlast hdraws.lastConnection_le⟩
    · change SortedMap.find? id (SortedMap.insert o.lease _ w.phases) = _ at h
      rw [SortedMap.find?_insert] at h
      split at h
      · cases h
        exact .inl ⟨rfl, by simp⟩
      · exact .inr ⟨ph', h, .refl ph'⟩
    · cases hspare with
      | idle i h hi => exact .inl (.idle i (hsub (hdraws.sublist i h)) hi)
      | inquiry x h hx => exact .inl (.inquiry x h hx)
      | opening id o' sink' h ho =>
        change SortedMap.find? id (SortedMap.insert o.lease _ w.phases) = _ at h
        rw [SortedMap.find?_insert] at h
        split at h
        · cases h
          obtain ⟨i, hi, rfl⟩ := hdraws.of_connection ho
          exact .inl (.idle i (hsub hi) rfl)
        · exact .inl (.opening id o' sink' h ho)
    · cases hk with
      | inquiry s h hs => exact .inl (.inquiry s h hs)
      | opening id o' sink' h ho =>
        change SortedMap.find? id (SortedMap.insert o.lease _ w.phases) = _ at h
        rw [SortedMap.find?_insert] at h
        split at h
        · cases h
          have hk := hdraws.of_unopened ho
          rw [w.pool.lastConnection_takeExpired] at hk
          exact .inr hk
        · exact .inl (.opening id o' sink' h ho)

theorem moves_supply {id : LeaseId} {o : Offer} {sink : String}
    (hph : w.phases.find? id = some (.opening o sink)) : Moves w (w.supply id o sink) := by
  have hsteady := w.pool.steady_finishObtain w.env o sink
  unfold supply
  split
  · rename_i env p l hr
    rw [hr] at hsteady
    obtain ⟨rfl, c, hy, rfl⟩ := Pool.finishObtain_ok hr
    exact .lend hph hsteady hy _
  · rename_i env p e hr
    rw [hr] at hsteady
    obtain ⟨now, rfl⟩ := Pool.finishObtain_error hr
    have hidle : ∀ i ∈ (w.pool.takeBack o.lease none true now).1.idle, i ∈ w.pool.idle := by
      intro i hi
      obtain hi | ⟨hi, -⟩ := Pool.mem_idle_takeBack hi
      · exact hi
      · cases hi
    refine .calm ⟨hsteady, w.pool.sameTerms_takeBack .., rfl, fun id' ph' h => ?_,
      fun c hspare => ?_, fun k hk => ?_,
      Nat.le_of_eq (w.pool.lastConnection_takeBack ..).symm⟩
    · change SortedMap.find? id' (SortedMap.insert id _ w.phases) = _ at h
      rw [SortedMap.find?_insert] at h
      split at h
      · cases h
        exact .inl ⟨rfl, by simp⟩
      · exact .inr ⟨ph', h, .refl ph'⟩
    · cases hspare with
      | idle i h hi => exact .inl (.idle i (hidle i h) hi)
      | inquiry x h hx => exact .inl (.inquiry x h hx)
      | opening id' o' sink' h ho =>
        change SortedMap.find? id' (SortedMap.insert id _ w.phases) = _ at h
        rw [SortedMap.find?_insert] at h
        split at h
        · cases h
        · exact .inl (.opening id' o' sink' h ho)
    · cases hk with
      | inquiry s h hs => exact .inl (.inquiry s h hs)
      | opening id' o' sink' h ho =>
        change SortedMap.find? id' (SortedMap.insert id _ w.phases) = _ at h
        rw [SortedMap.find?_insert] at h
        split at h
        · cases h
        · exact .inl (.opening id' o' sink' h ho)

/-- A lease that has faulted has polled what it had polled. -/
theorem continues_fault {ph : Phase} {l : Lease} (h : ph.lease? = some l) (e : IntakeError) :
    ph.Continues (.held (l.fault e)) where
  lease l' h' := by
    cases h'
    exact ⟨l, h, rfl, rfl⟩
  work x' h' := by
    simp only [Phase.work?, Lease.fault_state, if_true] at h'
    cases h'
  returning c h' := by cases h'
  opening o sink h' := by cases h'

theorem moves_poll {id : LeaseId} {l : Lease} (hph : w.phases.find? id = some (.held l)) :
    Moves w (w.poll id l) := by
  have hsteady := w.env.steady_startPoll l.connection l.settings.pollTimeout
  have hpolls := w.env.startPoll_polls l.connection l.settings.pollTimeout
  unfold poll
  split
  · exact .calm (.refl w)
  · rename_i hl
    split
    rename_i env after result hr
    rw [hr] at hsteady hpolls
    dsimp only at hsteady hpolls ⊢
    split
    · exact .read hph hl hsteady hpolls (.waits _ rfl)
    · rename_i result
      unfold endPoll
      cases result with
      | error e =>
        rw [Lease.takeIn_error]
        exact .read hph hl (hsteady.trans (env.steady_note rfl)) hpolls (.fails e rfl)
      | ok ms =>
        obtain ⟨env', hsteady', hin⟩ :=
          Lease.takeIn_ok { l with state := .polling, connection := after } env ms
        simp only [remember, hin]
        exact .read hph hl (hsteady.trans hsteady') hpolls (.receives _ _)

theorem moves_resume {id : LeaseId} {l : Lease} {deadline : Option Nat}
    (hph : w.phases.find? id = some (.waiting l deadline)) : Moves w (w.resume id l deadline) := by
  have hsteady := w.env.steady_resumePoll l.connection deadline
  unfold resume
  split
  · rename_i env deadline' hr
    rw [hr] at hsteady
    refine .calm (.of_phase hph hsteady ⟨fun l' h => ?_, fun x' h => ?_, ?_, ?_⟩)
    · exact ⟨l', h, rfl, rfl⟩
    · exact ⟨x', h, .refl x'⟩
    · exact fun c h => by cases h
    · exact fun o sink h => by cases h
  · rename_i env result hr
    rw [hr] at hsteady
    unfold endPoll
    cases result with
    | error e =>
      rw [Lease.takeIn_error]
      exact .calm (.of_phase hph (hsteady.trans (env.steady_note rfl)) (continues_fault rfl e))
    | ok ms =>
      obtain rfl := Environment.resumePoll_ok hr
      obtain ⟨env', hsteady', hin⟩ := l.takeIn_ok env []
      simp only [hin]
      exact .absorb hph rfl (hsteady.trans hsteady') (.receives _ _)

theorem moves_commit {id : LeaseId} {l : Lease} (hph : w.phases.find? id = some (.held l)) :
    Moves w (w.commit id l) := by
  unfold commit
  split
  · exact .calm (.refl w)
  · rename_i hl
    exact .absorb hph (if_neg hl) (.refl w.env) (.flushes rfl)

theorem moves_finishCommit {id : LeaseId} {l : Lease}
    (hph : w.phases.find? id = some (.emitting l [] .commit)) :
    Moves w (w.finishCommit id l) := by
  have hc := l.finishCommit_commits w.env
  unfold finishCommit
  split
  rename_i env l' outcome hr
  rw [hr] at hc
  dsimp only at hc ⊢
  cases hc with
  | interrupted => exact .calm (.of_phase hph (.refl w.env) (continues_fault rfl _))
  | empty hempty =>
    dsimp only
    rw [if_pos hempty]
    have hnil : l.ledger.ranges = [] := List.isEmpty_iff.mp hempty
    refine .calm (.of_phase hph (.refl w.env) ⟨fun l' h => ?_, fun x' h => ?_, ?_, ?_⟩)
    · cases h
      exact ⟨l, rfl, rfl, hnil.symm⟩
    · cases h
      exact ⟨_, rfl, rfl, hnil.symm, rfl, rfl, fun h => by cases h⟩
    · exact fun c h => by cases h
    · exact fun o sink h => by cases h
  | done _ hempty hlogs hj hcommitted now =>
    dsimp only
    rw [if_neg (by simp [hempty])]
    exact .commit hph hempty hlogs hj hcommitted now
  | refused _ hlogs hj hcommitted ho =>
    split
    · exact absurd rfl ho
    · exact .refuse hph hlogs hj hcommitted

theorem moves_emit {id : LeaseId} {l : Lease} {units : List Emission} {errand : Errand}
    (hph : w.phases.find? id = some (.emitting l units errand)) :
    Moves w (w.emit id l units errand) := by
  unfold emit
  split
  · split
    · rename_i hr
      obtain ⟨rfl, hcluster, hj⟩ := Lease.emitOne_ok hr
      exact .accept hph hcluster hj
    · rename_i hr
      obtain ⟨rfl, hsteady⟩ := Lease.emitOne_error hr
      exact .calm (.of_phase hph hsteady (continues_fault rfl _))
  · refine .calm (.of_phase hph (.refl w.env) ⟨fun l' h => ?_, fun x' h => ?_, ?_, ?_⟩)
    · exact ⟨l', h, rfl, rfl⟩
    · simp only [Phase.work?] at h
      split at h
      · cases h
      · cases h
        exact ⟨_, rfl, .refl _⟩
    · exact fun c h => by cases h
    · exact fun o sink h => by cases h
  · exact moves_finishCommit hph

theorem moves_abandon {id : LeaseId} {ph : Phase} {l : Lease} (hph : w.phases.find? id = some ph)
    (hl : ph.lease? = some l) : Moves w (w.abandon id l) := by
  have hsteady := l.steady_abandon w.env
  unfold abandon
  split
  rename_i env c discard hr
  rw [hr] at hsteady
  exact .abandon hph hl hsteady hr

theorem moves_checkIn {id : LeaseId} {c : Connection} {discard : Bool}
    (hph : w.phases.find? id = some (.returning c discard)) :
    Moves w (w.checkIn id c discard) := by
  have hsteady := w.pool.steady_checkIn w.env id (some c) discard
  have hpool := w.pool.checkIn_pool w.env id (some c) discard
  have hmoves := Moves.checkIn hph hsteady w.env.now
  unfold checkIn
  split
  rename_i env p hr
  rw [hr] at hpool hmoves
  obtain rfl : p = _ := hpool
  dsimp only at hmoves ⊢
  split at hmoves
  · rw [if_pos ‹_›]
    exact hmoves
  · rw [if_neg ‹_›]
    exact hmoves

/-! ## Questions -/

theorem calm_inquire (w : World) : Calm w w.inquire := by
  unfold inquire
  obtain hs | ⟨-, hs⟩ := w.pool.supplyQuery_cases
  · rw [hs]
    exact .refl w
  · rw [hs]
    have hdraws := w.pool.supplyAny_draws
    refine .of_inquiries (.refl w.env) hdraws.sameTerms hdraws.lastConnection_le
      (fun i hi => .idle i (hdraws.sublist i hi) rfl) (fun x hx c hc => ?_) fun s hs k hk => ?_
    · obtain rfl | hx := List.mem_cons.mp hx
      · obtain ⟨i, hi, hic⟩ := hdraws.of_connection hc
        exact .inl (.idle i hi hic)
      · exact .inl (.inquiry x hx hc)
    · obtain hs | hs := List.mem_cons.mp hs
      · cases hs
        exact .inr (hdraws.of_unopened hk)
      · exact .inl (.inquiry s hs hk)

theorem calm_connect {i : Nat} {s : Supply} (hx : w.inquiries[i]? = some (.taken s)) :
    Calm w (w.connect i s) := by
  have hsteady := w.pool.steady_query w.env s
  have hmem := List.mem_of_getElem? hx
  unfold connect
  split
  · rename_i env q hr
    rw [hr] at hsteady
    obtain ⟨hy, -⟩ := Pool.query_ok hr
    refine .of_inquiries hsteady (.refl w.pool) (Nat.le_refl _) (fun j hj => .idle j hj rfl)
      (fun x hx' c hc => ?_) fun s' hs' k hk => ?_
    · obtain hx' | rfl := List.mem_or_eq_of_mem_set hx'
      · exact .inl (.inquiry x hx' hc)
      · cases hc
        cases s with
        | idle j =>
          have hy : q.connection = j.connection := hy
          exact .inl (.inquiry _ hmem (congrArg some hy.symm))
        | fresh signal partition =>
          obtain hy : q.connection = ⟨signal.connection, signal, _, []⟩ := hy
          exact .inr ⟨by rw [hy], .inquiry _ hmem (by rw [hy]; rfl)⟩
    · obtain hs' | hs' := List.mem_or_eq_of_mem_set hs'
      · exact .inl (.inquiry s' hs' hk)
      · cases hs'
  · rename_i env e hr
    rw [hr] at hsteady
    have hsub := (List.eraseIdx_sublist w.inquiries i).subset
    exact .of_inquiries hsteady (.refl w.pool) (Nat.le_refl _) (fun j hj => .idle j hj rfl)
      (fun x hx' c hc => .inl (.inquiry x (hsub hx') hc))
      fun s' hs' k hk => .inl (.inquiry s' (hsub hs') hk)

theorem calm_ask {i : Nat} {q : Pool.Query} (hx : w.inquiries[i]? = some (.asking q))
    (topic : String) : Calm w (w.ask i q topic) := by
  refine .of_inquiries (w.env.steady_partitionCount q.connection topic) (.refl w.pool)
    (Nat.le_refl _) (fun j hj => .idle j hj rfl) (fun x hx' c hc => ?_) fun s hs k hk => ?_
  · obtain hx' | rfl := List.mem_or_eq_of_mem_set hx'
    · exact .inl (.inquiry x hx' hc)
    · exact .inl (.inquiry _ (List.mem_of_getElem? hx) hc)
  · obtain hs | hs := List.mem_or_eq_of_mem_set hs
    · exact .inl (.inquiry s hs hk)
    · cases hs

theorem calm_putBack {i : Nat} {q : Pool.Query} {faulty : Bool}
    (hx : w.inquiries[i]? = some (.answered q faulty)) : Calm w (w.putBack i q faulty) := by
  have hsteady := w.pool.steady_returnQuery w.env q faulty
  have hpool := w.pool.returnQuery_pool w.env q faulty
  have hback := w.pool.endQuery_regains q faulty
  have hsub := (List.eraseIdx_sublist w.inquiries i).subset
  unfold putBack
  split
  rename_i env p hr
  rw [hr] at hsteady hpool
  obtain rfl : p = _ := hpool
  refine .of_inquiries hsteady hback.terms (Nat.le_of_eq hback.lastConnection.symm)
    (fun j hj => ?_) (fun x hx' c hc => .inl (.inquiry x (hsub hx') hc))
    fun s' hs' k hk => .inl (.inquiry s' (hsub hs') hk)
  obtain hj | ⟨-, hc⟩ := hback.idle j hj
  · exact .idle j hj rfl
  · exact .inquiry _ (List.mem_of_getElem? hx) hc

/-! ## Every step -/

theorem moves_of_step {w' : World} (h : Step w w') : Moves w w' := by
  have hterms := w.pool.sameTerms_takeExpired w.env.now
  cases h with
  | stay => exact .calm (.refl w)
  | onCluster a => exact .calm (calm_onCluster w a)
  | advance ms =>
    exact .calm (.of_pool (.of_eq rfl rfl) (.refl w.pool) (Nat.le_refl _) fun _ hi => hi)
  | wake handle =>
    refine .calm (.of_pool ?_ (.refl w.pool) (Nat.le_refl _) fun _ hi => hi)
    exact (w.env.steady_count .wakeups).trans (Environment.steady_raise ..)
  | evictIdle =>
    exact .calm (.of_pool (w.pool.steady_evictIdle w.env) hterms
      (Nat.le_of_eq (w.pool.lastConnection_takeExpired w.env.now).symm)
      fun _ hi => (w.pool.sublist_takeExpired w.env.now).subset hi)
  | close =>
    have hshut : w.pool.shut.1 = w.pool ∨
        w.pool.shut.1 = { w.pool with closed := true, idle := [] } := by
      unfold Pool.shut
      split
      · exact .inl rfl
      · exact .inr rfl
    have hsteady := w.pool.steady_close w.env
    refine .calm (?_ : Calm w { w with env := (w.pool.close w.env).1, pool := w.pool.shut.1 })
    obtain hs | hs := hshut
    · rw [hs]
      exact .of_pool hsteady (.refl w.pool) (Nat.le_refl _) fun _ hi => hi
    · rw [hs]
      exact .of_pool hsteady ⟨rfl, rfl, rfl, rfl⟩ (Nat.le_refl _) fun _ hi => by cases hi
  | request sink => exact .calm (calm_request w sink)
  | supply hph => exact moves_supply hph
  | continuePolling hph =>
    rename_i id l
    obtain ⟨state, hl, hfault⟩ := l.continuePolling_eq w.env
    unfold continuePolling
    rw [hl]
    refine .calm (.of_phase hph (.refl w.env) ⟨fun l' h => ?_, fun x' h => ?_, ?_, ?_⟩)
    · cases h
      exact ⟨l, rfl, rfl, rfl⟩
    · simp only [Phase.work?] at h ⊢
      split at h
      · cases h
      · rename_i hstate
        cases h
        exact ⟨_, if_neg fun hf => hstate (hfault hf), rfl, rfl, rfl, rfl, fun h => h⟩
    · exact fun c h => by cases h
    · exact fun o sink h => by cases h
  | poll hph => exact moves_poll hph
  | resume hph => exact moves_resume hph
  | commit hph => exact moves_commit hph
  | emit hph => exact moves_emit hph
  | abandon hph hl => exact moves_abandon hph hl
  | checkIn hph => exact moves_checkIn hph
  | inquire => exact .calm (calm_inquire w)
  | connect hx => exact .calm (calm_connect hx)
  | ask hx topic => exact .calm (calm_ask hx topic)
  | putBack hx => exact .calm (calm_putBack hx)

theorem sameTerms_step {w' : World} (h : Step w w') : Pool.SameTerms w.pool w'.pool := by
  cases moves_of_step h with
  | calm hcalm => exact hcalm.terms
  | checkIn hph hsteady now => exact w.pool.sameTerms_takeBack ..
  | lend | read | absorb | accept | commit | refuse | abandon => exact .refl w.pool

theorem sameTerms_run (w : World) (as : List Action) : Pool.SameTerms w.pool (w.run as).pool :=
  run_induction (P := fun w' => Pool.SameTerms w.pool w'.pool)
    (fun _ _ hstep h => h.trans (sameTerms_step hstep)) (.refl w.pool) as

end World
end RecordIntake
