import RecordIntake.Proofs.Lease
import RecordIntake.Proofs.Lending
import RecordIntake.Proofs.World

/-!
The steps of a run once more, as far as the pool and its connections are concerned.  Whatever a
lease does between its beginning and its end, and whatever happens outside, leaves the pool as it is
and opens and closes nothing.
-/
namespace RecordIntake

/-- The connection that was opened, if the event is that one was. -/
def Event.opened? : Event → Option ConnectionId
  | .connected c _ (.ok ()) => some c
  | _ => none

def Event.closed? : Event → Option ConnectionId
  | .closed c => some c
  | _ => none

/-- The connections that a journal says were opened, one for each time. -/
def openedIds (events : List Event) : List ConnectionId := events.filterMap Event.opened?

/-- The connections that a journal says were closed, one for each time. -/
def closedIds (events : List Event) : List ConnectionId := events.filterMap Event.closed?

/-! ## Counting -/

namespace Metrics

theorem count_add (c c' : Counter) (n : Nat) (m : Metrics) :
    (m.add c n).count c' = m.count c' + if c = c' then n else 0 := by
  simp only [count, add]
  generalize m.counters = counters
  induction counters with
  | nil =>
    by_cases h : c = c'
    · simp [alter, h]
    · simp [alter, h]
  | cons e counters ih =>
    obtain ⟨k, a⟩ := e
    by_cases hk : k = c
    · by_cases hc : c = c'
      · simp [alter, hk, hc]
      · simp [alter, hk, hc]
    · by_cases hc : k = c'
      · subst hc
        simp [alter, hk, Ne.symm hk]
      · simpa [alter, hk, hc] using ih

theorem count_add_of_ne {c c' : Counter} (h : c ≠ c') (n : Nat) (m : Metrics) :
    (m.add c n).count c' = m.count c' := by
  rw [count_add, if_neg h, Nat.add_zero]

end Metrics

theorem Accumulator.count_countAbsorbed (s : BatchSettings) (m : Message) (emitted : List Emission)
    (metrics : Metrics) (why : ConnectionEvent) :
    (countAbsorbed s m emitted metrics).count (.connectionEvents why) =
      metrics.count (.connectionEvents why) := by
  unfold countAbsorbed
  dsimp only
  split <;> split <;> simp only [Metrics.count_add_of_ne, ne_eq, reduceCtorEq, not_false_iff]

namespace Environment

theorem count_countEmitted (e : Emission) (metrics : Metrics) (why : ConnectionEvent) :
    (countEmitted e metrics).count (.connectionEvents why) =
      metrics.count (.connectionEvents why) := by
  cases e with
  | batch b => exact Metrics.count_add_of_ne (by simp) 1 metrics
  | parseFailure f => rfl

/-! ## What opens and closes nothing -/

/-- Between the two environments no connection was opened or closed, and none was counted. -/
structure Retains (env env' : Environment) : Prop where
  opened : openedIds env'.journal = openedIds env.journal
  closed : closedIds env'.journal = closedIds env.journal
  counts : ∀ why, env'.metrics.count (.connectionEvents why) =
    env.metrics.count (.connectionEvents why)
  now : env.now ≤ env'.now

theorem Retains.trans {a b c : Environment} (h : Retains a b) (h' : Retains b c) : Retains a c :=
  ⟨h'.opened.trans h.opened, h'.closed.trans h.closed,
    fun why => (h'.counts why).trans (h.counts why), Nat.le_trans h.now h'.now⟩

theorem Retains.of_eq {env env' : Environment} (hj : env'.journal = env.journal)
    (hm : env'.metrics = env.metrics) (hnow : env'.now = env.now) : Retains env env' :=
  ⟨by rw [hj], by rw [hj], fun _ => by rw [hm], Nat.le_of_eq hnow.symm⟩

theorem Retains.refl (env : Environment) : Retains env env := .of_eq rfl rfl rfl

/-- A count of something else. -/
theorem Retains.of_counts {env : Environment} {metrics : Metrics}
    (h : ∀ why, metrics.count (.connectionEvents why) =
      env.metrics.count (.connectionEvents why)) :
    Retains env { env with metrics := metrics } :=
  ⟨rfl, rfl, h, Nat.le_refl _⟩

/-- An event that is not about a connection's beginning or end. -/
theorem retains_note (env : Environment) {e : Event} (ho : e.opened? = none)
    (hc : e.closed? = none) : Retains env (env.note e) :=
  ⟨List.filterMap_cons_none ho, List.filterMap_cons_none hc, fun _ => rfl, Nat.le_refl _⟩

theorem retains_count (env : Environment) {c : Counter} (hc : ∀ why, c ≠ .connectionEvents why) :
    Retains env (env.count c) :=
  .of_counts fun why => Metrics.count_add_of_ne (hc why) 1 env.metrics

theorem retains_raise (env : Environment) (s : Signal) : Retains env (env.raise s) := by
  unfold raise
  split
  · exact .refl env
  · exact .of_eq rfl rfl rfl

theorem retains_lower (env : Environment) (s : Signal) : Retains env (env.lower s) :=
  .of_eq rfl rfl rfl

theorem retains_takeFault {env env' : Environment} {call : Call} {e : IntakeError}
    (h : env.takeFault call = some (e, env')) : Retains env env' := by
  obtain ⟨faults, rfl⟩ := takeFault_eq h
  exact .of_eq rfl rfl rfl

theorem retains_startPoll (env : Environment) (c : Connection) (timeout : Nat) :
    Retains env (env.startPoll c timeout).1 := by
  unfold startPoll
  split
  · exact retains_takeFault ‹_›
  · split
    · exact retains_lower env c.signal
    · split
      · exact .refl env
      · dsimp only
        split
        · exact .of_eq rfl rfl rfl
        · split <;> exact .of_eq rfl rfl rfl

theorem retains_resumePoll (env : Environment) (c : Connection) (deadline : Option Nat) :
    Retains env (env.resumePoll c deadline).1 := by
  unfold resumePoll
  split
  · exact retains_lower env c.signal
  · split
    · exact .refl env
    · split <;> exact .refl env

theorem retains_commit (env : Environment) (c : Connection) (offsets : Offsets) :
    Retains env (env.commit c offsets).1 := by
  unfold commit
  split
  · rename_i e env₁ h
    exact (retains_takeFault h).trans (env₁.retains_note rfl rfl)
  · exact ⟨rfl, rfl, fun _ => rfl, Nat.le_refl _⟩

theorem retains_rewind (env : Environment) (c : Connection) (positions : Offsets) :
    Retains env (env.rewind c positions).1 := by
  unfold rewind
  split
  · rename_i e env₁ h
    exact (retains_takeFault h).trans (env₁.retains_note rfl rfl)
  · exact env.retains_note rfl rfl

theorem retains_partitionCount (env : Environment) (c : Connection) (topic : String) :
    Retains env (env.partitionCount c topic).1 := by
  unfold partitionCount
  split
  · rename_i e env₁ h
    exact (retains_takeFault h).trans (env₁.retains_note rfl rfl)
  · exact env.retains_note rfl rfl

theorem retains_emit (env : Environment) (name : String) (e : Emission) :
    Retains env (env.emit name e).1 := by
  unfold emit
  dsimp only
  split
  · exact env.retains_note rfl rfl
  · exact ⟨rfl, rfl, count_countEmitted e env.metrics, Nat.le_refl _⟩

theorem retains_apply (env : Environment) (a : Scenario.ClusterAction) :
    Retains env (a.apply env).1 := by
  cases a <;> exact .of_eq rfl rfl rfl

end Environment

namespace Lease

open Environment (Retains)

theorem retains_absorbAll (l : Lease) (env : Environment) (ms : List Message) :
    Retains env (l.absorbAll env ms).1 := by
  induction ms generalizing l env with
  | nil => exact .refl env
  | cons m ms ih =>
    have hcounts := Accumulator.count_countAbsorbed l.accumulator.settings m
      (l.accumulator.absorb m env.now).2 env.metrics
    exact (Retains.of_counts hcounts).trans (ih _ _)

theorem id_takeIn (l : Lease) (env : Environment) (result : Except IntakeError (List Message)) :
    (l.takeIn env result).2.1.id = l.id := by
  cases result with
  | error e => rfl
  | ok ms =>
    obtain ⟨env', -, h⟩ := l.takeIn_ok env ms
    rw [h]

theorem id_emitOne (l : Lease) (env : Environment) (e : Emission) :
    (l.emitOne env e).2.1.id = l.id := by
  unfold emitOne
  split <;> rfl

theorem id_finishCommit (l : Lease) (env : Environment) : (l.finishCommit env).2.1.id = l.id := by
  have h := l.finishCommit_commits env
  generalize (l.finishCommit env).1 = env', (l.finishCommit env).2.1 = l',
    (l.finishCommit env).2.2 = outcome at h ⊢
  cases h <;> rfl

theorem retains_takeIn (l : Lease) (env : Environment)
    (result : Except IntakeError (List Message)) : Retains env (l.takeIn env result).1 := by
  cases result with
  | error e => exact env.retains_note rfl rfl
  | ok ms => exact (env.retains_note rfl rfl).trans (l.retains_absorbAll _ ms)

theorem retains_emitOne (l : Lease) (env : Environment) (e : Emission) :
    Retains env (l.emitOne env e).1 := by
  have h := env.retains_emit l.sink e
  unfold emitOne
  split <;> rename_i he <;> rw [he] at h <;> exact h

theorem retains_finishCommit (l : Lease) (env : Environment) :
    Retains env (l.finishCommit env).1 := by
  have h := env.retains_commit l.connection l.ledger.committable
  unfold finishCommit
  split
  · exact .refl env
  · split
    · exact .refl env
    · unfold commitLedger
      split <;> rename_i he <;> rw [he] at h <;>
        exact h.trans (Environment.retains_count _ (by simp))

theorem retains_abandon (l : Lease) (env : Environment) : Retains env (l.abandon env).1 := by
  unfold abandon
  split
  · exact .refl env
  · have hcounts : Retains env
        { env with metrics := env.metrics.add .messagesDiscarded l.ledger.count } :=
      .of_counts fun why => Metrics.count_add_of_ne (by simp) _ env.metrics
    dsimp only
    split
    · exact hcounts
    · have h := hcounts.trans (Environment.retains_rewind _ l.connection l.ledger.rewindPositions)
      split <;> rename_i he <;> rw [he] at h <;> exact h

end Lease

theorem Pool.retains_gaugeOutstanding (p : Pool) (env : Environment) :
    env.Retains (p.gaugeOutstanding env) := .of_counts fun _ => rfl

/-! ## Every step -/

namespace World

/-- A step in which neither the pool nor a question takes part: something happens outside, or a
lease goes on. -/
inductive Proceeds (w : World) : World → Prop where
  | outside {env : Environment} (h : w.env.Retains env) : Proceeds w { w with env := env }
  | lease {id : LeaseId} {ph ph' : Phase} {l l' : Lease} {env : Environment}
    {history : List Occurrence} (hph : w.phases.find? id = some ph) (hl : ph.lease? = some l)
    (hl' : ph'.lease? = some l') (h : w.env.Retains env) (hid : l'.id = l.id) :
    Proceeds w { w with env := env, phases := w.phases.insert id ph', history := history }

/-- What a step can do to the pool and its connections. -/
inductive Deals (w : World) : World → Prop where
  | proceeds {w' : World} (h : Proceeds w w') : Deals w w'
  | evictIdle :
    Deals w { w with env := (w.pool.evictIdle w.env).1, pool := (w.pool.evictIdle w.env).2.1 }
  | close : Deals w { w with env := (w.pool.close w.env).1, pool := (w.pool.close w.env).2 }
  | request (sink : String) : Deals w (w.request sink)
  | supply {id : LeaseId} {o : Offer} {sink : String}
    (hph : w.phases.find? id = some (.opening o sink)) : Deals w (w.supply id o sink)
  | abandon {id : LeaseId} {ph : Phase} {l : Lease} (hph : w.phases.find? id = some ph)
    (hl : ph.lease? = some l) : Deals w (w.abandon id l)
  | checkIn {id : LeaseId} {c : Connection} {discard : Bool}
    (hph : w.phases.find? id = some (.returning c discard)) : Deals w (w.checkIn id c discard)
  | inquire : Deals w w.inquire
  | connect {i : Nat} {s : Supply} (hx : w.inquiries[i]? = some (.taken s)) :
    Deals w (w.connect i s)
  | ask {i : Nat} {q : Pool.Query} (hx : w.inquiries[i]? = some (.asking q)) (topic : String) :
    Deals w (w.ask i q topic)
  | putBack {i : Nat} {q : Pool.Query} {faulty : Bool}
    (hx : w.inquiries[i]? = some (.answered q faulty)) : Deals w (w.putBack i q faulty)

open Environment (Retains)

variable {w : World}

theorem Proceeds.refl (w : World) : Proceeds w w := .outside (.refl w.env)

theorem proceeds_onCluster (w : World) (a : Scenario.ClusterAction) :
    Proceeds w (w.onCluster a) := by
  unfold onCluster
  dsimp only
  split
  · exact .outside (w.env.retains_apply a)
  · exact .refl w

theorem proceeds_advance (w : World) (ms : Nat) :
    Proceeds w { w with env := { w.env with now := w.env.now + ms } } :=
  .outside ⟨rfl, rfl, fun _ => rfl, Nat.le_add_right ..⟩

theorem proceeds_wake (w : World) (h : LeaseHandle) :
    Proceeds w { w with env := h.wake w.env } :=
  .outside ((w.env.retains_count (by simp)).trans (Environment.retains_raise _ h.signal))

theorem proceeds_continuePolling {id : LeaseId} {l : Lease}
    (hph : w.phases.find? id = some (.held l)) : Proceeds w (w.continuePolling id l) := by
  obtain ⟨state, hl, -⟩ := l.continuePolling_eq w.env
  have hid : (l.continuePolling w.env).1.id = l.id := by rw [hl]
  exact .lease hph rfl rfl (.refl w.env) hid

theorem proceeds_endPoll {id : LeaseId} {ph : Phase} {l₀ : Lease}
    (hph : w.phases.find? id = some ph) (hl : ph.lease? = some l₀) (l : Lease)
    (hid : l.id = l₀.id) {env : Environment} (henv : w.env.Retains env)
    (history : List Occurrence) (result : Except IntakeError (List Message)) :
    Proceeds w (({ w with env := env, history := history } : World).endPoll id l result) := by
  have h := henv.trans (l.retains_takeIn env result)
  have hid := (l.id_takeIn env result).trans hid
  unfold endPoll
  split <;> rename_i he <;> rw [he] at h hid <;> exact .lease hph hl rfl h hid

theorem proceeds_poll {id : LeaseId} {l : Lease} (hph : w.phases.find? id = some (.held l)) :
    Proceeds w (w.poll id l) := by
  have h := w.env.retains_startPoll l.connection l.settings.pollTimeout
  unfold poll
  split
  · exact .refl w
  · split
    rename_i env c p he
    rw [he] at h
    dsimp only
    split
    · exact .lease hph rfl rfl h rfl
    · exact proceeds_endPoll hph rfl { l with state := .polling, connection := c } rfl h _ _

theorem proceeds_resume {id : LeaseId} {l : Lease} {deadline : Option Nat}
    (hph : w.phases.find? id = some (.waiting l deadline)) :
    Proceeds w (w.resume id l deadline) := by
  have h := w.env.retains_resumePoll l.connection deadline
  unfold resume
  split <;> rename_i he <;> rw [he] at h
  · exact .lease hph rfl rfl h rfl
  · exact proceeds_endPoll hph rfl l rfl h w.history _

theorem proceeds_commit {id : LeaseId} {l : Lease} (hph : w.phases.find? id = some (.held l)) :
    Proceeds w (w.commit id l) := by
  unfold commit
  split
  · exact .refl w
  · exact .lease hph rfl rfl (.refl w.env) rfl

theorem proceeds_emit {id : LeaseId} {l : Lease} {units : List Emission} {errand : Errand}
    (hph : w.phases.find? id = some (.emitting l units errand)) :
    Proceeds w (w.emit id l units errand) := by
  unfold emit
  split
  · rename_i e units
    have h := l.retains_emitOne w.env e
    have hid := l.id_emitOne w.env e
    split <;> rename_i he <;> rw [he] at h hid <;> exact .lease hph rfl rfl h hid
  · exact .lease hph rfl rfl (.refl w.env) rfl
  · have h := l.retains_finishCommit w.env
    have hid := l.id_finishCommit w.env
    unfold finishCommit
    split
    rename_i env l' outcome he
    rw [he] at h hid
    dsimp only
    split
    · split
      · exact .lease hph rfl rfl h hid
      · exact .lease hph rfl rfl h hid
    · exact .lease hph rfl rfl h hid

theorem offer_lease {env : Environment} {p : Pool} {o : Offer}
    (h : w.pool.startObtain w.env = (env, p, some o)) : o.lease = w.pool.lastLease + 1 := by
  obtain ⟨-, ho⟩ := Pool.startObtain_some h
  obtain ⟨_, -, hid, -⟩ := Pool.offer_eq_some ho
  rw [hid, Pool.takeExpired_eq]

theorem checkIn_frame (w : World) (id : LeaseId) (c : Connection) (discard : Bool) :
    (w.checkIn id c discard).env = (w.pool.checkIn w.env id (some c) discard).1 ∧
      (w.checkIn id c discard).pool = (w.pool.checkIn w.env id (some c) discard).2 ∧
      (w.checkIn id c discard).phases = w.phases.insert id .ended ∧
      (w.checkIn id c discard).inquiries = w.inquiries := by
  unfold checkIn
  dsimp only
  split <;> exact ⟨rfl, rfl, rfl, rfl⟩

theorem deals_of_step {w' : World} (hstep : Step w w') : Deals w w' := by
  cases hstep with
  | stay => exact .proceeds (.refl w)
  | onCluster a => exact .proceeds (proceeds_onCluster w a)
  | advance ms => exact .proceeds (proceeds_advance w ms)
  | wake h => exact .proceeds (proceeds_wake w h)
  | evictIdle => exact .evictIdle
  | close => exact .close
  | request sink => exact .request sink
  | supply hph => exact .supply hph
  | continuePolling hph => exact .proceeds (proceeds_continuePolling hph)
  | poll hph => exact .proceeds (proceeds_poll hph)
  | resume hph => exact .proceeds (proceeds_resume hph)
  | commit hph => exact .proceeds (proceeds_commit hph)
  | emit hph => exact .proceeds (proceeds_emit hph)
  | abandon hph hl => exact .abandon hph hl
  | checkIn hph => exact .checkIn hph
  | inquire => exact .inquire
  | connect hx => exact .connect hx
  | ask hx topic => exact .ask hx topic
  | putBack hx => exact .putBack hx

end World
end RecordIntake
