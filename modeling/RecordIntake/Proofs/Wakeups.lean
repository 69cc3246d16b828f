import RecordIntake.Proofs.Exclusion
import RecordIntake.Proofs.Replies
import RecordIntake.Proofs.Signals
import RecordIntake.Proofs.Turnover

/-!
Whom a wakeup reaches.  A signal belongs to a connection, not to a lease, so a handle that is used
while its lease is out reaches that lease only, but one that is used later may reach whoever has the
connection then, or will get it next.

A lease is reached by no wakeup if its calls do and answer what they would if no signal were raised.
They do if the lease's own signal is not raised.  That is kept through a run together with the same
for all signals that the lease may yet get, because a connection comes back with its signal lowered,
and because other leases have other signals.
-/
namespace RecordIntake

/-- The same with no signal raised. -/
def Environment.hushed (env : Environment) : Environment := { env with raised := [] }

/-! ## Calls that find no signal raised -/

namespace Environment

@[simp] theorem hushed_now (env : Environment) : env.hushed.now = env.now := rfl

@[simp] theorem hushed_cluster (env : Environment) : env.hushed.cluster = env.cluster := rfl

theorem isRaised_hushed (env : Environment) (s : Signal) : env.hushed.isRaised s = false := rfl

theorem takeFault_hushed (env : Environment) (call : Call) :
    env.hushed.takeFault call = (env.takeFault call).map fun (e, env) => (e, env.hushed) := by
  simp only [takeFault, Option.map_map]
  rfl

theorem startPoll_hushed {env : Environment} {c : Connection} (h : env.isRaised c.signal = false)
    (timeout : Nat) :
    env.hushed.startPoll c timeout =
      ((env.startPoll c timeout).1.hushed, (env.startPoll c timeout).2) := by
  unfold startPoll
  rw [takeFault_hushed, isRaised_hushed, h]
  cases env.takeFault .poll with
  | some fault => rfl
  | none =>
    simp only [Option.map_none, Bool.false_eq_true, if_false, hushed_cluster, hushed_now]
    by_cases hblocks : env.cluster.blocksPolls = true
    · simp only [hblocks, if_true]
    · by_cases hmidway : env.cluster.takeMidwayInterrupt.1 = true
      · simp only [hblocks, hmidway, if_true]
        rfl
      · by_cases hempty : ((env.cluster.takeMidwayInterrupt.2.fetch c.subscription
            c.positions).1.isEmpty && decide (timeout ≠ 0)) = true
        · simp only [hblocks, hmidway, hempty, Bool.false_eq_true, if_false, if_true]
          rfl
        · simp only [hblocks, hmidway, hempty, Bool.false_eq_true, if_false]
          rfl

theorem resumePoll_hushed {env : Environment} {c : Connection}
    (h : env.isRaised c.signal = false) (deadline : Option Nat) :
    env.hushed.resumePoll c deadline =
      ((env.resumePoll c deadline).1.hushed, (env.resumePoll c deadline).2) := by
  unfold resumePoll
  rw [isRaised_hushed, h]
  cases deadline with
  | none => rfl
  | some t =>
    show (if t ≤ env.now then _ else _) = _
    simp only [Bool.false_eq_true, if_false]
    split <;> rfl

theorem commit_hushed (env : Environment) (c : Connection) (offsets : Offsets) :
    env.hushed.commit c offsets =
      ((env.commit c offsets).1.hushed, (env.commit c offsets).2) := by
  unfold commit
  rw [takeFault_hushed]
  cases env.takeFault .commit with
  | some fault => rfl
  | none => rfl

theorem emit_hushed (env : Environment) (name : String) (e : Emission) :
    env.hushed.emit name e = ((env.emit name e).1.hushed, (env.emit name e).2) := by
  unfold emit
  show (if (env.sink name).fails = true then _ else _) = _
  dsimp only
  split <;> rfl

end Environment

namespace Lease

variable {l : Lease} {env : Environment}

theorem continuePolling_hushed (h : env.isRaised l.connection.signal = false) :
    l.continuePolling env.hushed = l.continuePolling env := by
  unfold continuePolling
  rw [h]
  rfl

theorem absorbAll_hushed (l : Lease) (env : Environment) (ms : List Message) :
    l.absorbAll env.hushed ms = ((l.absorbAll env ms).1.hushed, (l.absorbAll env ms).2) := by
  induction ms generalizing l env with
  | nil => rfl
  | cons m ms ih =>
    have hrest := ih
      { l with
        accumulator := (l.accumulator.absorb m env.now).1
        ledger := l.ledger.record m.partition m.offset }
      { env with
        metrics := Accumulator.countAbsorbed l.accumulator.settings m
          (l.accumulator.absorb m env.now).2 env.metrics }
    exact congrArg (fun r => (r.1, r.2.1, (l.accumulator.absorb m env.now).2 ++ r.2.2)) hrest

theorem takeIn_hushed (l : Lease) (env : Environment)
    (result : Except IntakeError (List Message)) :
    l.takeIn env.hushed result = ((l.takeIn env result).1.hushed, (l.takeIn env result).2) := by
  cases result with
  | error e => rfl
  | ok ms =>
    have hnote : env.hushed.note (.polled l.connection.id (.ok ms.length)) =
        (env.note (.polled l.connection.id (.ok ms.length))).hushed := rfl
    simp only [takeIn, receive, Except.map, hnote, absorbAll_hushed, Environment.hushed_now]

theorem emitOne_hushed (l : Lease) (env : Environment) (e : Emission) :
    l.emitOne env.hushed e = ((l.emitOne env e).1.hushed, (l.emitOne env e).2) := by
  unfold emitOne
  rw [Environment.emit_hushed]
  cases hemit : env.emit l.sink e with
  | mk env' accepted => cases accepted <;> rfl

theorem finishCommit_hushed (h : env.isRaised l.connection.signal = false) :
    l.finishCommit env.hushed = ((l.finishCommit env).1.hushed, (l.finishCommit env).2) := by
  unfold finishCommit
  rw [h, Environment.isRaised_hushed]
  simp only [Bool.false_eq_true, if_false]
  split
  · rfl
  · unfold commitLedger
    rw [Environment.commit_hushed]
    cases hcommit : env.commit l.connection l.ledger.committable with
    | mk env' result =>
      cases result with
      | ok u => rfl
      | error e => cases e <;> rfl

end Lease

namespace World

variable {w w' : World} {id : LeaseId}

/-- The same with no signal raised. -/
def hushed (w : World) : World := { w with env := w.env.hushed }

/-- The signal of a lease is not raised, as long as it has a connection. -/
def Undisturbed (w : World) (id : LeaseId) : Prop :=
  ∀ ph l, w.phases.find? id = some ph → ph.lease? = some l →
    w.env.isRaised l.connection.signal = false

theorem endPoll_hushed (w : World) (id : LeaseId) (l : Lease)
    (result : Except IntakeError (List Message)) :
    w.hushed.endPoll id l result = (w.endPoll id l result).hushed := by
  have hin : l.takeIn w.hushed.env result = _ := l.takeIn_hushed w.env result
  unfold endPoll
  rw [hin]
  obtain ⟨env, l, outcome⟩ := l.takeIn w.env result
  cases outcome <;> rfl

theorem poll_hushed {l : Lease} (h : w.env.isRaised l.connection.signal = false) :
    w.hushed.poll id l = (w.poll id l).hushed := by
  have hpoll : w.hushed.env.startPoll l.connection l.settings.pollTimeout = _ :=
    Environment.startPoll_hushed h _
  unfold poll
  rw [hpoll]
  split
  · rfl
  · obtain ⟨env, c, p⟩ := w.env.startPoll l.connection l.settings.pollTimeout
    cases p with
    | waiting deadline => rfl
    | ended result =>
      exact endPoll_hushed (({ w with env := env } : World).remember
        (.read id w.env.cluster l.connection c (Progress.messages (.ended result)))) id _ result

theorem resume_hushed {l : Lease} (h : w.env.isRaised l.connection.signal = false)
    (deadline : Option Nat) : w.hushed.resume id l deadline = (w.resume id l deadline).hushed := by
  have hpoll : w.hushed.env.resumePoll l.connection deadline = _ :=
    Environment.resumePoll_hushed h deadline
  unfold resume
  rw [hpoll]
  obtain ⟨env, p⟩ := w.env.resumePoll l.connection deadline
  cases p with
  | waiting deadline => rfl
  | ended result => exact endPoll_hushed { w with env := env } id l result

theorem commit_hushed (w : World) (id : LeaseId) (l : Lease) :
    w.hushed.commit id l = (w.commit id l).hushed := by
  unfold commit
  split <;> rfl

theorem finishCommit_hushed {l : Lease} (h : w.env.isRaised l.connection.signal = false) :
    w.hushed.finishCommit id l = (w.finishCommit id l).hushed := by
  have hcommit : l.finishCommit w.hushed.env = _ := Lease.finishCommit_hushed h
  unfold finishCommit
  rw [hcommit]
  obtain ⟨env, l', outcome⟩ := l.finishCommit w.env
  dsimp only
  split
  · split <;> rfl
  · rfl

theorem emit_hushed {l : Lease} (h : w.env.isRaised l.connection.signal = false)
    (units : List Emission) (errand : Errand) :
    w.hushed.emit id l units errand = (w.emit id l units errand).hushed := by
  cases units with
  | cons e units =>
    have hone : l.emitOne w.hushed.env e = _ := l.emitOne_hushed w.env e
    simp only [emit]
    rw [hone]
    obtain ⟨env, l', outcome⟩ := l.emitOne w.env e
    cases outcome <;> rfl
  | nil =>
    cases errand with
    | poll => rfl
    | commit => exact finishCommit_hushed h

/-- A call of a lease whose signal is not raised does what it would if no signal were raised. -/
theorem act_hushed (h : Undisturbed w id) {b : Action} (hb : b.call? = some id) :
    w.hushed.act b = (w.act b).hushed := by
  have hph : w.hushed.phases = w.phases := rfl
  cases b with
  | continuePolling id' =>
    cases hb
    simp only [act, hph]
    split
    · rename_i l hfind
      have hcontinue : l.continuePolling w.hushed.env = _ :=
        Lease.continuePolling_hushed (h _ l hfind rfl)
      rw [continuePolling, hcontinue]
      rfl
    · rfl
  | poll id' =>
    cases hb
    simp only [act, hph]
    split
    · exact poll_hushed (h _ _ ‹_› rfl)
    · rfl
  | resume id' =>
    cases hb
    simp only [act, hph]
    split
    · exact resume_hushed (h _ _ ‹_› rfl) _
    · rfl
  | commit id' =>
    cases hb
    simp only [act, hph]
    split
    · exact commit_hushed ..
    · rfl
  | emit id' =>
    cases hb
    simp only [act, hph]
    split
    · exact emit_hushed (h _ _ ‹_› rfl) ..
    · rfl
  | _ => cases hb

/-- It answers the same, too. -/
theorem reply_hushed (h : Undisturbed w id) {b : Action} (hb : b.call? = some id) :
    w.hushed.reply b = w.reply b := by
  have hph : w.hushed.phases = w.phases := rfl
  cases b with
  | continuePolling id' =>
    cases hb
    simp only [reply, hph]
    split
    · rename_i l hfind
      have hcontinue : l.continuePolling w.hushed.env = _ :=
        Lease.continuePolling_hushed (h _ l hfind rfl)
      rw [hcontinue]
    · rfl
  | poll id' =>
    cases hb
    simp only [reply, hph]
    split
    · rename_i l hfind
      have hpoll : w.hushed.env.startPoll l.connection l.settings.pollTimeout = _ :=
        Environment.startPoll_hushed (h _ l hfind rfl) _
      rw [hpoll]
    · rfl
  | resume id' =>
    cases hb
    simp only [reply, hph]
    split
    · rename_i l deadline hfind
      have hpoll : w.hushed.env.resumePoll l.connection deadline = _ :=
        Environment.resumePoll_hushed (h _ l hfind rfl) deadline
      rw [hpoll]
    · rfl
  | commit id' =>
    cases hb
    simp only [reply, hph]
  | emit id' =>
    cases hb
    simp only [reply, hph]
    split
    · rename_i l e units errand hfind
      have hone : l.emitOne w.hushed.env e = _ := l.emitOne_hushed w.env e
      rw [hone]
    · rfl
    · rename_i l hfind
      have hcommit : l.finishCommit w.hushed.env = _ :=
        Lease.finishCommit_hushed (h _ l hfind rfl)
      rw [hcommit]
    · rfl
  | _ => cases hb

/-! ## Signals that a lease may come to have -/

/-- The signals that a lease has or may get: that of its own connection, those of connections that
are idle or used to ask, and those of connections that are still to come. -/
inductive MayHave (w : World) (id : LeaseId) : Signal → Prop where
  | own {loan : Loan} (h : w.pool.outstanding.find? id = some loan) : MayHave w id loan.signal
  | idle {i : IdleConnection} (h : i ∈ w.pool.idle) : MayHave w id i.connection.signal
  | inquiry {x : Inquiry} (h : x ∈ w.inquiries) : MayHave w id x.loan.signal
  | next {s : Signal} (h : w.pool.lastConnection < s.connection) : MayHave w id s

/-- What is drawn was idle, or is new. -/
theorem mayHave_drawn {p p' : Pool} {s : Supply} (hs : Pool.Draws p p' s)
    (hidle : ∀ i ∈ p.idle, i ∈ w.pool.idle) (hlast : w.pool.lastConnection ≤ p.lastConnection) :
    MayHave w id (Pool.Supply.loan s).signal := by
  cases hs with
  | idle h => exact .idle (hidle _ (h.mem_iff.mpr List.mem_cons_self))
  | fresh _ _ => exact .next (Nat.lt_succ_of_le hlast)

theorem mayHave_own (hstep : Step w w') (h : Owned w.pool w.phases w.inquiries) {loan : Loan}
    (hloan : w'.pool.outstanding.find? id = some loan) : MayHave w id loan.signal := by
  cases lends_of_step hstep h with
  | same hout hlast => exact .own (hout ▸ hloan)
  | lend hs hout hlast =>
    rw [hout, SortedMap.find?_insert] at hloan
    split at hloan
    · cases hloan
      exact mayHave_drawn hs (w.pool.sublist_takeExpired w.env.now).subset
        (Nat.le_of_eq (w.pool.lastConnection_takeExpired w.env.now).symm)
    · exact .own hloan
  | back hout hlast hph =>
    rw [hout, SortedMap.find?_erase h.sorted] at hloan
    split at hloan
    · cases hloan
    · exact .own hloan

/-- What becomes of the connections that no lease has.  One that comes back is idle with its signal
lowered. -/
structure Stocks (w w' : World) (id : LeaseId) : Prop where
  idle : ∀ i ∈ w'.pool.idle, MayHave w id i.connection.signal ∨
    w'.env.isRaised i.connection.signal = false
  inquiries : ∀ x ∈ w'.inquiries, MayHave w id x.loan.signal
  lastConnection : w.pool.lastConnection ≤ w'.pool.lastConnection

theorem Stocks.of_idle (hidle : ∀ i ∈ w'.pool.idle, i ∈ w.pool.idle)
    (hxs : w'.inquiries = w.inquiries) (hlast : w.pool.lastConnection ≤ w'.pool.lastConnection) :
    Stocks w w' id :=
  ⟨fun i hi => .inl (.idle (hidle i hi)), fun _ hx => .inquiry (hxs ▸ hx), hlast⟩

theorem stocks_of_step (hstep : Step w w') (h : Owned w.pool w.phases w.inquiries) :
    Stocks w w' id := by
  have hexpired := (w.pool.sublist_takeExpired w.env.now).subset
  have hlast := Nat.le_of_eq (w.pool.lastConnection_takeExpired w.env.now).symm
  cases deals_of_step hstep with
  | proceeds hp => cases hp <;> exact .of_idle (fun _ hi => hi) rfl (Nat.le_refl _)
  | evictIdle => exact .of_idle hexpired rfl hlast
  | close =>
    refine .of_idle (fun i hi => ?_) rfl (Nat.le_of_eq w.pool.same_shut.2.2.symm)
    rw [show (w.pool.close w.env).2 = w.pool.shut.1 from rfl, Pool.shut] at hi
    split at hi
    · exact hi
    · cases hi
  | request sink =>
    unfold request
    split
    · rename_i env p hr
      obtain rfl | rfl := Pool.startObtain_none hr
      · exact .of_idle (fun _ hi => hi) rfl (Nat.le_refl _)
      · exact .of_idle hexpired rfl hlast
    · rename_i env p o hr
      obtain ⟨p₁, hdraws, -, rfl⟩ := Pool.offer_eq_some (Pool.startObtain_some hr).2
      exact .of_idle (fun i hi => hexpired (hdraws.sublist i hi)) rfl
        (Nat.le_trans hlast hdraws.lastConnection_le)
  | @supply id' o sink hph =>
    unfold supply
    split
    · rename_i env p l hr
      obtain ⟨rfl, -⟩ := Pool.finishObtain_ok hr
      exact .of_idle (fun _ hi => hi) rfl (Nat.le_refl _)
    · rename_i env p e hr
      obtain ⟨now, rfl⟩ := Pool.finishObtain_error hr
      refine .of_idle (fun i hi => ?_) rfl (Nat.le_of_eq (Pool.lastConnection_takeBack ..).symm)
      obtain hi | ⟨hnone, -⟩ := Pool.mem_idle_takeBack hi
      · exact hi
      · cases hnone
  | abandon hph hl => exact .of_idle (fun _ hi => hi) rfl (Nat.le_refl _)
  | @checkIn id' c discard hph =>
    obtain ⟨henv, hpool, -, hxs⟩ := checkIn_frame w id' c discard
    have hraised := w.pool.raised_checkIn w.env id' c discard
    rw [Pool.checkIn_pool] at hpool
    refine ⟨fun i hi => ?_, fun x hx => .inquiry (hxs ▸ hx), ?_⟩
    · rw [hpool] at hi
      obtain hi | ⟨hkept, hd⟩ := Pool.mem_idle_takeBack hi
      · exact .inl (.idle hi)
      · right
        cases hkept
        rw [hd, if_neg Bool.false_ne_true, ← henv] at hraised
        rw [Environment.isRaised_congr hraised, Environment.isRaised_lower, Bool.and_eq_false_iff]
        exact .inr (decide_eq_false (not_not_intro rfl))
    · rw [hpool]
      exact Nat.le_of_eq (Pool.lastConnection_takeBack ..).symm
  | inquire =>
    unfold inquire
    obtain hs | ⟨-, hs⟩ := w.pool.supplyQuery_cases
    · rw [hs]
      exact .of_idle (fun _ hi => hi) rfl (Nat.le_refl _)
    · have hdraws := w.pool.supplyAny_draws
      rw [hs]
      refine ⟨fun i hi => .inl (.idle (hdraws.sublist i hi)), fun x hx => ?_,
        hdraws.lastConnection_le⟩
      obtain rfl | hx := List.mem_cons.mp hx
      · exact mayHave_drawn hdraws (fun _ hi => hi) (Nat.le_refl _)
      · exact .inquiry hx
  | @connect i s hx =>
    have hserves := h.inquiries _ (List.mem_of_getElem? hx)
    unfold connect
    split
    · rename_i env q hr
      refine ⟨fun i hi => .inl (.idle hi), fun x hx' => ?_, Nat.le_refl _⟩
      obtain hx' | rfl := List.mem_or_eq_of_mem_set hx'
      · exact .inquiry hx'
      · have hsignal := ((Pool.query_ok hr).1.serves hserves.of_taken).signal
        show MayHave w id q.connection.signal
        rw [hsignal]
        exact .inquiry (List.mem_of_getElem? hx)
    · exact ⟨fun i hi => .inl (.idle hi), fun x hx' => .inquiry (List.mem_of_mem_eraseIdx hx'),
        Nat.le_refl _⟩
  | @ask i q hx topic =>
    refine ⟨fun i hi => .inl (.idle hi), fun x hx' => ?_, Nat.le_refl _⟩
    obtain hx' | rfl := List.mem_or_eq_of_mem_set hx'
    · exact .inquiry hx'
    · exact .inquiry (x := .asking q) (List.mem_of_getElem? hx)
  | @putBack i q faulty hx =>
    have hpool := w.pool.returnQuery_pool w.env q faulty
    have hback := w.pool.endQuery_regains q faulty
    rw [← hpool] at hback
    refine ⟨fun j hj => .inl ?_, fun x hx' => .inquiry (List.mem_of_mem_eraseIdx hx'), ?_⟩
    · obtain hj | ⟨-, hc⟩ := hback.idle j hj
      · exact .idle hj
      · have hq : q.connection = j.connection := Option.some.inj hc
        rw [← hq]
        exact .inquiry (List.mem_of_getElem? hx)
    · exact Nat.le_of_eq hback.lastConnection.symm

/-- A lease comes to have no other signals than it might have, except lowered ones. -/
theorem mayHave_step (hstep : Step w w') (h : Owned w.pool w.phases w.inquiries) {s : Signal}
    (hs : MayHave w' id s) : MayHave w id s ∨ w'.env.isRaised s = false := by
  have hstocks : Stocks w w' id := stocks_of_step hstep h
  cases hs with
  | own hloan => exact .inl (mayHave_own hstep h hloan)
  | idle hi => exact hstocks.idle _ hi
  | inquiry hx => exact .inl (hstocks.inquiries _ hx)
  | next hlast => exact .inl (.next (Nat.lt_of_le_of_lt hstocks.lastConnection hlast))

/-- The signal of another lease that is out is not among them. -/
theorem not_mayHave_of_active (h : Owned w.pool w.phases w.inquiries) {handle : LeaseHandle}
    (hactive : handle ∈ w.pool.activeLeases) (hne : handle.id ≠ id) :
    ¬MayHave w id handle.signal := by
  obtain ⟨⟨id', loan⟩, hmem, rfl⟩ := List.mem_map.mp hactive
  have hloan : w.pool.outstanding.find? id' = some loan := SortedMap.find?_of_mem h.sorted hmem
  show ¬MayHave w id loan.signal
  generalize hs : loan.signal = s
  intro hmay
  cases hmay with
  | own hown => exact (apart_lease h hloan hown (Ne.symm hne)).number (by rw [hs])
  | idle hi => exact (apart_idle h hloan hi).number (congrArg Signal.connection hs.symm)
  | inquiry hx => exact (apart_inquiry h hloan hx).number (congrArg Signal.connection hs.symm)
  | next hlast =>
    have hlent := List.count_pos_iff.mpr (mem_lentIds hloan)
    have hnone := (h.numbered loan.signal.connection).2 (hs ▸ hlast)
    omega

/-! ## Handles -/

/-- A lease has the number that it is kept under. -/
def Named (w : World) : Prop :=
  ∀ id ph l, w.phases.find? id = some ph → ph.lease? = some l → l.id = id

theorem Named.insert (h : Named w) {ph' : Phase} (hph' : ∀ l, ph'.lease? = some l → l.id = id)
    (hphases : w'.phases = w.phases.insert id ph') : Named w' := by
  intro id₁ ph l hph hl
  rw [hphases, SortedMap.find?_insert] at hph
  split at hph
  · rename_i heq
    cases hph
    exact (hph' l hl).trans heq.symm
  · exact h id₁ ph l hph hl

theorem named_step (hstep : Step w w') (h : Owned w.pool w.phases w.inquiries) (hn : Named w) :
    Named w' := by
  have hnone : ∀ ph : Phase, ph.lease? = none → ∀ id l, ph.lease? = some l → l.id = id := by
    intro ph hph id l hl
    rw [hph] at hl
    cases hl
  cases deals_of_step hstep with
  | proceeds hp =>
    cases hp with
    | outside hretains => exact hn
    | @lease id ph ph' l l' env history hph hl hl' hretains hid =>
      refine hn.insert (fun l₁ hl₁ => ?_) rfl
      rw [hl'] at hl₁
      cases hl₁
      exact hid.trans (hn id ph l hph hl)
  | evictIdle => exact hn
  | close => exact hn
  | request sink =>
    unfold request
    split
    · exact hn
    · exact hn.insert (hnone _ rfl _) rfl
  | @supply id o sink hph =>
    unfold supply
    split
    · rename_i env p l hr
      obtain ⟨-, c, -, rfl⟩ := Pool.finishObtain_ok hr
      obtain hended | ⟨_, -, hid, -⟩ := h.phases id _ hph
      · cases hended
      refine hn.insert (fun l hl => ?_) rfl
      cases hl
      exact hid
    · exact hn.insert (hnone _ rfl _) rfl
  | abandon hph hl => exact hn.insert (hnone _ rfl _) rfl
  | @checkIn id c discard hph =>
    exact hn.insert (hnone _ rfl _) (checkIn_frame w id c discard).2.2.1
  | inquire =>
    unfold inquire
    split <;> exact hn
  | connect hx =>
    unfold connect
    split <;> exact hn
  | ask hx topic => exact hn
  | putBack hx => exact hn

/-- The handle that a lease gives away is one of those that the pool lists. -/
theorem handle_active (maxPollRecords now : Nat) (s : Subscription) (reader : RecordReader)
    (settings : IntakeSettings) (as : List Action) {ph : Phase} {l : Lease}
    (hph : ((start maxPollRecords now s reader settings).run as).phases.find? id = some ph)
    (hl : ph.lease? = some l) :
    l.handle ∈ ((start maxPollRecords now s reader settings).run as).pool.activeLeases := by
  have hstart : Named (start maxPollRecords now s reader settings) := fun _ _ _ h => by cases h
  obtain ⟨howned, hnamed⟩ := run_induction
    (P := fun w => Owned w.pool w.phases w.inquiries ∧ Named w)
    (fun _ _ hstep h => ⟨owned_step hstep h.1, named_step hstep h.1 h.2⟩)
    ⟨.start 0 s reader settings now, hstart⟩ as
  have hloan := SortedMap.mem_of_find? (signal_of_lease howned hph hl)
  refine List.mem_map.mpr ⟨_, hloan, ?_⟩
  rw [Lease.handle, hnamed id ph l hph hl]

/-! ## Runs -/

/-- None of the signals is raised that a lease has or may get. -/
def Spared (w : World) (id : LeaseId) : Prop :=
  ∀ s, MayHave w id s → w.env.isRaised s = false

/-- Whether every wakeup of a run goes through the handle of a lease that is out then. -/
def wakesInTime (w : World) : List Action → Bool
  | [] => true
  | a :: as =>
    (match a with
      | .wake h => w.pool.activeLeases.contains h
      | _ => true) && (w.act a).wakesInTime as

theorem spared_act {a : Action} (h : Owned w.pool w.phases w.inquiries) (hs : Spared w id)
    (hwake : ∀ handle, a = .wake handle → handle ∈ w.pool.activeLeases ∧ handle.id ≠ id) :
    Spared (w.act a) id := by
  intro s hmay
  obtain hmay | hlowered := mayHave_step (act_step w a) h hmay
  swap
  · exact hlowered
  refine Bool.eq_false_iff.mpr fun hraised => ?_
  obtain hraised | ⟨handle, ha, rfl⟩ := isRaised_act hraised
  · rw [hs s hmay] at hraised
    cases hraised
  · obtain ⟨hactive, hne⟩ := hwake handle ha
    exact not_mayHave_of_active h hactive hne hmay

theorem spared_run (h : Owned w.pool w.phases w.inquiries) (hs : Spared w id) {as : List Action}
    (hintime : w.wakesInTime as = true) (hothers : ∀ handle, .wake handle ∈ as → handle.id ≠ id) :
    Spared (w.run as) id := by
  induction as generalizing w with
  | nil => exact hs
  | cons a as ih =>
    simp only [wakesInTime, Bool.and_eq_true] at hintime
    refine ih (owned_step (act_step w a) h) (spared_act h hs fun handle ha => ?_) hintime.2
      fun handle hmem => hothers handle (List.mem_cons_of_mem _ hmem)
    subst ha
    exact ⟨List.contains_iff_mem.mp hintime.1, hothers handle List.mem_cons_self⟩

theorem Spared.undisturbed (h : Owned w.pool w.phases w.inquiries) (hs : Spared w id) :
    Undisturbed w id :=
  fun _ _ hph hl => hs _ (.own (signal_of_lease h hph hl))

/-- In a run in which every wakeup goes through the handle of a lease that is out, a lease that was
not woken itself is not disturbed: each of its calls does and answers what it would if no signal
were raised.  In particular none that was sent to an earlier lease on the same connection is
left. -/
theorem wakeups_confined (maxPollRecords now : Nat) (s : Subscription) (reader : RecordReader)
    (settings : IntakeSettings) {as : List Action}
    (hintime : (start maxPollRecords now s reader settings).wakesInTime as = true) {id : LeaseId}
    (hothers : ∀ h, .wake h ∈ as → h.id ≠ id) {b : Action} (hb : b.call? = some id) :
    let w := (start maxPollRecords now s reader settings).run as
    w.reply b = w.hushed.reply b ∧ (w.act b).hushed = w.hushed.act b := by
  intro w
  have howned : Owned w.pool w.phases w.inquiries := owned_run ..
  have hspared : Spared w id := by
    refine spared_run (.start 0 s reader settings now) (fun s _ => rfl) hintime hothers
  have hundisturbed := hspared.undisturbed howned
  exact ⟨(reply_hushed hundisturbed hb).symm, (act_hushed hundisturbed hb).symm⟩

/-- A connection is lent, its lease is woken and comes back, and the connection is lent again. -/
def wakeAndLendAgain : List Action :=
  [.request "s", .supply 1, .wake ⟨1, ⟨0, 1⟩⟩, .abandon 1, .checkIn 1, .request "s", .supply 2]

theorem wakeups_confined_wakeAndLendAgain :
    let w := (start 10 0 (.topics ["events"]) Record.read {}).run wakeAndLendAgain
    w.hushed.reply (.continuePolling 2) = some (.continued true) ∧
      w.reply (.continuePolling 2) = some (.continued true) := by
  intro w
  have hintime : (start 10 0 (.topics ["events"]) Record.read {}).wakesInTime wakeAndLendAgain =
      true := by decide +kernel
  have hothers : ∀ h : LeaseHandle, .wake h ∈ wakeAndLendAgain → h.id ≠ 2 := by
    intro h hmem
    simp only [wakeAndLendAgain, List.mem_cons, reduceCtorEq, Action.wake.injEq, false_or,
      or_false, List.not_mem_nil] at hmem
    rw [hmem]
    decide
  obtain ⟨hreply, -⟩ := wakeups_confined 10 0 (.topics ["events"]) Record.read {} hintime hothers
    (show (Action.continuePolling 2).call? = some 2 from rfl)
  have htrue : w.hushed.reply (.continuePolling 2) = some (.continued true) := rfl
  exact ⟨htrue, hreply.trans htrue⟩

/-- A handle that is used when its lease is over reaches the lease that has the connection now. -/
theorem late_wakeup_reaches_next_borrower :
    let lent := (start 10 0 (.topics ["events"]) Record.read {}).run [.request "s", .supply 1]
    let again := lent.run [.abandon 1, .checkIn 1, .request "s", .supply 2]
    let handle : LeaseHandle := ⟨1, ⟨0, 1⟩⟩
    handle ∈ lent.pool.activeLeases ∧ handle ∉ again.pool.activeLeases ∧
      again.reply (.continuePolling 2) = some (.continued true) ∧
      (again.act (.wake handle)).reply (.continuePolling 2) = some (.continued false) ∧
      (again.act (.wake handle)).reply (.poll 2) = some (.polled (.error .interrupted)) :=
  ⟨by decide +kernel, by decide +kernel, rfl, rfl, rfl⟩

end World
end RecordIntake
