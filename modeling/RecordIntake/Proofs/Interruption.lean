import RecordIntake.Proofs.Exclusion
import RecordIntake.Proofs.Replies
import RecordIntake.Proofs.Signals
import RecordIntake.Proofs.Turnover

/-!
A lease that was woken or has failed does not commit any more.  The signal of a woken lease stays
raised until a poll takes it, and then the lease has failed; a lease that has failed stays so until
it is given back.  In between nobody but the lease itself can take the signal, because no other
lease has its connection.
-/
namespace RecordIntake

/-- Whether an event is a call to commit offsets, with whatever result. -/
def Event.isCommit : Event → Bool
  | .committed _ _ _ => true
  | _ => false

/-- The calls to commit offsets in a journal. -/
def commitCalls (events : List Event) : List Event := events.filter Event.isCommit

theorem commitCalls_steady {env env' : Environment} (h : env.Steady env') :
    commitCalls env'.journal = commitCalls env.journal := by
  obtain ⟨es, hes, hj⟩ := h.journal
  have hnone : commitCalls es = [] := by
    refine List.filter_eq_nil_iff.mpr fun e he hc => ?_
    have hquiet := hes e he
    cases e <;> simp [Event.isCommit, Event.isQuiet] at hc hquiet
  rw [hj, commitCalls, List.filter_append]
  show commitCalls es ++ _ = _
  rw [hnone]
  rfl

namespace World

variable {w w' : World} {id : LeaseId}

/-! ## Leases that have failed -/

/-- A lease that can do nothing any more stays so, and its number is not given out again. -/
theorem silent_step (hstep : Step w w') (hid : id ≤ w.pool.lastLease) (h : Silent w id) :
    Silent w' id := by
  cases hstep with
  | stay => exact h
  | onCluster a =>
    unfold onCluster
    dsimp only
    split
    · exact h.congr rfl
    · exact h
  | advance ms => exact h.congr rfl
  | wake handle => exact h.congr rfl
  | evictIdle => exact h.congr rfl
  | close => exact h.congr rfl
  | request sink =>
    unfold request
    split
    · exact h.congr rfl
    · rename_i env p o hr
      refine h.insert (fun heq => ?_) rfl
      rw [heq, offer_lease hr] at hid
      exact absurd hid (Nat.not_succ_le_self _)
  | supply hph =>
    unfold supply
    split
    · exact h.other hph rfl ⟨_, rfl⟩
    · exact h.other hph rfl ⟨_, rfl⟩
  | @continuePolling id' l hph =>
    obtain ⟨state, hl, hfault⟩ := l.continuePolling_eq w.env
    refine h.insert (fun heq => ?_) rfl
    rw [hl]
    exact decide_eq_true (hfault (h.faulted (heq ▸ hph)))
  | @poll id' l hph =>
    by_cases hl : l.state = .faulted
    · rw [poll, if_pos hl]
      exact h
    · exact h.other hph (decide_eq_false hl) (phases_poll hl w id')
  | resume hph => exact h.other hph rfl (phases_resume ..)
  | @commit id' l hph =>
    by_cases hl : l.state = .faulted
    · rw [commit, if_pos hl]
      exact h
    · rw [commit, if_neg hl]
      exact h.other hph (decide_eq_false hl) ⟨_, rfl⟩
  | emit hph => exact h.other hph rfl (phases_emit ..)
  | abandon hph hl => exact h.insert (fun _ => rfl) rfl
  | @checkIn id' c discard hph =>
    exact h.insert (fun _ => rfl) (checkIn_frame w id' c discard).2.2.1
  | inquire =>
    unfold inquire
    split
    · exact h.congr rfl
    · exact h.congr rfl
  | connect hx =>
    unfold connect
    split
    · exact h.congr rfl
    · exact h.congr rfl
  | ask hx topic => exact h.congr rfl
  | putBack hx => exact h.congr rfl

/-! ## Leases that were woken -/

/-- The lease is out, and the signal of its connection is raised. -/
def Woken (w : World) (id : LeaseId) : Prop :=
  ∃ loan, w.pool.outstanding.find? id = some loan ∧ w.env.isRaised loan.signal = true

/-- No lease can take the signal of another one. -/
theorem isRaised_lower_other (h : Owned w.pool w.phases w.inquiries) {loan loan' : Loan}
    {id' : LeaseId} (hloan : w.pool.outstanding.find? id = some loan)
    (hloan' : w.pool.outstanding.find? id' = some loan') (hne : id' ≠ id)
    (hraised : w.env.isRaised loan.signal = true) :
    (w.env.lower loan'.signal).isRaised loan.signal = true := by
  have hapart := (apart_lease h hloan hloan' hne).number
  rw [Environment.isRaised_lower, hraised, Bool.true_and, decide_eq_true_eq]
  exact fun heq => hapart (congrArg Signal.connection heq).symm

/-- A lease that is out stays so, with the same connection, until it is over. -/
theorem out_step (hstep : Step w w') (h : Owned w.pool w.phases w.inquiries) {loan : Loan}
    (hloan : w.pool.outstanding.find? id = some loan) :
    w'.pool.outstanding.find? id = some loan ∨ Silent w' id := by
  cases lends_of_step hstep h with
  | same hout hlast => exact .inl (hout ▸ hloan)
  | lend hs hout hlast =>
    refine .inl ?_
    rw [hout, SortedMap.find?_insert, if_neg, hloan]
    rintro rfl
    rw [h.find?_next] at hloan
    cases hloan
  | @back id' hout hlast hph =>
    by_cases heq : id = id'
    · exact .inr ⟨.ended, heq ▸ hph, rfl⟩
    · refine .inl ?_
      rw [hout, SortedMap.find?_erase h.sorted, if_neg heq, hloan]

/-- A lease that was woken stays so until it has failed or is over. -/
theorem woken_act (a : Action) (h : Owned w.pool w.phases w.inquiries) (hwoken : Woken w id) :
    Woken (w.act a) id ∨ Silent (w.act a) id := by
  obtain ⟨loan, hloan, hraised⟩ := hwoken
  have hout := out_step (act_step w a) h hloan
  have hsignals := signals_of_act w a
  generalize w.act a = w' at hout hsignals ⊢
  obtain hout | hsilent := hout
  swap
  · exact .inr hsilent
  cases hsignals with
  | keeps hr => exact .inl ⟨loan, hout, (Environment.isRaised_congr hr _).trans hraised⟩
  | wakes handle =>
    refine .inl ⟨loan, hout, ?_⟩
    show ((w.env.count .wakeups).raise handle.signal).isRaised loan.signal = true
    rw [Environment.isRaised_raise]
    have hcount : (w.env.count .wakeups).isRaised loan.signal = true := hraised
    rw [hcount, Bool.true_or]
  | @takes _ _ id' ph l l' hph hl hph' hfault hr =>
    by_cases heq : id' = id
    · subst heq
      exact .inr ⟨_, hph', decide_eq_true hfault⟩
    · refine .inl ⟨loan, hout, ?_⟩
      rw [Environment.isRaised_congr hr]
      exact isRaised_lower_other h hloan (signal_of_lease h hph hl) heq hraised
  | @returns _ _ id' c discard hph hph' hr =>
    by_cases heq : id' = id
    · subst heq
      exact .inr ⟨_, hph', rfl⟩
    · refine .inl ⟨loan, hout, ?_⟩
      obtain hended | ⟨loan', hloan', hserves⟩ := h.phases id' _ hph
      · cases hended
      rw [Environment.isRaised_congr hr, hserves.signal]
      exact isRaised_lower_other h hloan hloan' heq hraised

/-! ## Leases that do not commit any more -/

/-- The lease was woken or can do nothing any more, and no other lease will have its number. -/
structure Stopped (w : World) (id : LeaseId) : Prop where
  issued : id ≤ w.pool.lastLease
  stopped : Woken w id ∨ Silent w id

theorem lastLease_step (hstep : Step w w') (h : Owned w.pool w.phases w.inquiries) :
    w.pool.lastLease ≤ w'.pool.lastLease := by
  cases lends_of_step hstep h with
  | same hout hlast => exact Nat.le_of_eq hlast.symm
  | lend hs hout hlast => exact hlast ▸ Nat.le_succ _
  | back hout hlast hph => exact Nat.le_of_eq hlast.symm

theorem stopped_act (a : Action) (h : Owned w.pool w.phases w.inquiries) (hs : Stopped w id) :
    Stopped (w.act a) id where
  issued := Nat.le_trans hs.issued (lastLease_step (act_step w a) h)
  stopped := by
    obtain hwoken | hsilent := hs.stopped
    · exact woken_act a h hwoken
    · exact .inr (silent_step (act_step w a) hs.issued hsilent)

theorem stopped_run (h : Owned w.pool w.phases w.inquiries) (hs : Stopped w id)
    (as : List Action) : Owned (w.run as).pool (w.run as).phases (w.run as).inquiries ∧
      Stopped (w.run as) id := by
  induction as generalizing w with
  | nil => exact ⟨h, hs⟩
  | cons a as ih => exact ih (owned_step (act_step w a) h) (stopped_act a h hs)

theorem silent_run (h : Owned w.pool w.phases w.inquiries) (hid : id ≤ w.pool.lastLease)
    (hs : Silent w id) (as : List Action) : Silent (w.run as) id :=
  (run_induction
    (P := fun w => Owned w.pool w.phases w.inquiries ∧ id ≤ w.pool.lastLease ∧ Silent w id)
    (fun _ _ hstep h => ⟨owned_step hstep h.1,
      Nat.le_trans h.2.1 (lastLease_step hstep h.1), silent_step hstep h.2.1 h.2.2⟩)
    ⟨h, hid, hs⟩ as).2.2

/-! ## Calls to commit -/

theorem steady_endPoll {env : Environment} (henv : w.env.Steady env) (history : List Occurrence)
    (id : LeaseId) (l : Lease) (result : Except IntakeError (List Message)) :
    w.env.Steady (({ w with env := env, history := history } : World).endPoll id l result).env := by
  unfold endPoll
  cases result with
  | error e => exact henv.trans (env.steady_note rfl)
  | ok ms =>
    obtain ⟨env', hsteady, hin⟩ := l.takeIn_ok env ms
    simp only [hin]
    exact henv.trans hsteady

theorem steady_poll (w : World) (id : LeaseId) (l : Lease) : w.env.Steady (w.poll id l).env := by
  have hsteady := w.env.steady_startPoll l.connection l.settings.pollTimeout
  unfold poll
  split
  · exact .refl w.env
  · split
    rename_i env c p he
    rw [he] at hsteady
    dsimp only
    split
    · exact hsteady
    · exact steady_endPoll hsteady _ id _ _

theorem steady_resume (w : World) (id : LeaseId) (l : Lease) (deadline : Option Nat) :
    w.env.Steady (w.resume id l deadline).env := by
  have hsteady := w.env.steady_resumePoll l.connection deadline
  unfold resume
  split
  · rename_i env deadline he
    rw [he] at hsteady
    exact hsteady
  · rename_i env result he
    rw [he] at hsteady
    exact steady_endPoll hsteady _ id _ _

/-- Only the end of a commit asks the cluster to commit, and not if the signal is raised. -/
theorem commitCalls_emit (w : World) (id : LeaseId) {l : Lease} {units : List Emission}
    {errand : Errand} (hraised : w.env.isRaised l.connection.signal = true) :
    commitCalls (w.emit id l units errand).env.journal = commitCalls w.env.journal := by
  unfold emit
  split
  · split
    · rename_i env l' hone
      obtain ⟨-, -, hj⟩ := Lease.emitOne_ok hone
      show commitCalls env.journal = _
      rw [hj]
      rfl
    · rename_i hone
      obtain ⟨-, hsteady⟩ := Lease.emitOne_error hone
      exact commitCalls_steady hsteady
  · rfl
  · rw [finishCommit, Lease.finishCommit, if_pos hraised]
    rfl

/-- A lease that was woken does not commit. -/
theorem commitCalls_woken (h : Owned w.pool w.phases w.inquiries) (hwoken : Woken w id)
    {b : Action} (hb : b.call? = some id) :
    commitCalls (w.act b).env.journal = commitCalls w.env.journal := by
  cases b with
  | continuePolling id' =>
    simp only [act]
    split <;> rfl
  | poll id' =>
    simp only [act]
    split
    · exact commitCalls_steady (steady_poll ..)
    · rfl
  | resume id' =>
    simp only [act]
    split
    · exact commitCalls_steady (steady_resume ..)
    · rfl
  | commit id' =>
    simp only [act]
    split
    · unfold commit
      split <;> rfl
    · rfl
  | emit id' =>
    cases hb
    simp only [act]
    split
    · rename_i l units errand hph
      obtain ⟨loan, hloan, hraised⟩ := hwoken
      rw [signal_of_lease h hph rfl] at hloan
      cases hloan
      exact commitCalls_emit w _ hraised
    · rfl
  | _ => cases hb

theorem commitCalls_stopped (h : Owned w.pool w.phases w.inquiries) (hs : Stopped w id)
    {b : Action} (hb : b.call? = some id) :
    commitCalls (w.act b).env.journal = commitCalls w.env.journal := by
  obtain hwoken | hsilent := hs.stopped
  · exact commitCalls_woken h hwoken hb
  · rw [(silent_call hsilent hb).1]

theorem issued_of_faulted (h : Owned w.pool w.phases w.inquiries) (hf : Faulted w id) :
    id ≤ w.pool.lastLease := by
  obtain ⟨l, hph, -⟩ := hf
  exact h.issued _ (SortedMap.mem_of_find? (signal_of_lease h hph rfl))

/-- Once a poll or commit of a lease has failed or was refused, its calls change nothing and answer
nothing but failures: nothing is committed and nothing reaches its sink.  Once it was woken while it
was out, it does not call the cluster to commit either. -/
theorem stopped_lease_never_commits (maxPollRecords now : Nat) (s : Subscription)
    (reader : RecordReader) (settings : IntakeSettings) (as : List Action) (a : Action)
    (later : List Action) {id : LeaseId} {b : Action} (hb : b.call? = some id) :
    let w := (start maxPollRecords now s reader settings).run as
    let w' := (w.act a).run later
    (∀ r, a.call? = some id → w.reply a = some r → r.fails = true →
      (w.act a).Faulted id ∧ (w'.act b).env = w'.env ∧
        ∀ r', w'.reply b = some r' → r' = .continued false ∨ r'.fails = true) ∧
      ∀ loan h, w.pool.outstanding.find? id = some loan → h.signal = loan.signal → a = .wake h →
        commitCalls (w'.act b).env.journal = commitCalls w'.env.journal := by
  intro w w'
  have howned : Owned w.pool w.phases w.inquiries := owned_run ..
  have howned₁ := owned_step (act_step w a) howned
  refine ⟨fun r ha hr hf => ?_, fun loan h hloan hsignal ha => ?_⟩
  · obtain ⟨id', ha', hfault⟩ := faulted_of_fails hr hf
    obtain rfl : id = id' := Option.some.inj (ha.symm.trans ha')
    have hissued := issued_of_faulted howned₁ hfault
    have hsilent : Silent w' id := silent_run howned₁ hissued hfault.silent later
    exact ⟨hfault, silent_call hsilent hb⟩
  · subst ha
    have hwoken : Woken (w.act (.wake h)) id := by
      refine ⟨loan, hloan, ?_⟩
      show ((w.env.count .wakeups).raise h.signal).isRaised loan.signal = true
      rw [Environment.isRaised_raise, hsignal, decide_eq_true rfl, Bool.or_true]
    have hissued : id ≤ (w.act (.wake h)).pool.lastLease :=
      howned.issued _ (SortedMap.mem_of_find? hloan)
    obtain ⟨howned', hstopped⟩ := stopped_run howned₁ ⟨hissued, .inl hwoken⟩ later
    exact commitCalls_stopped howned' hstopped hb

/-- A lease is about to hand on what its commit has to hand on first. -/
def pollAndCommit : List Action :=
  [.onCluster (.produce ⟨⟨"t", 0⟩, 0, none, some [123, 125], none, []⟩), .request "s", .supply 1,
    .poll 1, .emit 1, .commit 1]

/-- A wakeup that arrives meanwhile prevents the call to the cluster, and then the lease is of no
use. -/
theorem stopped_lease_never_commits_pollAndCommit :
    let w := (start 10 0 (.partitions [("t", [0])]) Record.read {}).run pollAndCommit
    let handed := (w.act (.wake ⟨1, ⟨0, 1⟩⟩)).act (.emit 1)
    let stopped := handed.act (.emit 1)
    commitCalls stopped.env.journal = commitCalls handed.env.journal ∧ stopped.Faulted 1 ∧
      ∃ r, stopped.reply (.continuePolling 1) = some r ∧ (r = .continued false ∨ r.fails = true) := by
  intro w handed stopped
  have hout : w.pool.outstanding.find? 1 = some ⟨⟨0, 1⟩, some ⟨"t", 0⟩⟩ := by decide +kernel
  have hfails : (handed.reply (.emit 1)).any Reply.fails = true := by decide +kernel
  have hanswers : (stopped.reply (.continuePolling 1)).isSome = true := by decide +kernel
  obtain ⟨-, hwoken⟩ := stopped_lease_never_commits 10 0 (.partitions [("t", [0])]) Record.read {}
    pollAndCommit (.wake ⟨1, ⟨0, 1⟩⟩) [.emit 1] (show (Action.emit 1).call? = some 1 from rfl)
  obtain ⟨hfailed, -⟩ := stopped_lease_never_commits 10 0 (.partitions [("t", [0])]) Record.read {}
    (pollAndCommit ++ [.wake ⟨1, ⟨0, 1⟩⟩, .emit 1]) (.emit 1) []
    (show (Action.continuePolling 1).call? = some 1 from rfl)
  obtain ⟨r, hr, hf⟩ := (Option.any_eq_true _ _).mp hfails
  obtain ⟨hfault, -, hrefuses⟩ := hfailed r rfl hr hf
  obtain ⟨r', hr'⟩ := Option.isSome_iff_exists.mp hanswers
  exact ⟨hwoken _ _ hout rfl rfl, hfault, r', hr', hrefuses r' hr'⟩

end World
end RecordIntake
