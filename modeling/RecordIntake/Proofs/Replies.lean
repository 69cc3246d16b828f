import RecordIntake.Proofs.Calls
import RecordIntake.Proofs.Lease

/-!
What the calls on a lease answer.  A call has an answer when its last step is over.  A poll or
commit that answers anything but success leaves the lease faulted, and from then on no call does
anything.
-/
namespace RecordIntake

/-- What a call on a lease has come to. -/
inductive Reply where
  | continued (b : Bool)
  | polled (result : Except IntakeError Unit)
  | committed (result : Except IntakeError Bool)

namespace Reply

/-- Whether a poll or a commit did not succeed.  A commit that was refused is no error, but no
success either. -/
def fails : Reply → Bool
  | .continued _ => false
  | .polled (.ok ()) => false
  | .polled (.error _) => true
  | .committed (.ok true) => false
  | .committed _ => true

/-- The answer of a call that failed while its units were handed on. -/
def failed (e : IntakeError) : Errand → Reply
  | .poll => .polled (.error e)
  | .commit => .committed (.error e)

/-- The answer of a poll, if it is known already.  A poll that has brought messages is over when
what is due then was handed on. -/
def ofPoll : Progress (Except IntakeError (List Message)) → Option Reply
  | .ended (.error e) => some (.polled (.error e))
  | .ended (.ok _) | .waiting _ => none

end Reply

/-- The lease to whose calls a step belongs. -/
def Action.call? : Action → Option LeaseId
  | .continuePolling id | .poll id | .resume id | .commit id | .emit id => some id
  | _ => none

namespace World

/-- What is answered when a step is the last one of a call on a lease. -/
def reply (w : World) : Action → Option Reply
  | .continuePolling id =>
    match w.phases.find? id with
    | some (.held l) => some (.continued (l.continuePolling w.env).2)
    | _ => none
  | .poll id =>
    match w.phases.find? id with
    | some (.held l) =>
      if l.state = .faulted then some (.polled (.error l.unusable))
      else Reply.ofPoll (w.env.startPoll l.connection l.settings.pollTimeout).2.2
    | _ => none
  | .resume id =>
    match w.phases.find? id with
    | some (.waiting l deadline) => Reply.ofPoll (w.env.resumePoll l.connection deadline).2
    | _ => none
  | .commit id =>
    match w.phases.find? id with
    | some (.held l) =>
      if l.state = .faulted then some (.committed (.error l.unusable)) else none
    | _ => none
  | .emit id =>
    match w.phases.find? id with
    | some (.emitting l (e :: _) errand) =>
      match (l.emitOne w.env e).2.2 with
      | .ok () => none
      | .error fault => some (.failed fault errand)
    | some (.emitting _ [] .poll) => some (.polled (.ok ()))
    | some (.emitting l [] .commit) => some (.committed (l.finishCommit w.env).2.2)
    | _ => none
  | _ => none

/-! ## Whole calls -/

/-- A run leads from one world to the other, and its last step answers. -/
def Answers (w : World) (r : Reply) (w' : World) : Prop :=
  ∃ as a, (w.run as).reply a = some r ∧ (w.run as).act a = w'

theorem Answers.of_act {w : World} {a : Action} {r : Reply} (h : w.reply a = some r) :
    Answers w r (w.act a) := ⟨[], a, h, rfl⟩

theorem Reaches.answers {w w' w'' : World} {r : Reply} (h : Reaches w w')
    (h' : Answers w' r w'') : Answers w r w'' := by
  obtain ⟨as, rfl⟩ := h
  obtain ⟨bs, a, hr, ha⟩ := h'
  have hrun : w.run (as ++ bs) = (w.run as).run bs := List.foldl_append
  exact ⟨as ++ bs, a, hrun ▸ hr, hrun ▸ ha⟩

/-- The answer when a unit is refused is the one of the call. -/
theorem emitAll_answers {w : World} {id : LeaseId} {units : List Emission} {errand : Errand}
    {l : Lease} (hph : w.phases.find? id = some (.emitting l units errand)) {e : IntakeError}
    (he : (l.emitAll w.env units).2.2 = .error e) :
    ∃ w', Answers w (.failed e errand) w' ∧
      w'.At id (l.emitAll w.env units).1 w.pool (.held (l.emitAll w.env units).2.1) := by
  induction units generalizing w l with
  | nil => cases he
  | cons u units ih =>
    unfold Lease.emitAll at he ⊢
    cases hone : l.emitOne w.env u with
    | mk env rest =>
      obtain ⟨l', result⟩ := rest
      rw [hone] at he
      cases result with
      | error fault =>
        cases he
        have hreply : w.reply (.emit id) = some (.failed e errand) := by
          simp only [reply, hph, hone]
        have hact : w.act (.emit id) = { w with env := env }.setPhase id (.held l') := by
          simp only [act, hph, emit, hone]
        exact ⟨_, .of_act hreply, hact ▸ at_setPhase ..⟩
      | ok v =>
        have hact : w.act (.emit id) =
            { w with env := env }.setPhase id (.emitting l' units errand) := by
          simp only [act, hph, emit, hone]
        have hnext := at_setPhase { w with env := env } id (.emitting l' units errand)
        obtain ⟨w', hanswers, hat⟩ := ih hnext.phase he
        exact ⟨w', (hact ▸ reaches_act w (.emit id)).answers hanswers, hat⟩

/-- The last step of a commit answers what the whole call does. -/
theorem commit_answers {w : World} {id : LeaseId} {l : Lease}
    (hph : w.phases.find? id = some (.held l)) :
    ∃ w', Answers w (.committed (l.commit w.env).2.2) w' ∧
      w'.At id (l.commit w.env).1 w.pool (.held (l.commit w.env).2.1) := by
  unfold Lease.commit
  split
  · rename_i hl
    have hreply : w.reply (.commit id) = some (.committed (.error l.unusable)) := by
      simp only [reply, hph, if_pos hl]
    have hact : w.act (.commit id) = w := by simp only [act, hph, commit, if_pos hl]
    exact ⟨_, .of_act hreply, hact.symm ▸ ⟨rfl, rfl, hph⟩⟩
  · rename_i hl
    have hact : w.act (.commit id) = w.setPhase id (.emitting l.flush.1 l.flush.2 .commit) := by
      simp only [act, hph, commit, if_neg hl]
    have hcommit := hact ▸ reaches_act w (.commit id)
    have hstart := at_setPhase w id (.emitting l.flush.1 l.flush.2 .commit)
    dsimp only
    cases hall : l.flush.1.emitAll w.env l.flush.2 with
    | mk env rest =>
      obtain ⟨l', outcome⟩ := rest
      cases outcome with
      | error e =>
        have he : (l.flush.1.emitAll w.env l.flush.2).2.2 = .error e := by rw [hall]
        obtain ⟨w', hanswers, hat⟩ := emitAll_answers hstart.phase he
        rw [hstart.env, hall] at hat
        exact ⟨w', hcommit.answers hanswers, hat⟩
      | ok u =>
        obtain ⟨w', hreach, hat⟩ := emitAll_reaches hstart.phase
        rw [hstart.env, hall] at hat
        have hreply : w'.reply (.emit id) = some (.committed (l'.finishCommit env).2.2) := by
          simp only [reply, hat.phase, emitted, hat.env]
        have hfinish : w'.act (.emit id) = w'.finishCommit id l' := by
          simp only [act, hat.phase, emitted, emit]
        have hdone := at_finishCommit w' id l'
        rw [hat.env, hat.pool] at hdone
        exact ⟨_, (hcommit.trans hreach).answers (.of_act hreply), hfinish.symm ▸ hdone⟩

/-- The number of messages aside, a poll that is over answers what the whole call does. -/
theorem endPoll_answers {w₀ w : World} {a : Action} {id : LeaseId} {l : Lease}
    {result : Except IntakeError (List Message)} (hact : w₀.act a = w.endPoll id l result)
    (hreply : w₀.reply a = Reply.ofPoll (.ended result)) :
    ∃ w', Answers w₀ (.polled ((l.endPoll w.env result).2.2.map fun _ => ())) w' ∧
      w'.At id (l.endPoll w.env result).1 w.pool (.held (l.endPoll w.env result).2.1) := by
  cases result with
  | error e => exact ⟨_, .of_act hreply, hact.symm ▸ at_setPhase ..⟩
  | ok ms =>
    have hstep := hact ▸ reaches_act w₀ a
    unfold endPoll at hstep
    unfold Lease.endPoll
    obtain ⟨env, -, hin⟩ := l.takeIn_ok w.env ms
    generalize (.ok ms : Except IntakeError (List Message)) = result at hin hstep ⊢
    cases htake : l.takeIn w.env result with
    | mk env' rest =>
      obtain ⟨l', outcome⟩ := rest
      rw [htake] at hin hstep
      cases outcome with
      | error e => cases hin
      | ok taken =>
        obtain ⟨count, units⟩ := taken
        have hstart := at_setPhase { w with env := env' } id (.emitting l' units .poll)
        dsimp only
        cases hall : l'.emitAll env' units with
        | mk env₂ rest =>
          obtain ⟨l₂, outcome⟩ := rest
          cases outcome with
          | error e =>
            obtain ⟨w', hanswers, hat⟩ := emitAll_answers hstart.phase (by rw [hstart.env, hall])
            rw [hstart.env, hall] at hat
            exact ⟨w', hstep.answers hanswers, hat⟩
          | ok u =>
            obtain ⟨w', hreach, hat⟩ := emitAll_reaches hstart.phase
            rw [hstart.env, hall] at hat
            have hreply : w'.reply (.emit id) = some (.polled (.ok ())) := by
              simp only [reply, hat.phase, emitted]
            have hdone : w'.act (.emit id) = w'.setPhase id (.held l₂) := by
              simp only [act, hat.phase, emitted, emit]
            have hheld := at_setPhase w' id (.held l₂)
            rw [hat.env, hat.pool] at hheld
            exact ⟨_, (hstep.trans hreach).answers (.of_act hreply), hdone.symm ▸ hheld⟩

theorem startPoll_answers {w : World} {id : LeaseId} {l : Lease}
    (hph : w.phases.find? id = some (.held l)) {r : Except IntakeError Nat}
    (hr : (l.startPoll w.env).2.2 = .ended r) :
    ∃ w', Answers w (.polled (r.map fun _ => ())) w' ∧
      w'.At id (l.startPoll w.env).1 w.pool (.held (l.startPoll w.env).2.1) := by
  unfold Lease.startPoll at hr ⊢
  split
  · rename_i hl
    rw [if_pos hl] at hr
    cases hr
    have hreply : w.reply (.poll id) = some (.polled (.error l.unusable)) := by
      simp only [reply, hph, if_pos hl]
    have hact : w.act (.poll id) = w := by simp only [act, hph, poll, if_pos hl]
    exact ⟨_, .of_act hreply, hact.symm ▸ ⟨rfl, rfl, hph⟩⟩
  · rename_i hl
    rw [if_neg hl] at hr
    cases hstart : w.env.startPoll l.connection l.settings.pollTimeout with
    | mk env rest =>
      obtain ⟨c, p⟩ := rest
      rw [hstart] at hr
      cases p with
      | waiting deadline => cases hr
      | ended result =>
        cases hr
        have hreply : w.reply (.poll id) = Reply.ofPoll (.ended result) := by
          simp only [reply, hph, if_neg hl, hstart]
        refine endPoll_answers (w := { w with env := env }.remember (.read id w.env.cluster
          l.connection c (Progress.ended result).messages)) ?_ hreply
        simp only [act, hph, poll, if_neg hl, hstart]

theorem resumePoll_answers {w : World} {id : LeaseId} {l : Lease} {deadline : Option Nat}
    (hph : w.phases.find? id = some (.waiting l deadline)) {r : Except IntakeError Nat}
    (hr : (l.resumePoll w.env deadline).2.2 = .ended r) :
    ∃ w', Answers w (.polled (r.map fun _ => ())) w' ∧
      w'.At id (l.resumePoll w.env deadline).1 w.pool
        (.held (l.resumePoll w.env deadline).2.1) := by
  unfold Lease.resumePoll at hr ⊢
  cases hcall : w.env.resumePoll l.connection deadline with
  | mk env p =>
    rw [hcall] at hr
    cases p with
    | waiting deadline => cases hr
    | ended result =>
      cases hr
      have hreply : w.reply (.resume id) = Reply.ofPoll (.ended result) := by
        simp only [reply, hph, hcall]
      refine endPoll_answers (w := { w with env := env }) ?_ hreply
      simp only [act, hph, resume, hcall]

/-- A lease has faulted, and was not given up yet. -/
def Faulted (w : World) (id : LeaseId) : Prop :=
  ∃ l, w.phases.find? id = some (.held l) ∧ l.state = .faulted

end World

/-- A lease that can do nothing any more but be given back. -/
def Phase.isSilent : Phase → Bool
  | .held l => l.state = .faulted
  | .returning _ _ | .ended => true
  | .opening _ _ | .waiting _ _ | .emitting _ _ _ => false

namespace World

/-- A lease that can do nothing any more, or is over. -/
def Silent (w : World) (id : LeaseId) : Prop :=
  ∃ ph, w.phases.find? id = some ph ∧ ph.isSilent = true

variable {w w' : World} {id : LeaseId}

theorem Faulted.silent (h : Faulted w id) : Silent w id := by
  obtain ⟨l, hph, hl⟩ := h
  exact ⟨_, hph, decide_eq_true hl⟩

theorem faulted_setPhase (w : World) (id : LeaseId) {l : Lease} (hl : l.state = .faulted) :
    Faulted (w.setPhase id (.held l)) id :=
  ⟨l, SortedMap.find?_insert_self .., hl⟩

/-! ## A call that fails -/

theorem faulted_endPoll (w : World) (id : LeaseId) (l : Lease) (e : IntakeError) :
    Faulted (w.endPoll id l (.error e)) id :=
  faulted_setPhase _ id (l.fault_state e)

theorem ofPoll_fails {p : Progress (Except IntakeError (List Message))} {r : Reply}
    (h : Reply.ofPoll p = some r) : ∃ e, p = .ended (.error e) := by
  cases p with
  | waiting deadline => cases h
  | ended result =>
    cases result with
    | ok ms => cases h
    | error e => exact ⟨e, rfl⟩

theorem faulted_poll {l : Lease} (hph : w.phases.find? id = some (.held l)) {r : Reply}
    (hr : w.reply (.poll id) = some r) : Faulted (w.poll id l) id := by
  simp only [reply, hph] at hr
  unfold poll
  split
  · exact ⟨l, hph, ‹_›⟩
  · rw [if_neg ‹_›] at hr
    obtain ⟨e, hp⟩ := ofPoll_fails hr
    split
    rename_i env c p he
    rw [he] at hp
    obtain rfl : p = _ := hp
    exact faulted_endPoll ..

theorem faulted_resume {l : Lease} {deadline : Option Nat}
    (hph : w.phases.find? id = some (.waiting l deadline)) {r : Reply}
    (hr : w.reply (.resume id) = some r) : Faulted (w.resume id l deadline) id := by
  simp only [reply, hph] at hr
  obtain ⟨e, hp⟩ := ofPoll_fails hr
  unfold resume
  split <;> rename_i he <;> rw [he] at hp
  · cases hp
  · obtain rfl := Progress.ended.inj hp
    exact faulted_endPoll ..

/-- A commit that does not succeed is a fault. -/
theorem faulted_finishCommit (w : World) (id : LeaseId) (l : Lease)
    (hf : (Reply.committed (l.finishCommit w.env).2.2).fails = true) :
    Faulted (w.finishCommit id l) id := by
  have hc := l.finishCommit_commits w.env
  refine ⟨_, (at_finishCommit w id l).phase, ?_⟩
  generalize (l.finishCommit w.env).1 = env, (l.finishCommit w.env).2.1 = l',
    (l.finishCommit w.env).2.2 = outcome at hc hf ⊢
  cases hc with
  | interrupted => rfl
  | refused => rfl
  | empty => cases hf
  | done => cases hf

theorem faulted_emit {l : Lease} {units : List Emission} {errand : Errand}
    (hph : w.phases.find? id = some (.emitting l units errand)) {r : Reply}
    (hr : w.reply (.emit id) = some r) (hf : r.fails = true) :
    Faulted (w.emit id l units errand) id := by
  cases units with
  | cons e units =>
    simp only [reply, hph] at hr
    unfold emit
    cases hone : l.emitOne w.env e with
    | mk env rest =>
      obtain ⟨l', outcome⟩ := rest
      rw [hone] at hr
      cases outcome with
      | ok u => cases hr
      | error fault =>
        obtain ⟨rfl, -⟩ := Lease.emitOne_error hone
        simp only [hone]
        exact faulted_setPhase _ id (l.fault_state _)
  | nil =>
    cases errand with
    | poll =>
      simp only [reply, hph] at hr
      cases hr
      cases hf
    | commit =>
      simp only [reply, hph] at hr
      cases hr
      exact faulted_finishCommit w id l hf

/-- A poll or commit that fails or is refused leaves its lease faulted. -/
theorem faulted_of_fails {a : Action} {r : Reply} (hr : w.reply a = some r)
    (hf : r.fails = true) : ∃ id, a.call? = some id ∧ Faulted (w.act a) id := by
  cases a with
  | continuePolling id =>
    simp only [reply] at hr
    split at hr
    · cases hr
      cases hf
    · cases hr
  | poll id =>
    refine ⟨id, rfl, ?_⟩
    cases hph : w.phases.find? id with
    | none =>
      simp only [reply, hph] at hr
      cases hr
    | some ph =>
      cases ph with
      | held l =>
        simp only [act, hph]
        exact faulted_poll hph hr
      | _ =>
        simp only [reply, hph] at hr
        cases hr
  | resume id =>
    refine ⟨id, rfl, ?_⟩
    cases hph : w.phases.find? id with
    | none =>
      simp only [reply, hph] at hr
      cases hr
    | some ph =>
      cases ph with
      | waiting l deadline =>
        simp only [act, hph]
        exact faulted_resume hph hr
      | _ =>
        simp only [reply, hph] at hr
        cases hr
  | commit id =>
    refine ⟨id, rfl, ?_⟩
    simp only [reply] at hr
    split at hr
    · rename_i l hph
      split at hr
      · rename_i hl
        simp only [act, hph, commit, if_pos hl]
        exact ⟨l, hph, hl⟩
      · cases hr
    · cases hr
  | emit id =>
    refine ⟨id, rfl, ?_⟩
    cases hph : w.phases.find? id with
    | none =>
      simp only [reply, hph] at hr
      cases hr
    | some ph =>
      cases ph with
      | emitting l units errand =>
        simp only [act, hph]
        exact faulted_emit hph hr hf
      | _ =>
        simp only [reply, hph] at hr
        cases hr
  | _ => cases hr

/-! ## A lease that can do nothing any more -/

theorem Silent.eq {ph : Phase} (h : Silent w id) (hph : w.phases.find? id = some ph) :
    ph.isSilent = true := by
  obtain ⟨ph', hph', hs⟩ := h
  obtain rfl : ph = ph' := Option.some.inj (hph.symm.trans hph')
  exact hs

theorem Silent.faulted {l : Lease} (h : Silent w id) (hph : w.phases.find? id = some (.held l)) :
    l.state = .faulted :=
  of_decide_eq_true (p := l.state = .faulted) (h.eq hph)

/-- Its calls change nothing and answer nothing but failures. -/
theorem silent_call (h : Silent w id) {b : Action} (hb : b.call? = some id) :
    (w.act b).env = w.env ∧ ∀ r, w.reply b = some r → r = .continued false ∨ r.fails = true := by
  obtain ⟨ph, hph, hs⟩ := h
  cases b with
  | continuePolling id' =>
    cases hb
    cases ph with
    | held l =>
      have hl : l.state = .faulted := of_decide_eq_true hs
      simp only [act, reply, hph, Lease.continuePolling, hl]
      exact ⟨rfl, fun r hr => .inl (Option.some.inj hr).symm⟩
    | _ => simp [act, reply, hph]
  | poll id' =>
    cases hb
    cases ph with
    | held l =>
      have hl : l.state = .faulted := of_decide_eq_true hs
      simp only [act, reply, hph, poll, hl, if_true]
      exact ⟨trivial, fun r hr => .inr (Option.some.inj hr ▸ rfl)⟩
    | _ => simp [act, reply, hph]
  | resume id' =>
    cases hb
    cases ph with
    | waiting l deadline => cases hs
    | _ => simp [act, reply, hph]
  | commit id' =>
    cases hb
    cases ph with
    | held l =>
      have hl : l.state = .faulted := of_decide_eq_true hs
      simp only [act, reply, hph, commit, hl, if_true]
      exact ⟨trivial, fun r hr => .inr (Option.some.inj hr ▸ rfl)⟩
    | _ => simp [act, reply, hph]
  | emit id' =>
    cases hb
    cases ph with
    | emitting l units errand => cases hs
    | _ => simp [act, reply, hph]
  | _ => cases hb

/-- A step of whatever lease leaves it so. -/
theorem Silent.insert (h : Silent w id) {id' : LeaseId} {ph' : Phase}
    (hs : id = id' → ph'.isSilent = true) (hphases : w'.phases = w.phases.insert id' ph') :
    Silent w' id := by
  obtain ⟨ph, hph, hsilent⟩ := h
  rw [Silent, hphases, SortedMap.find?_insert]
  split
  · exact ⟨ph', rfl, hs ‹_›⟩
  · exact ⟨ph, hph, hsilent⟩

theorem Silent.congr (h : Silent w id) (hphases : w'.phases = w.phases) : Silent w' id := by
  rw [Silent, hphases]
  exact h

/-- So does a step of a lease that is not silent. -/
theorem Silent.other (h : Silent w id) {id' : LeaseId} {ph : Phase}
    (hph : w.phases.find? id' = some ph) (hs : ph.isSilent = false)
    (hphases : ∃ ph', w'.phases = w.phases.insert id' ph') : Silent w' id := by
  obtain ⟨ph', hphases⟩ := hphases
  refine h.insert (fun heq => ?_) hphases
  have hsilent := h.eq (heq ▸ hph)
  rw [hs] at hsilent
  cases hsilent

theorem phases_endPoll (w : World) (id : LeaseId) (l : Lease)
    (result : Except IntakeError (List Message)) :
    ∃ ph', (w.endPoll id l result).phases = w.phases.insert id ph' := by
  unfold endPoll
  split <;> exact ⟨_, rfl⟩

theorem phases_poll {l : Lease} (hl : l.state ≠ .faulted) (w : World) (id : LeaseId) :
    ∃ ph', (w.poll id l).phases = w.phases.insert id ph' := by
  rw [poll, if_neg hl]
  split
  dsimp only
  split
  · exact ⟨_, rfl⟩
  · exact phases_endPoll ..

theorem phases_resume (w : World) (id : LeaseId) (l : Lease) (deadline : Option Nat) :
    ∃ ph', (w.resume id l deadline).phases = w.phases.insert id ph' := by
  unfold resume
  split
  · exact ⟨_, rfl⟩
  · exact phases_endPoll ..

theorem phases_emit (w : World) (id : LeaseId) (l : Lease) (units : List Emission)
    (errand : Errand) : ∃ ph', (w.emit id l units errand).phases = w.phases.insert id ph' := by
  unfold emit
  split
  · split <;> exact ⟨_, rfl⟩
  · exact ⟨_, rfl⟩
  · unfold finishCommit
    dsimp only
    split
    · split
      · exact ⟨_, rfl⟩
      · exact ⟨_, rfl⟩
    · exact ⟨_, rfl⟩

end World
end RecordIntake
