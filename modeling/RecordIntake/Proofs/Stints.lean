import RecordIntake.Proofs.Capacity
import RecordIntake.Proofs.Crew

/-!
What an action does to the leases of a pool when a cycle takes it.  It changes the phase of one
lease at most, and if the lease was where the cycle was, the cycle comes where the lease is then.
-/
namespace RecordIntake

/-! ## Actions on one pool -/

/-- Whether an action is a part of asking for a partition count. -/
def Action.isInquiry : Action → Bool
  | .inquire | .connect _ | .ask _ _ | .putBack _ => true
  | _ => false

/-- The lease that an action is on. -/
def Action.lease? : Action → Option LeaseId
  | .supply id | .abandon id | .checkIn id => some id
  | a => a.call?

namespace World

variable {w : World} {a : Action}

theorem Proceeds.inquiries {w' : World} (h : Proceeds w w') : w'.inquiries = w.inquiries := by
  cases h <;> rfl

theorem inquiries_act (w : World) (ha : a.isInquiry = false) :
    (w.act a).inquiries = w.inquiries := by
  cases a with
  | onCluster a => exact (proceeds_onCluster w a).inquiries
  | advance ms => rfl
  | wake h => rfl
  | evictIdle => rfl
  | close => rfl
  | request sink =>
    simp only [act, request]
    split <;> rfl
  | supply id =>
    simp only [act]
    split
    · unfold supply
      split <;> rfl
    · rfl
  | continuePolling id =>
    simp only [act]
    split <;> rfl
  | poll id =>
    simp only [act]
    split
    · exact (proceeds_poll ‹_›).inquiries
    · rfl
  | resume id =>
    simp only [act]
    split
    · exact (proceeds_resume ‹_›).inquiries
    · rfl
  | commit id =>
    simp only [act]
    split
    · exact (proceeds_commit ‹_›).inquiries
    · rfl
  | emit id =>
    simp only [act]
    split
    · exact (proceeds_emit ‹_›).inquiries
    · rfl
  | abandon id =>
    simp only [act]
    split <;> rfl
  | checkIn id =>
    simp only [act]
    split
    · exact (checkIn_frame ..).2.2.2
    · rfl
  | inquire => cases ha
  | connect i => cases ha
  | ask i topic => cases ha
  | putBack i => cases ha

/-- An action on a lease changes the phase of no other. -/
theorem phase_act_other {id id' : LeaseId} (ha : a.lease? = some id) (hne : id' ≠ id) :
    (w.act a).phases.find? id' = w.phases.find? id' := by
  have hother : ∀ w' : World, (∃ ph, w'.phases = w.phases.insert id ph) →
      w'.phases.find? id' = w.phases.find? id' := by
    rintro w' ⟨ph, h⟩
    rw [h, SortedMap.find?_insert, if_neg hne]
  cases a with
  | supply id₁ =>
    cases ha
    simp only [act]
    split
    · unfold supply
      split <;> exact hother _ ⟨_, rfl⟩
    · rfl
  | continuePolling id₁ =>
    cases ha
    simp only [act]
    split
    · exact hother _ ⟨_, rfl⟩
    · rfl
  | poll id₁ =>
    cases ha
    simp only [act]
    split
    · rename_i l hph
      by_cases hl : l.state = .faulted
      · rw [poll, if_pos hl]
      · exact hother _ (phases_poll hl w id)
    · rfl
  | resume id₁ =>
    cases ha
    simp only [act]
    split
    · exact hother _ (phases_resume ..)
    · rfl
  | commit id₁ =>
    cases ha
    simp only [act]
    split
    · unfold commit
      split
      · rfl
      · exact hother _ ⟨_, rfl⟩
    · rfl
  | emit id₁ =>
    cases ha
    simp only [act]
    split
    · exact hother _ (phases_emit ..)
    · rfl
  | abandon id₁ =>
    cases ha
    simp only [act]
    split
    · exact hother _ ⟨_, rfl⟩
    · rfl
  | checkIn id₁ =>
    cases ha
    simp only [act]
    split
    · exact hother _ ⟨_, (checkIn_frame ..).2.2.1⟩
    · rfl
  | _ => cases ha

end World

/-! ## Stints -/

/-- The phases in which a lease can be at each stint of its cycle. -/
inductive Stint.Fits : Stint → Phase → Prop where
  | checking (l : Lease) : Fits .checking (.held l)
  | weighing (l : Lease) : Fits .weighing (.held l)
  | starting {l : Lease} (h : l.state ≠ .faulted) : Fits .starting (.held l)
  | waiting (l : Lease) (deadline : Option Nat) : Fits .polling (.waiting l deadline)
  /-- The poll has brought messages, and hands on what is due. -/
  | receiving (l : Lease) (units : List Emission) : Fits .polling (.emitting l units .poll)
  | settling (l : Lease) : Fits .settling (.held l)
  | committing (l : Lease) : Fits .committing (.held l)
  | handing (l : Lease) (units : List Emission) : Fits .handing (.emitting l units .commit)
  | leaving (o : CycleOutcome) (l : Lease) : Fits (.leaving o) (.held l)
  | returning (o : CycleOutcome) (c : Connection) (discard : Bool) :
    Fits (.returning o) (.returning c discard)

theorem Stint.Fits.ne_ended {s : Stint} {ph : Phase} (h : s.Fits ph) : ph ≠ .ended := by
  cases h <;> nofun

theorem Stint.lease?_action {s : Stint} {id : LeaseId} {waits : Bool} {a : Action}
    (h : s.action? id waits = some a) : a.lease? = some id := by
  cases s with
  | polling =>
    obtain rfl := Option.some.inj h
    cases waits <;> rfl
  | checking => cases h
  | settling => cases h
  | _ =>
    cases h
    rfl

namespace World

variable {w : World} {id : LeaseId}

/-- If polling is to go on the lease is as it was, and has not failed. -/
theorem continuePolling_true {l : Lease} {env : Environment}
    (h : (l.continuePolling env).2 = true) :
    (l.continuePolling env).1 = l ∧ l.state ≠ .faulted ∧
      env.isRaised l.connection.signal = false := by
  unfold Lease.continuePolling at h ⊢
  cases hs : l.state with
  | faulted =>
    rw [hs] at h
    cases h
  | readyToCommit =>
    rw [hs] at h
    cases h
  | idle | polling =>
    simp only [hs] at h ⊢
    split at h
    · cases h
    · rename_i hr
      split at h
      · rename_i hmore
        rw [if_neg hr, if_pos hmore]
        exact ⟨rfl, nofun, Bool.eq_false_iff.mpr hr⟩
      · cases h

/-- What a poll has come to, once its call on the connection is over. -/
theorem fits_endPoll (w : World) (id : LeaseId) (l : Lease)
    (result : Except IntakeError (List Message)) (scheduled : Bool) :
    ∃ ph, (w.endPoll id l result).phases.find? id = some ph ∧
      (Stint.polling.next scheduled (Reply.ofPoll (.ended result))).Fits ph := by
  unfold endPoll
  cases result with
  | error e => exact ⟨_, SortedMap.find?_insert_self .., .leaving _ _⟩
  | ok ms =>
    obtain ⟨env, -, hin⟩ := l.takeIn_ok w.env ms
    rw [hin]
    exact ⟨_, SortedMap.find?_insert_self .., .receiving _ _⟩

theorem fits_poll {l : Lease} (hl : l.state ≠ .faulted) (w : World) (id : LeaseId)
    (scheduled : Bool) :
    ∃ ph, (w.poll id l).phases.find? id = some ph ∧
      (Stint.polling.next scheduled
        (Reply.ofPoll (w.env.startPoll l.connection l.settings.pollTimeout).2.2)).Fits ph := by
  rw [poll, if_neg hl]
  split
  rename_i env c p he
  rw [he]
  cases p with
  | waiting deadline => exact ⟨_, SortedMap.find?_insert_self .., .waiting _ _⟩
  | ended result => exact fits_endPoll ..

theorem fits_resume (w : World) (id : LeaseId) (l : Lease) (deadline : Option Nat)
    (scheduled : Bool) :
    ∃ ph, (w.resume id l deadline).phases.find? id = some ph ∧
      (Stint.polling.next scheduled
        (Reply.ofPoll (w.env.resumePoll l.connection deadline).2)).Fits ph := by
  unfold resume
  split <;> rename_i he <;> rw [he]
  · exact ⟨_, SortedMap.find?_insert_self .., .waiting _ _⟩
  · exact fits_endPoll ..

/-- A unit was handed on, or was refused. -/
theorem fits_emitOne {l : Lease} {e : Emission} {units : List Emission} {errand : Errand}
    (hph : w.phases.find? id = some (.emitting l (e :: units) errand)) :
    (w.reply (.emit id) = none ∧
      (w.act (.emit id)).phases.find? id = some (.emitting l units errand)) ∨
    ∃ fault l', w.reply (.emit id) = some (.failed fault errand) ∧
      (w.act (.emit id)).phases.find? id = some (.held l') := by
  simp only [reply, act, hph, emit]
  cases hone : l.emitOne w.env e with
  | mk env rest =>
    obtain ⟨l', outcome⟩ := rest
    cases outcome with
    | ok u =>
      obtain ⟨rfl, -⟩ := Lease.emitOne_ok hone
      exact .inl ⟨rfl, SortedMap.find?_insert_self ..⟩
    | error fault => exact .inr ⟨fault, l', rfl, SortedMap.find?_insert_self ..⟩

/-- Whatever a cycle does with its lease, it comes where the lease is then. -/
theorem fits_act {s : Stint} {ph : Phase} {a : Action} (hph : w.phases.find? id = some ph)
    (hfits : s.Fits ph) (ha : s.action? id ph.isWaiting = some a)
    (hs : ∀ o, s ≠ .returning o) (scheduled : Bool) :
    ∃ ph', (w.act a).phases.find? id = some ph' ∧ (s.next scheduled (w.reply a)).Fits ph' := by
  cases hfits with
  | checking l => cases ha
  | settling l => cases ha
  | returning o c discard => exact absurd rfl (hs o)
  | weighing l =>
    cases ha
    simp only [act, reply, hph]
    refine ⟨_, SortedMap.find?_insert_self .., ?_⟩
    cases hc : (l.continuePolling w.env).2 with
    | false => exact .settling _
    | true =>
      obtain ⟨heq, hl, -⟩ := continuePolling_true hc
      rw [heq]
      exact .starting hl
  | @starting l hl =>
    cases ha
    simp only [act, reply, hph, if_neg hl]
    exact fits_poll hl w id scheduled
  | waiting l deadline =>
    obtain rfl : Action.resume id = a := Option.some.inj ha
    simp only [act, reply, hph]
    exact fits_resume ..
  | receiving l units =>
    obtain rfl : Action.emit id = a := Option.some.inj ha
    cases units with
    | nil =>
      simp only [act, reply, hph, emit]
      exact ⟨_, SortedMap.find?_insert_self .., .checking _⟩
    | cons e units =>
      obtain ⟨hr, hph'⟩ | ⟨fault, l', hr, hph'⟩ := fits_emitOne hph
      · exact ⟨_, hph', hr ▸ .receiving _ _⟩
      · exact ⟨_, hph', hr ▸ .leaving _ _⟩
  | committing l =>
    cases ha
    simp only [act, reply, hph, commit]
    split
    · exact ⟨_, hph, .leaving _ _⟩
    · exact ⟨_, SortedMap.find?_insert_self .., .handing _ _⟩
  | handing l units =>
    cases ha
    cases units with
    | nil =>
      have hdone := (at_finishCommit w id l).phase
      simp only [act, reply, hph, emit]
      refine ⟨_, hdone, ?_⟩
      cases (l.finishCommit w.env).2.2 with
      | error e => exact .leaving _ _
      | ok b => cases b <;> exact .leaving _ _
    | cons e units =>
      obtain ⟨hr, hph'⟩ | ⟨fault, l', hr, hph'⟩ := fits_emitOne hph
      · exact ⟨_, hph', hr ▸ .handing _ _⟩
      · exact ⟨_, hph', hr ▸ .leaving _ _⟩
  | leaving o l =>
    cases ha
    simp only [act, hph, Option.bind_some, Phase.lease?, abandon]
    exact ⟨_, SortedMap.find?_insert_self .., .returning _ _ _⟩

/-! ## Where a lease begins and ends -/

/-- A lease that was to be opened is held, or it is over. -/
theorem phase_supply {o : Offer} {sink : String}
    (hph : w.phases.find? id = some (.opening o sink)) :
    (∃ l, (w.act (.supply id)).phases.find? id = some (.held l)) ∨
      (w.act (.supply id)).phases.find? id = some .ended := by
  simp only [act, hph]
  unfold supply
  split
  · exact .inl ⟨_, SortedMap.find?_insert_self ..⟩
  · exact .inr (SortedMap.find?_insert_self ..)

theorem phase_checkIn {c : Connection} {discard : Bool}
    (hph : w.phases.find? id = some (.returning c discard)) :
    (w.act (.checkIn id)).phases.find? id = some .ended := by
  simp only [act, hph]
  rw [(checkIn_frame w id c discard).2.2.1]
  exact SortedMap.find?_insert_self ..

end World
end RecordIntake
