import RecordIntake.Proofs.Handling
import RecordIntake.Proofs.SealingOrder

/-!
How long a batch stays open.  What expires at a time is, of all open batches, those whose first
record came in long enough before it.  The last that a poll asks of its accumulator is to seal
these, so after a poll none of them is left, and after a commit there is no open batch at all.
-/
namespace RecordIntake

/-- Whether the batch that this record opened is due. -/
def Arrival.IsDue (s : BatchSettings) (now : Nat) (x : Arrival) : Prop :=
  s.maxWait = 0 ∨ x.time + s.maxWait ≤ now

theorem PendingBatch.OpenedBy.isExpired_iff {s : BatchSettings} {xs : List Arrival} {g : Group}
    {b : PendingBatch} {x : Arrival} (h : b.OpenedBy s xs g x) (now : Nat) :
    Accumulator.isExpired s now b = true ↔ x.IsDue s now := by
  rw [Accumulator.isExpired, decide_eq_true_iff, h.since, Arrival.IsDue]
  omega

namespace Accumulator

variable {a : Accumulator} {xs : List Arrival}

/-- The open batches are split into those that are overdue, which are sealed, and the others, which
stay as they are. -/
structure Expires (a : Accumulator) (xs : List Arrival) (now : Nat) (overdue : Pending)
    (r : Accumulator × List Emission) : Prop where
  split : (overdue ++ r.1.pending).Perm a.pending
  due : ∀ x ∈ overdue, ∃ first, x.2.OpenedBy a.settings xs x.1 first ∧ first.IsDue a.settings now
  others : ∀ x ∈ r.1.pending,
    ∃ first, x.2.OpenedBy a.settings xs x.1 first ∧ ¬ first.IsDue a.settings now
  rest : r.1 = { a with pending := r.1.pending }
  units : r.2 = overdue.map fun x => .batch (x.2.toSealed a.settings x.1)

theorem Dated.expires (h : a.Dated xs) (now : Nat) :
    ∃ overdue, a.Expires xs now overdue (a.takeExpired now) := by
  obtain ⟨overdue, hperm, hopened, -, hunits⟩ := h.sealsInOrder (isExpired a.settings now)
  rw [takeExpired_eq]
  refine ⟨overdue, ?_, fun x hx => ?_, fun x hx => ?_, rfl, hunits⟩
  · refine (hperm.append_right _).trans ?_
    exact List.filter_append_perm (fun x => isExpired a.settings now x.2) a.pending
  · obtain ⟨first, hfirst⟩ := hopened x hx
    have hexpired := (List.mem_filter.mp (hperm.mem_iff.mp hx)).2
    exact ⟨first, hfirst, (hfirst.isExpired_iff now).mp hexpired⟩
  · obtain ⟨hmem, hfresh⟩ := List.mem_filter.mp hx
    obtain ⟨first, hfirst⟩ := h.opened x.1 x.2 (Pending.find?_eq_some_of_mem h.nodup hmem)
    refine ⟨first, hfirst, fun hdue => ?_⟩
    rw [(hfirst.isExpired_iff now).mpr hdue] at hfresh
    cases hfresh

/-- One record, which comes in at time 10. -/
def lateRecord : List Call :=
  [.absorb ⟨⟨"events", 0⟩, 0, none, some [123, 125], none, []⟩ 10]

/-- If batches may not wait at all, this record is sealed at time 5 as well. -/
theorem sealed_before_arrival :
    let s : BatchSettings := { maxWait := 0 }
    let a := (empty s).after lateRecord
    ∃ x first, a.pending = [x] ∧
      x.2.OpenedBy s (lateRecord.flatMap (Call.arrivals Record.read)) x.1 first ∧
      ¬ first.time + s.maxWait ≤ 5 ∧ (a.takeExpired 5).1.pending = [] := by
  intro s a
  have hone : a.pending.map (·.2.since) = [10] := by decide +kernel
  have hsealed : (a.takeExpired 5).1.pending.length = 0 := by decide +kernel
  obtain ⟨x, hx, hsince⟩ := List.map_eq_singleton_iff.mp hone
  have hdated : a.Dated (lateRecord.flatMap (Call.arrivals Record.read)) :=
    (stays_after (dated_start Record.read s) lateRecord).dated
  have hfind : a.pending.find? x.1 = some x.2 :=
    Pending.find?_eq_some_of_mem hdated.nodup (hx ▸ List.mem_cons_self)
  obtain ⟨first, hfirst⟩ := hdated.opened x.1 x.2 hfind
  refine ⟨x, first, hx, hfirst, ?_, List.eq_nil_of_length_eq_zero hsealed⟩
  rw [← hfirst.since, hsince]
  decide

/-- What comes in with a call comes in at its time. -/
theorem time_mem_of_arrival {reader : RecordReader} {cs : List Call} {x : Arrival}
    (hx : x ∈ cs.flatMap (Call.arrivals reader)) : x.time ∈ cs.filterMap Call.time? := by
  obtain ⟨c, hc, hx⟩ := List.mem_flatMap.mp hx
  refine List.mem_filterMap.mpr ⟨c, hc, ?_⟩
  cases c with
  | absorb m now =>
    obtain ⟨e, -, rfl⟩ := List.mem_map.mp hx
    rfl
  | takeExpired | flushAll | discard => cases hx

/-- What is still open when expired batches were the last to be sealed. -/
theorem opened_after_takeExpired (reader : RecordReader) (s : BatchSettings) (cs : List Call)
    (now : Nat) {x : Group × PendingBatch}
    (hx : x ∈ ((start reader s).after (cs ++ [.takeExpired now])).pending) :
    ∃ first, x.2.OpenedBy s (cs.flatMap (Call.arrivals reader)) x.1 first ∧ ¬ first.IsDue s now := by
  have hstays := stays_after (dated_start reader s) cs
  obtain ⟨overdue, hexpires⟩ := hstays.dated.expires now
  rw [after_append] at hx
  have hothers := hexpires.others x hx
  rw [hstays.settings] at hothers
  exact hothers

theorem pending_after_flushAll (a : Accumulator) (cs : List Call) :
    (a.after (cs ++ [.flushAll])).pending = [] := by
  rw [after_append]
  rfl

/-- When everything was flushed, what was handed on is what came in. -/
theorem handed_on_of_flushed (reader : RecordReader) (s : BatchSettings) {cs : List Call}
    (hcs : .discard ∉ cs) (hpending : ((start reader s).after cs).pending = []) :
    ∃ contents, List.Forall₂ (Emission.MadeOf s) ((start reader s).outputs cs).flatten contents ∧
      contents.flatten.Perm (cs.flatMap (Call.pieces reader)) := by
  obtain ⟨contents, kept, hmade, -, hperm, -⟩ := handed_on_or_kept reader s hcs
  refine ⟨contents, hmade, ?_⟩
  rw [keptPieces, hpending, List.map_nil, List.flatten_nil, List.append_nil] at hperm
  exact hperm

end Accumulator

namespace Handling

variable {h : Handling} {l : Lease} {reader : RecordReader} {s : BatchSettings}
  {journal : List Event}

/-- The lease has polled at the given time, and since then asked nothing of its accumulator.  What
is open came in before and is younger than a batch may be. -/
structure Polled (h : Handling) (reader : RecordReader) (s : BatchSettings) (l : Lease) (t : Nat) :
    Prop where
  accumulator : l.accumulator = (Accumulator.start reader s).after h.calls
  last : ∃ cs, h.calls = cs ++ [.takeExpired t]
  young : ∀ x ∈ l.accumulator.pending, ∃ first,
    x.2.OpenedBy s (h.calls.flatMap (Accumulator.Call.arrivals reader)) x.1 first ∧
      first.time ≤ t ∧ t < first.time + s.maxWait

/-- Nothing is open, and the sink has accepted what the lease took in, which is in the journal. -/
structure Settled (h : Handling) (reader : RecordReader) (s : BatchSettings) (l : Lease)
    (journal : List Event) : Prop where
  accumulator : l.accumulator = (Accumulator.start reader s).after h.calls
  pending : l.accumulator.pending = []
  accepted : ∃ contents, List.Forall₂ (Emission.MadeOf s) h.accepted contents ∧
    contents.flatten.Perm (h.calls.flatMap (Accumulator.Call.pieces reader))
  shown : (h.accepted.reverse.map (Event.emitted l.sink)).Sublist journal

theorem Follows.polled_at (hf : h.Follows reader s journal (.emitting l [] .poll)) {now : Nat}
    (ht : h.Timely now) : ∃ t ≤ now, h.Polled reader s l t := by
  have hacc : l.accumulator = _ := (hf.work _ rfl).accumulator
  obtain ⟨cs, t, hcalls⟩ := hf.polled l [] rfl
  have hascends := ht.ascends
  rw [hcalls, List.filterMap_append, List.pairwise_append] at hascends
  have harrivals : h.calls.flatMap (Accumulator.Call.arrivals reader) =
      cs.flatMap (Accumulator.Call.arrivals reader) := by
    rw [hcalls, List.flatMap_append]
    exact List.append_nil _
  refine ⟨t, ht.past t ?_, hacc, ⟨cs, hcalls⟩, fun x hx => ?_⟩
  · rw [hcalls, List.filterMap_append]
    exact List.mem_append_right _ List.mem_cons_self
  · rw [hacc, hcalls] at hx
    obtain ⟨first, hfirst, hfresh⟩ := Accumulator.opened_after_takeExpired reader s cs t hx
    have hcame := List.mem_of_getElem? hfirst.place
    have hbefore := hascends.2.2 _ (Accumulator.time_mem_of_arrival hcame) t List.mem_cons_self
    rw [harrivals]
    exact ⟨first, hfirst, hbefore, Nat.lt_of_not_le fun hle => hfresh (.inr hle)⟩

theorem Follows.settled (hf : h.Follows reader s journal (.emitting l [] .commit))
    (hwhole : .discard ∉ h.calls) : h.Settled reader s l journal := by
  have hc := hf.work _ rfl
  have hacc : l.accumulator = _ := hc.accumulator
  obtain ⟨cs, hcalls⟩ := hc.flushed rfl
  have hpending : ((Accumulator.start reader s).after h.calls).pending = [] := by
    rw [hcalls]
    exact Accumulator.pending_after_flushAll _ cs
  have hhanded := Accumulator.handed_on_of_flushed reader s hwhole hpending
  have hunits := hc.units
  rw [List.append_nil] at hunits
  rw [hunits] at hhanded
  exact ⟨hacc, hacc ▸ hpending, hhanded, hc.shown⟩

theorem Settled.mono {journal' : List Event} {l' : Lease} (hs : h.Settled reader s l journal)
    (hacc : l'.accumulator = l.accumulator) (hsink : l'.sink = l.sink)
    (hj : journal.Sublist journal') : h.Settled reader s l' journal' where
  accumulator := hacc.trans hs.accumulator
  pending := hacc ▸ hs.pending
  accepted := hs.accepted
  shown := hsink ▸ hs.shown.trans hj

end Handling

namespace Reply

/-- The answer of a call that succeeded. -/
def success : Errand → Reply
  | .poll => .polled (.ok ())
  | .commit => .committed (.ok true)

def succeeds : Errand → Reply → Bool
  | .poll, .polled (.ok ()) | .commit, .committed (.ok true) => true
  | _, _ => false

theorem eq_of_succeeds {errand : Errand} {r : Reply} (h : r.succeeds errand = true) :
    r = success errand := by
  unfold succeeds at h
  split at h
  · rfl
  · rfl
  · cases h

end Reply

namespace World

variable {w : World} {id : LeaseId}

/-- A poll and a commit succeed when there is nothing more to emit. -/
theorem emitting_of_success {a : Action} {errand : Errand}
    (hr : w.reply a = some (.success errand)) (ha : a.call? = some id) :
    a = .emit id ∧ ∃ l, w.phases.find? id = some (.emitting l [] errand) := by
  cases a with
  | continuePolling id' =>
    simp only [reply] at hr
    split at hr
    · cases errand <;> cases hr
    · cases hr
  | poll id' =>
    simp only [reply] at hr
    split at hr
    · split at hr
      · cases errand <;> cases hr
      · obtain ⟨e, hp⟩ := ofPoll_fails hr
        rw [hp] at hr
        cases errand <;> cases hr
    · cases hr
  | resume id' =>
    simp only [reply] at hr
    split at hr
    · obtain ⟨e, hp⟩ := ofPoll_fails hr
      rw [hp] at hr
      cases errand <;> cases hr
    · cases hr
  | commit id' =>
    simp only [reply] at hr
    split at hr
    · split at hr
      · cases errand <;> cases hr
      · cases hr
    · cases hr
  | emit id' =>
    cases ha
    refine ⟨rfl, ?_⟩
    simp only [reply] at hr
    split at hr
    · rename_i l e units errand' hph
      split at hr
      · cases hr
      · cases errand <;> cases errand' <;> cases hr
    · cases errand with
      | poll => exact ⟨_, ‹_›⟩
      | commit => cases hr
    · cases errand with
      | poll => cases hr
      | commit => exact ⟨_, ‹_›⟩
    · cases hr
  | _ => cases ha

/-- No batch stays open for too long.  At any time, what expires of the open batches are exactly
those whose first record came in at least the maximal wait before, or all of them if the maximal
wait is nothing, and the others stay as they are.  So after each successful poll of a lease no open
batch is that old at the time of the poll.  After each successful commit none is open, and the sink
has accepted all that the lease took in. -/
theorem no_batch_overstays (maxPollRecords now : Nat) (s : Subscription) (reader : RecordReader)
    (settings : IntakeSettings) :
    (∀ cs t, ∃ overdue, ((Accumulator.start reader settings.batch).after cs).Expires
      (cs.flatMap (Accumulator.Call.arrivals reader)) t overdue
      (((Accumulator.start reader settings.batch).after cs).takeExpired t)) ∧
    ∀ as id a, Action.call? a = some id →
      let w := (start maxPollRecords now s reader settings).run as
      let h := (start maxPollRecords now s reader settings).handling id {} as
      (w.reply a = some (.polled (.ok ())) →
        ∃ l, (w.act a).phases.find? id = some (.held l) ∧
          ∃ t ≤ w.env.now, h.Polled reader settings.batch l t) ∧
      (w.reply a = some (.committed (.ok true)) →
        ∃ l, (w.act a).phases.find? id = some (.held l) ∧
          h.Settled reader settings.batch l (w.act a).env.journal) := by
  refine ⟨fun cs t => ?_, fun as id a ha => ?_⟩
  · have hstays := Accumulator.stays_after (Accumulator.dated_start reader settings.batch) cs
    exact hstays.dated.expires t
  intro w h
  have hterms : Pool.SameTerms _ w.pool :=
    sameTerms_run (start maxPollRecords now s reader settings) as
  have hhandles : Handles w id h := handles_run (fun ph hph => by cases hph) as
  have htimely : h.Timely w.env.now := timely_handling (Handling.timely_empty _) as
  have hwhole : .discard ∉ h.calls := whole_handling List.not_mem_nil as
  refine ⟨fun hr => ?_, fun hr => ?_⟩
  · obtain ⟨rfl, l, hph⟩ := emitting_of_success (show w.reply a = some (.success .poll) from hr) ha
    have hf := hhandles _ hph
    rw [hterms.reader, hterms.settings] at hf
    simp only [act, hph]
    exact ⟨l, SortedMap.find?_insert_self .., hf.polled_at htimely⟩
  · obtain ⟨rfl, l, hph⟩ := emitting_of_success (show w.reply a = some (.success .commit) from hr) ha
    have hf := hhandles _ hph
    rw [hterms.reader, hterms.settings] at hf
    have hj := w.journal_act (.emit id)
    simp only [act, hph] at hj ⊢
    obtain ⟨hacc, hsink⟩ := l.keeps_finishCommit w.env
    exact ⟨_, (at_finishCommit w id l).phase, (hf.settled hwhole).mono hacc hsink hj⟩

/-- A lease polls while a message is there, waits a while and commits. -/
def pollWaitAndCommit : List Action :=
  [.onCluster (.produce ⟨⟨"t", 0⟩, 0, none, some [123, 125], none, []⟩), .request "s", .supply 1,
    .poll 1, .emit 1, .advance 100, .commit 1, .emit 1, .emit 1]

/-- What the poll leaves open is a record, and the commit hands it on. -/
theorem no_batch_overstays_pollWaitAndCommit :
    let w := start 10 0 (.partitions [("t", [0])]) Record.read {}
    let polling := pollWaitAndCommit.take 4
    let committing := pollWaitAndCommit.take 8
    ((w.run polling).reply (.emit 1) = some (.polled (.ok ())) ∧
      ∃ l, ((w.run polling).act (.emit 1)).phases.find? 1 = some (.held l) ∧
        ∃ t ≤ (w.run polling).env.now, (w.handling 1 {} polling).Polled Record.read {} l t) ∧
    ((w.run committing).reply (.emit 1) = some (.committed (.ok true)) ∧
      ∃ l, ((w.run committing).act (.emit 1)).phases.find? 1 = some (.held l) ∧
        (w.handling 1 {} committing).Settled Record.read {} l
          ((w.run committing).act (.emit 1)).env.journal ∧
        (w.handling 1 {} committing).accepted.length = 1) := by
  obtain ⟨-, hall⟩ := no_batch_overstays 10 0 (.partitions [("t", [0])]) Record.read {}
  obtain ⟨hpoll, -⟩ := hall (pollWaitAndCommit.take 4) 1 (.emit 1) rfl
  obtain ⟨-, hcommit⟩ := hall (pollWaitAndCommit.take 8) 1 (.emit 1) rfl
  dsimp only at hpoll hcommit ⊢
  generalize hworld : start 10 0 (.partitions [("t", [0])]) Record.read {} = w at hpoll hcommit ⊢
  have hpolled : (w.run (pollWaitAndCommit.take 4)).reply (.emit 1) = some (.polled (.ok ())) := by
    have hreply : ((w.run (pollWaitAndCommit.take 4)).reply (.emit 1)).any
        (Reply.succeeds .poll) = true := by
      subst hworld
      decide +kernel
    obtain ⟨r, hr, hs⟩ := (Option.any_eq_true _ _).mp hreply
    exact hr.trans (congrArg some (Reply.eq_of_succeeds hs))
  have hcommitted : (w.run (pollWaitAndCommit.take 8)).reply (.emit 1) =
      some (.committed (.ok true)) := by
    have hreply : ((w.run (pollWaitAndCommit.take 8)).reply (.emit 1)).any
        (Reply.succeeds .commit) = true := by
      subst hworld
      decide +kernel
    obtain ⟨r, hr, hs⟩ := (Option.any_eq_true _ _).mp hreply
    exact hr.trans (congrArg some (Reply.eq_of_succeeds hs))
  have hlength : (w.handling 1 {} (pollWaitAndCommit.take 8)).accepted.length = 1 := by
    subst hworld
    decide +kernel
  obtain ⟨l, hl, hsettled⟩ := hcommit hcommitted
  exact ⟨⟨hpolled, hpoll hpolled⟩, hcommitted, l, hl, hsettled, hlength⟩

end World
end RecordIntake
