import RecordIntake.Proofs.Ownership
import RecordIntake.Proofs.Subscription

/-!
No partition is in two places, so under explicit ownership no two connections that are in use select
one partition.
-/
namespace RecordIntake

/-- What is recorded of two connections tells them apart, by their numbers and by their
partitions. -/
structure Apart (p : Pool) (loan loan' : Loan) : Prop where
  number : loan'.signal.connection ≠ loan.signal.connection
  partition : p.subscription.ownedPartitions.Nodup →
    ∀ q, loan.partition = some q → loan'.partition ≠ some q

section Apart

open Pool

variable {p : Pool} {phs : SortedMap LeaseId Phase} {xs : List Inquiry} {id : LeaseId} {loan : Loan}

theorem mem_lent (hloan : p.outstanding.find? id = some loan) {q : Partition}
    (hq : loan.partition = some q) : q ∈ p.lent :=
  List.mem_filterMap.mpr ⟨(id, loan), SortedMap.mem_of_find? hloan, hq⟩

theorem mem_lentIds (hloan : p.outstanding.find? id = some loan) :
    loan.signal.connection ∈ p.lentIds :=
  List.mem_map.mpr ⟨(id, loan), SortedMap.mem_of_find? hloan, rfl⟩

/-- A number or a partition that is there twice would be counted twice. -/
theorem apart_of_counts (h : Owned p phs xs) {loan' : Loan}
    (hnumber : ∀ k, loan.signal.connection = k → loan'.signal.connection = k →
      2 ≤ p.idleIds.count k + p.lentIds.count k + (askedIds xs).count k)
    (hpartition : ∀ q, loan.partition = some q → loan'.partition = some q →
      2 ≤ p.free.count q + p.lent.count q + (asked xs).count q) : Apart p loan loan' where
  number heq := by
    have htwo := hnumber _ rfl heq
    have hone := (h.numbered loan.signal.connection).1
    omega
  partition hnodup q hq hq' := by
    obtain ⟨lost, -, hcount⟩ := h.shares
    have htwo := hpartition q hq hq'
    have hone := List.nodup_iff_count.mp hnodup q
    have := hcount q
    omega

theorem apart_idle (h : Owned p phs xs) (hloan : p.outstanding.find? id = some loan)
    {i : IdleConnection} (hi : i ∈ p.idle) : Apart p loan i.loan := by
  refine apart_of_counts h (fun k hk hk' => ?_) fun q hq hq' => ?_
  · have hlent := List.count_pos_iff.mpr (hk ▸ mem_lentIds hloan)
    have hidle : 0 < p.idleIds.count k :=
      List.count_pos_iff.mpr (List.mem_map.mpr ⟨i, hi, (h.idle i hi).id.trans hk'⟩)
    omega
  · have hlent := List.count_pos_iff.mpr (mem_lent hloan hq)
    have hfree : 0 < p.free.count q :=
      List.count_pos_iff.mpr (List.mem_append_left _ (List.mem_filterMap.mpr ⟨i, hi, hq'⟩))
    omega

theorem apart_inquiry (h : Owned p phs xs) (hloan : p.outstanding.find? id = some loan)
    {x : Inquiry} (hx : x ∈ xs) : Apart p loan x.loan := by
  refine apart_of_counts h (fun k hk hk' => ?_) fun q hq hq' => ?_
  · have hlent := List.count_pos_iff.mpr (hk ▸ mem_lentIds hloan)
    have hasked : 0 < (askedIds xs).count k :=
      List.count_pos_iff.mpr (List.mem_map.mpr ⟨x, hx, hk'⟩)
    omega
  · have hlent := List.count_pos_iff.mpr (mem_lent hloan hq)
    have hasked : 0 < (asked xs).count q :=
      List.count_pos_iff.mpr (List.mem_filterMap.mpr ⟨x, hx, hq'⟩)
    omega

theorem apart_lease (h : Owned p phs xs) (hloan : p.outstanding.find? id = some loan)
    {id' : LeaseId} {loan' : Loan} (hloan' : p.outstanding.find? id' = some loan')
    (hne : id' ≠ id) : Apart p loan loan' := by
  have herase : SortedMap.find? id' { p with outstanding := p.outstanding.erase id }.outstanding =
      some loan' := by
    rw [SortedMap.find?_erase h.sorted, if_neg hne]
    exact hloan'
  refine apart_of_counts h (fun k hk hk' => ?_) fun q hq hq' => ?_
  · have hlent := (lentIds_erase p hloan).count_eq k
    rw [List.count_cons, if_pos (by simpa using hk)] at hlent
    have hrest := List.count_pos_iff.mpr (hk' ▸ mem_lentIds herase)
    omega
  · have hlent := (lent_erase p hloan).count_eq q
    rw [hq, Option.toList_some, List.count_append, List.count_singleton_self] at hlent
    have hrest := List.count_pos_iff.mpr (mem_lent herase hq')
    omega

/-- Under explicit ownership a connection selects the partition that is recorded for it. -/
theorem Connection.Serves.selects_iff {c : Connection} (hs : c.Serves p loan)
    (hlends : p.lendsPartitions = true) (r : Partition) :
    c.subscription.selects r = true ↔ loan.partition = some r := by
  rw [hs.subscription, connectionSubscription, if_pos hlends]
  cases hq : loan.partition with
  | none =>
    simp only [reduceCtorEq, iff_false, Bool.not_eq_true]
    rfl
  | some q =>
    rw [Option.toList_some, Subscription.selects_ofPartitions, Option.some.injEq]
    exact eq_comm

/-- Under explicit ownership no two connections select one partition. -/
theorem not_selects_of_apart {loan' : Loan} {c c' : Connection} (hapart : Apart p loan loan')
    (hnodup : p.subscription.ownedPartitions.Nodup) (hlends : p.lendsPartitions = true)
    (hs : c.Serves p loan) (hs' : c'.Serves p loan') {r : Partition}
    (hr : c.subscription.selects r = true) : c'.subscription.selects r = false := by
  refine Bool.eq_false_iff.mpr fun hr' => ?_
  exact hapart.partition hnodup r ((hs.selects_iff hlends r).mp hr)
    ((hs'.selects_iff hlends r).mp hr')

end Apart

/-! ## Every step -/

namespace World

theorem phase_ne_ended {ph : Phase} {l : Lease} (h : ph.lease? = some l) : ph ≠ .ended := by
  rintro rfl
  cases h

/-- Whatever a lease holds, its signal is the one that is recorded for it. -/
theorem signal_of_lease {w : World} (h : Owned w.pool w.phases w.inquiries) {id : LeaseId}
    {ph : Phase} {l : Lease} (hph : w.phases.find? id = some ph) (hl : ph.lease? = some l) :
    w.pool.outstanding.find? id = some ⟨l.connection.signal,
      ((w.pool.outstanding.find? id).bind (·.partition))⟩ := by
  obtain hended | ⟨loan, hloan, hserves⟩ := h.phases id ph hph
  · exact absurd hended (phase_ne_ended hl)
  · rw [hloan, (hserves.of_lease hl).signal]
    rfl

theorem owned_endPoll {w : World} (h : Owned w.pool w.phases w.inquiries) {id : LeaseId}
    {ph : Phase} {l : Lease} (hph : w.phases.find? id = some ph) (hne : ph ≠ .ended)
    (hserves : ∀ loan, ph.Serves w.pool id loan → l.connection.Serves w.pool loan)
    (result : Except IntakeError (List Message)) :
    Owned (w.endPoll id l result).pool (w.endPoll id l result).phases
      (w.endPoll id l result).inquiries := by
  unfold endPoll
  cases result with
  | error e =>
    rw [Lease.takeIn_error]
    exact h.setPhase hph hne hserves (by simp)
  | ok ms =>
    obtain ⟨env, -, hin⟩ := l.takeIn_ok w.env ms
    rw [hin]
    exact h.setPhase hph hne hserves (by simp)

variable {w w' : World}

theorem owned_request (h : Owned w.pool w.phases w.inquiries) (sink : String) :
    Owned (w.request sink).pool (w.request sink).phases (w.request sink).inquiries := by
  unfold request
  split
  · rename_i env p hr
    obtain rfl | rfl := Pool.startObtain_none hr
    · exact h
    · exact h.takeExpired w.env.now
  · rename_i env p o hr
    exact (h.takeExpired w.env.now).lend (Pool.startObtain_some hr).2 sink

theorem owned_supply (h : Owned w.pool w.phases w.inquiries) {id : LeaseId} {o : Offer}
    {sink : String} (hph : w.phases.find? id = some (.opening o sink)) :
    Owned (w.supply id o sink).pool (w.supply id o sink).phases
      (w.supply id o sink).inquiries := by
  obtain hended | ⟨loan, hloan, rfl, rfl, hs⟩ := h.phases id _ hph
  · cases hended
  unfold supply
  split
  · rename_i env p l hr
    obtain ⟨rfl, c, hy, rfl⟩ := Pool.finishObtain_ok hr
    refine h.setPhase hph (by simp) (fun loan' hs' => ?_) (by simp)
    exact hs'.2.1 ▸ hy.serves hs'.2.2
  · rename_i env p e hr
    obtain ⟨now, rfl⟩ := Pool.finishObtain_error hr
    exact h.takeBack hloan (by simp) true now

theorem owned_poll (h : Owned w.pool w.phases w.inquiries) {id : LeaseId} {l : Lease}
    (hph : w.phases.find? id = some (.held l)) :
    Owned (w.poll id l).pool (w.poll id l).phases (w.poll id l).inquiries := by
  have hc := (w.env.startPoll_polls l.connection l.settings.pollTimeout).same
  unfold poll
  split
  · exact h
  · split
    rename_i env c result hr
    simp only [hr] at hc
    obtain ⟨positions, rfl⟩ := hc
    dsimp only
    split
    · exact h.setPhase hph (by simp) (fun loan hs => ⟨hs.id, hs.signal, hs.subscription⟩)
        (by simp)
    · refine owned_endPoll (w := World.remember { w with env := env } _) h hph (by simp)
        (fun loan hs => ?_) _
      exact ⟨hs.id, hs.signal, hs.subscription⟩

theorem owned_finishCommit (h : Owned w.pool w.phases w.inquiries) {id : LeaseId} {l : Lease}
    (hph : w.phases.find? id = some (.emitting l [] .commit)) :
    Owned (w.finishCommit id l).pool (w.finishCommit id l).phases
      (w.finishCommit id l).inquiries := by
  have hc := l.finishCommit_commits w.env
  unfold finishCommit
  split
  rename_i env l' outcome hr
  rw [hr] at hc
  have hback : Owned w.pool (w.phases.insert id (.held l')) w.inquiries := by
    refine h.setPhase hph (by simp) (fun loan hs => ?_) (by simp)
    cases hc <;> exact hs
  dsimp only
  split
  · split
    · exact hback
    · exact hback
  · exact hback

theorem owned_emit (h : Owned w.pool w.phases w.inquiries) {id : LeaseId} {l : Lease}
    {units : List Emission} {errand : Errand}
    (hph : w.phases.find? id = some (.emitting l units errand)) :
    Owned (w.emit id l units errand).pool (w.emit id l units errand).phases
      (w.emit id l units errand).inquiries := by
  unfold emit
  split
  · split
    · rename_i hr
      obtain ⟨rfl, -⟩ := Lease.emitOne_ok hr
      exact h.setPhase hph (by simp) (fun _ hs => hs) (by simp)
    · rename_i hr
      obtain ⟨rfl, -⟩ := Lease.emitOne_error hr
      exact h.setPhase hph (by simp) (fun _ hs => hs) (by simp)
  · exact h.setPhase hph (by simp) (fun _ hs => hs) (by simp)
  · exact owned_finishCommit h hph

theorem owned_checkIn (h : Owned w.pool w.phases w.inquiries) {id : LeaseId} {c : Connection}
    {discard : Bool} (hph : w.phases.find? id = some (.returning c discard)) :
    Owned (w.checkIn id c discard).pool (w.checkIn id c discard).phases
      (w.checkIn id c discard).inquiries := by
  obtain hended | ⟨loan, hloan, hs⟩ := h.phases id _ hph
  · cases hended
  have hback := h.takeBack hloan (c := some c) (fun c' hc' => Option.some.inj hc' ▸ hs) discard
    w.env.now
  unfold checkIn
  split
  rename_i env p hr
  have hp := w.pool.checkIn_pool w.env id (some c) discard
  rw [hr] at hp
  obtain rfl : p = _ := hp
  dsimp only
  split
  · exact hback
  · exact hback

theorem owned_connect (h : Owned w.pool w.phases w.inquiries) {i : Nat} {s : Supply}
    (hx : w.inquiries[i]? = some (.taken s)) :
    Owned (w.connect i s).pool (w.connect i s).phases (w.connect i s).inquiries := by
  have hserves := h.inquiries _ (List.mem_of_getElem? hx)
  unfold connect
  split
  · rename_i env q hr
    obtain ⟨hy, hq⟩ := Pool.query_ok hr
    have hyield := hy.serves hserves.of_taken
    refine h.setInquiry hx ?_ ?_
    · show Loan.mk q.connection.signal q.partition = _
      rw [hyield.signal, hq]
      rfl
    · have hself := hyield.self
      rw [← hq] at hself
      exact hself
  · rename_i env e hr
    refine h.dropInquiry hx ?_
    cases s with
    | idle j => cases hr
    | fresh signal partition => exact hserves

theorem owned_putBack (h : Owned w.pool w.phases w.inquiries) {i : Nat} {q : Pool.Query}
    {faulty : Bool} (hx : w.inquiries[i]? = some (.answered q faulty)) :
    Owned (w.putBack i q faulty).pool (w.putBack i q faulty).phases
      (w.putBack i q faulty).inquiries := by
  unfold putBack
  split
  rename_i env p hr
  have hp := w.pool.returnQuery_pool w.env q faulty
  rw [hr] at hp
  obtain rfl : p = _ := hp
  exact h.endQuery hx

theorem owned_step (hstep : Step w w') (h : Owned w.pool w.phases w.inquiries) :
    Owned w'.pool w'.phases w'.inquiries := by
  cases hstep with
  | stay => exact h
  | onCluster a =>
    unfold onCluster
    dsimp only
    split
    · exact h
    · exact h
  | advance ms => exact h
  | wake handle => exact h
  | evictIdle => exact h.takeExpired w.env.now
  | close => exact h.shut
  | request sink => exact owned_request h sink
  | supply hph => exact owned_supply h hph
  | @continuePolling id l hph =>
    obtain ⟨state, hl, -⟩ := l.continuePolling_eq w.env
    refine h.setPhase hph (by simp) (fun loan hs => ?_) (by simp)
    rw [hl]
    exact hs
  | poll hph => exact owned_poll h hph
  | resume hph =>
    unfold resume
    split
    · exact h.setPhase hph (by simp) (fun _ hs => hs) (by simp)
    · rename_i env result hr
      exact owned_endPoll (w := { w with env := env }) h hph (by simp) (fun _ hs => hs) _
  | commit hph =>
    unfold commit
    split
    · exact h
    · exact h.setPhase hph (by simp) (fun _ hs => hs) (by simp)
  | emit hph => exact owned_emit h hph
  | @abandon id ph l hph hl =>
    obtain ⟨positions, hc⟩ := l.abandon_connection w.env
    refine h.setPhase hph (phase_ne_ended hl) (fun loan hs => ?_) (by simp)
    have hs := hs.of_lease hl
    show Connection.Serves w.pool loan (l.abandon w.env).2.1
    rw [hc]
    exact ⟨hs.id, hs.signal, hs.subscription⟩
  | checkIn hph => exact owned_checkIn h hph
  | inquire =>
    unfold inquire
    obtain hs | ⟨-, hs⟩ := w.pool.supplyQuery_cases
    · rw [hs]
      exact h
    · rw [hs]
      exact h.draw
  | connect hx => exact owned_connect h hx
  | @ask i q hx topic =>
    have hserves := h.inquiries _ (List.mem_of_getElem? hx)
    exact h.setInquiry hx rfl hserves
  | putBack hx => exact owned_putBack h hx

theorem owned_run (maxPollRecords now : Nat) (s : Subscription) (reader : RecordReader)
    (settings : IntakeSettings) (as : List Action) :
    let w := (World.start maxPollRecords now s reader settings).run as
    Owned w.pool w.phases w.inquiries :=
  run_induction (fun _ _ => owned_step) (.start 0 s reader settings now) as

/-- Before the pool is closed each owned partition is in one place: with an idle connection, a
lease, or a question, or without a connection.  Closing it takes those of the idle connections out,
and puts nothing in two places.  Each connection selects the partition that is recorded for it and
no other, so no two leases read the same one. -/
theorem partitions_owned_once (maxPollRecords now : Nat) {s : Subscription}
    (hs : s.isExplicit = true) (hwf : s.WellFormed) (reader : RecordReader)
    (settings : IntakeSettings) (as : List Action) :
    let w := (World.start maxPollRecords now s reader settings).run as
    let shares := w.pool.idlePartitions ++ w.pool.lent ++ w.pool.unclaimedPartitions ++
      asked w.inquiries
    (w.pool.closed = false → shares.Perm s.ownedPartitions) ∧ shares.Nodup ∧
      (∀ i ∈ w.pool.idle, ∃ q, i.partition = some q ∧
        ∀ r, i.connection.subscription.selects r = true ↔ r = q) ∧
      (∀ id loan, w.pool.outstanding.find? id = some loan → ∃ q, loan.partition = some q ∧
        ∃ ph, w.phases.find? id = some ph ∧ ph ≠ .ended ∧
          ∀ c, ph.connection? = some c → ∀ r, c.subscription.selects r = true ↔ r = q) ∧
      ∀ id id' ph ph' c c' r, w.phases.find? id = some ph → w.phases.find? id' = some ph' →
        ph.connection? = some c → ph'.connection? = some c' →
          c.subscription.selects r = true → c'.subscription.selects r = true → id = id' := by
  intro w shares
  have h : Owned w.pool w.phases w.inquiries := owned_run ..
  have hsubscription : w.pool.subscription = s :=
    (sameTerms_run (World.start maxPollRecords now s reader settings) as).subscription
  have hlends : w.pool.lendsPartitions = true := by
    rw [Pool.lendsPartitions, hsubscription]
    exact hs
  have hnodup : w.pool.subscription.ownedPartitions.Nodup := hsubscription ▸ hwf.nodup
  have hshares : shares.Perm (w.pool.free ++ w.pool.lent ++ asked w.inquiries) := by
    refine List.perm_iff_count.mpr fun q => ?_
    simp only [shares, Pool.free, List.count_append]
    omega
  refine ⟨fun hopen => ?_, hshares.nodup_iff.mpr (h.nodup hnodup), fun i hi => ?_,
    fun id loan hloan => ?_, fun id id' ph ph' c c' r hph hph' hc hc' hr hr' => ?_⟩
  · exact hshares.trans (hsubscription ▸ h.perm hopen)
  · obtain ⟨q, hq⟩ := Option.isSome_iff_exists.mp ((h.bound hlends).1 i hi)
    refine ⟨q, hq, fun r => ?_⟩
    rw [(h.idle i hi).selects_iff hlends r, show i.loan.partition = some q from hq,
      Option.some.injEq]
    exact eq_comm
  · obtain ⟨q, hq⟩ :=
      Option.isSome_iff_exists.mp ((h.bound hlends).2 _ (SortedMap.mem_of_find? hloan))
    obtain ⟨ph, hph, hne⟩ := h.held id loan hloan
    refine ⟨q, hq, ph, hph, hne, fun c hc r => ?_⟩
    obtain hended | ⟨loan', hloan', hserves⟩ := h.phases id ph hph
    · exact absurd hended hne
    · obtain rfl : loan = loan' := Option.some.inj (hloan.symm.trans hloan')
      rw [(hserves.of_connection hc).selects_iff hlends r, show loan.partition = some q from hq,
        Option.some.injEq]
      exact eq_comm
  · refine Classical.byContradiction fun hne => ?_
    obtain hended | ⟨loan, hloan, hserves⟩ := h.phases id ph hph
    · subst hended
      cases hc
    obtain hended | ⟨loan', hloan', hserves'⟩ := h.phases id' ph' hph'
    · subst hended
      cases hc'
    rw [not_selects_of_apart (apart_lease h hloan hloan' (Ne.symm hne)) hnodup hlends
      (hserves.of_connection hc) (hserves'.of_connection hc') hr] at hr'
    cases hr'

/-- A connection is open for one lease, and still to be opened for another. -/
def lendTwice : World :=
  (World.start 10 0 (.partitions [("t", [0, 1, 2])]) Record.read {}).run
    [.request "s", .supply 1, .request "s"]

theorem partitions_owned_once_lendTwice :
    (lendTwice.pool.idlePartitions ++ lendTwice.pool.lent ++
        lendTwice.pool.unclaimedPartitions ++ asked lendTwice.inquiries).Perm
      [⟨"t", 0⟩, ⟨"t", 1⟩, ⟨"t", 2⟩] ∧
    ∃ loan q, lendTwice.pool.outstanding.find? 1 = some loan ∧ loan.partition = some q ∧
      ∃ ph, lendTwice.phases.find? 1 = some ph ∧ ph ≠ .ended ∧
        ∀ c, ph.connection? = some c → ∀ r, c.subscription.selects r = true ↔ r = q := by
  have hwf : Subscription.WellFormed (.partitions [("t", [0, 1, 2])]) :=
    ⟨List.pairwise_singleton _ _, by simp; decide⟩
  obtain ⟨hshares, -, -, hlent, -⟩ :=
    partitions_owned_once 10 0 rfl hwf Record.read {} [.request "s", .supply 1, .request "s"]
  have hloan : (lendTwice.pool.outstanding.find? 1).isSome = true := by decide +kernel
  obtain ⟨loan, hloan⟩ := Option.isSome_iff_exists.mp hloan
  obtain ⟨q, hq⟩ := hlent 1 loan hloan
  exact ⟨hshares (by decide +kernel), loan, q, hloan, hq⟩

end World
end RecordIntake
