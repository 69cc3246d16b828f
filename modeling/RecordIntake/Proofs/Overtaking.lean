import RecordIntake.Proofs.Rotation

/-!
How often a partition can be lent while another one is unclaimed.  Partitions join the queue of
unclaimed ones at its end and leave it at its front, and an idle connection is lent before the front
of the queue only if it has been idle for longer.  The queue is not in the order of its times.  But
whatever stands before a partition was there when that partition joined, and so has been waiting
since before that.  A partition that was lent in the meantime comes back after that, so it is
neither put before the waiting one nor lent out of turn a second time.
-/
namespace RecordIntake
namespace Pool

variable {p p' : Pool}

/-! ## The queue of unclaimed partitions -/

theorem unclaimed_takeExpired (p : Pool) (now : Nat) :
    ∃ new, (p.takeExpired now).1.unclaimed = p.unclaimed ++ new := by
  rw [takeExpired_eq]
  exact ⟨_, rfl⟩

theorem unclaimed_makeRoom (p : Pool) : ∃ new, p.makeRoom.1.unclaimed = p.unclaimed ++ new := by
  unfold makeRoom
  split
  · exact ⟨[], (List.append_nil _).symm⟩
  · split
    · exact ⟨[], (List.append_nil _).symm⟩
    · rw [unbind_eq]
      exact ⟨_, rfl⟩

theorem unclaimed_shut (p : Pool) : p.shut.1.unclaimed = p.unclaimed := by
  unfold shut
  split <;> rfl

theorem unclaimed_supplyAny (p : Pool) : p.supplyAny.1.unclaimed = p.unclaimed := by
  unfold supplyAny
  split <;> rfl

/-- What is supplied: the front of the queue, or an idle connection that has been idle for longer
than the front waits. -/
inductive Serves (p p' : Pool) (q : Option Partition) : Prop where
  | front {u : Unclaimed} {new : List Unclaimed} (hqueue : u :: p'.unclaimed = p.unclaimed ++ new)
    (hq : q = some u.partition)
  | idle {i : IdleConnection} (hi : i ∈ p.idle) (hqueue : p'.unclaimed = p.unclaimed)
    (hq : q = i.partition) (hlonger : ∀ v ∈ p.unclaimed.head?, i.since < v.since)

theorem supplyPartition_serves {s : Supply} {displaced : Option Connection}
    (h : p.supplyPartition = (p', some (s, displaced))) : Serves p p' (Supply.loan s).partition := by
  unfold supplyPartition at h
  split at h
  · split at h
    · cases h
    · rename_i u rest hu
      obtain ⟨new, hnew⟩ := unclaimed_makeRoom { p with unclaimed := rest }
      cases h
      have hqueue : u :: (makeRoom { p with unclaimed := rest }).1.unclaimed =
          p.unclaimed ++ new := by
        rw [hnew, hu]
        rfl
      exact .front hqueue rfl
  · rename_i hserves
    split at h
    · cases h
    · rename_i i others hpick
      have hi : i ∈ p.idle := (pickOldest_perm hpick).mem_iff.mpr List.mem_cons_self
      cases h
      refine .idle hi rfl rfl fun v hv => ?_
      unfold servesUnclaimed at hserves
      cases hu : p.unclaimed with
      | nil =>
        rw [hu] at hv
        cases hv
      | cons u rest =>
        rw [hu] at hv hserves
        cases hv
        rw [hpick] at hserves
        exact Nat.lt_of_not_le (of_decide_eq_false (Bool.eq_false_iff.mpr hserves))

theorem offer_serves {o : Offer} (hlends : p.lendsPartitions = true) (h : p.offer = (p', some o)) :
    Serves p p' (Supply.loan o.supply).partition := by
  unfold offer at h
  rw [if_pos hlends] at h
  split at h
  · cases h
  · split at h
    rename_i p₁ found hfound
    split at h
    · cases h
    · cases h
      cases supplyPartition_serves hfound with
      | front hqueue hq => exact .front hqueue hq
      | idle hi hqueue hq hlonger => exact .idle hi hqueue hq hlonger

end Pool

namespace World

variable {w w' : World}

/-- Explicitly owned partitions, each of them in one place. -/
structure Exclusive (w : World) : Prop where
  owned : Owned w.pool w.phases w.inquiries
  nodup : w.pool.subscription.ownedPartitions.Nodup
  lends : w.pool.lendsPartitions = true

theorem exclusive_start (maxPollRecords now : Nat) {s : Subscription} (hs : s.isExplicit = true)
    (hwf : s.WellFormed) (reader : RecordReader) (settings : IntakeSettings) :
    Exclusive (start maxPollRecords now s reader settings) :=
  ⟨.start 0 s reader settings now, hwf.nodup, hs⟩

theorem exclusive_step (hstep : Step w w') (h : Exclusive w) : Exclusive w' where
  owned := owned_step hstep h.owned
  nodup := by
    rw [(sameTerms_step hstep).subscription]
    exact h.nodup
  lends := (sameTerms_step hstep).lendsPartitions.trans h.lends

theorem Exclusive.not_lent (h : Exclusive w) {u : Unclaimed} (hu : u ∈ w.waiting) :
    u.partition ∉ w.pool.lent := not_lent_of_waiting h.owned h.nodup hu

theorem waiting_of_unclaimed {u : Unclaimed} (hu : u ∈ w.pool.unclaimed) : u ∈ w.waiting :=
  waiting_of_pool (Pool.mem_waiting.mpr (.inr hu))

/-- What a step can do to the queue of unclaimed partitions.  At most one partition is lent: the
front of the queue, or that of a connection that has been idle for longer than the front waits. -/
inductive Queues (w w' : World) : Prop where
  | joins {new : List Unclaimed} (hqueue : w'.pool.unclaimed = w.pool.unclaimed ++ new)
    (hlent : ∀ q ∈ w'.pool.lent, q ∈ w.pool.lent)
  | serves {u : Unclaimed} {new : List Unclaimed}
    (hqueue : u :: w'.pool.unclaimed = w.pool.unclaimed ++ new)
    (hserved : u.partition ∈ w'.pool.lent)
    (hlent : ∀ q ∈ w'.pool.lent, q = u.partition ∨ q ∈ w.pool.lent)
  | reuses {u : Unclaimed} {new : List Unclaimed}
    (hqueue : w'.pool.unclaimed = w.pool.unclaimed ++ new) (hwaiting : u ∈ w.waiting)
    (hlonger : ∀ v ∈ w.pool.unclaimed.head?, u.since < v.since)
    (hlent : ∀ q ∈ w'.pool.lent, q = u.partition ∨ q ∈ w.pool.lent)

theorem Queues.of_lent {new : List Unclaimed}
    (hqueue : w'.pool.unclaimed = w.pool.unclaimed ++ new) (hlent : w'.pool.lent = w.pool.lent) :
    Queues w w' := .joins hqueue fun _ hq => hlent ▸ hq

theorem Queues.of_pool (h : w'.pool = w.pool) : Queues w w' :=
  .of_lent (by rw [h, List.append_nil]) (by rw [h])

theorem queues_request (h : Exclusive w) (sink : String) : Queues w (w.request sink) := by
  obtain ⟨expired, hexpired⟩ := w.pool.unclaimed_takeExpired w.env.now
  have hsame : (w.pool.takeExpired w.env.now).1.lent = w.pool.lent :=
    Pool.lent_congr (w.pool.same_takeExpired w.env.now).1
  unfold request
  split
  · rename_i env p hr
    obtain rfl | rfl := Pool.startObtain_none hr
    · exact .of_pool rfl
    · exact .of_lent hexpired hsame
  · rename_i env p o hr
    have ho := (Pool.startObtain_some hr).2
    have hlends := (w.pool.sameTerms_takeExpired w.env.now).lendsPartitions.trans h.lends
    obtain ⟨p₁, -, -, hp⟩ := Pool.offer_eq_some ho
    have hinsert := Pool.lent_insert _ (Pool.Supply.loan o.supply)
      (h.owned.takeExpired w.env.now).find?_next
    have hlent : ∀ q, q ∈ p.lent ↔
        (Pool.Supply.loan o.supply).partition = some q ∨ q ∈ w.pool.lent := by
      intro q
      rw [← hsame, ← Option.mem_toList, ← List.mem_append, ← hinsert.mem_iff, hp]
      exact Iff.rfl
    cases Pool.offer_serves hlends ho with
    | @front u new hqueue hu =>
      rw [hexpired, List.append_assoc] at hqueue
      refine .serves hqueue ((hlent _).mpr (.inl hu)) fun q hq => ?_
      exact ((hlent q).mp hq).imp_left fun hq => Option.some.inj (hq.symm.trans hu)
    | @idle i hi hqueue hpartition hlonger =>
      have hidle : i ∈ w.pool.idle := (w.pool.sublist_takeExpired w.env.now).subset hi
      obtain ⟨q, hq⟩ := Option.isSome_iff_exists.mp ((h.owned.bound h.lends).1 i hidle)
      have hfreed : i.freed = some ⟨q, i.since⟩ := Pool.freed_eq_some.mpr ⟨hq, rfl⟩
      refine .reuses (hqueue.trans hexpired)
        (waiting_of_pool (Pool.mem_waiting.mpr (.inl ⟨i, hidle, hfreed⟩))) (fun v hv => ?_)
        fun r hr => ?_
      · refine hlonger v ?_
        rw [hexpired, List.head?_append, Option.mem_def.mp hv]
        rfl
      · refine ((hlent r).mp hr).imp_left fun hr => ?_
        exact Option.some.inj (hr.symm.trans (hpartition.trans hq))

theorem queues_takeBack {id : LeaseId} {loan : Loan}
    (hloan : w.pool.outstanding.find? id = some loan) {c : Option Connection} {discard : Bool}
    {now : Nat} (hpool : w'.pool = (w.pool.takeBack id c discard now).1) : Queues w w' := by
  obtain ⟨new, hqueue, -⟩ := (Pool.recovers_takeBack hloan c discard now).queue
  have hout := (w.pool.same_takeBack id c discard now).1
  rw [← hpool] at hqueue hout
  refine .joins hqueue fun q hq => ?_
  rw [Pool.lent, hout] at hq
  exact ((SortedMap.erase_sublist id _).filterMap _).subset hq

theorem queues_of_step (hstep : Step w w') (h : Exclusive w) : Queues w w' := by
  cases deals_of_step hstep with
  | proceeds hp => cases hp <;> exact .of_pool rfl
  | evictIdle =>
    obtain ⟨new, hqueue⟩ := w.pool.unclaimed_takeExpired w.env.now
    exact .of_lent hqueue (Pool.lent_congr (w.pool.same_takeExpired w.env.now).1)
  | close =>
    have hqueue := w.pool.unclaimed_shut.trans (List.append_nil _).symm
    exact .of_lent hqueue (Pool.lent_congr w.pool.same_shut.1)
  | request sink => exact queues_request h sink
  | @supply id o sink hph =>
    obtain hended | ⟨loan, hloan, rfl, -, -⟩ := h.owned.phases id _ hph
    · cases hended
    unfold supply
    split
    · rename_i env p l hr
      obtain ⟨rfl, -⟩ := Pool.finishObtain_ok hr
      exact .of_pool rfl
    · rename_i env p e hr
      obtain ⟨now, hpool⟩ := Pool.finishObtain_error hr
      exact queues_takeBack hloan hpool
  | abandon hph hl => exact .of_pool rfl
  | @checkIn id c discard hph =>
    obtain hended | ⟨loan, hloan, -⟩ := h.owned.phases id _ hph
    · cases hended
    obtain ⟨-, hpool, -, -⟩ := checkIn_frame w id c discard
    rw [Pool.checkIn_pool] at hpool
    exact queues_takeBack hloan hpool
  | inquire =>
    unfold inquire
    obtain hs | ⟨-, hs⟩ := w.pool.supplyQuery_cases
    · rw [hs]
      exact .of_pool rfl
    · rw [hs]
      have hqueue := w.pool.unclaimed_supplyAny.trans (List.append_nil _).symm
      exact .of_lent hqueue (Pool.lent_congr w.pool.supplyAny_draws.same.1)
  | connect hx =>
    unfold connect
    split <;> exact .of_pool rfl
  | ask hx topic => exact .of_pool rfl
  | @putBack i q faulty hx =>
    obtain ⟨new, hqueue, -⟩ := (w.pool.recovers_endQuery q faulty).queue
    have hout := (w.pool.endQuery_regains q faulty).outstanding
    rw [← w.pool.returnQuery_pool w.env] at hqueue hout
    exact .of_lent hqueue (Pool.lent_congr hout)

/-! ## While a partition is unclaimed -/

/-- Whether a partition is lent after a step and not before it. -/
def goesOut (w w' : World) (q : Partition) : Bool :=
  !w.pool.lent.contains q && w'.pool.lent.contains q

/-- How often a partition is lent in a run. -/
def timesLent (w : World) (q : Partition) : List Action → Nat
  | [] => 0
  | a :: as => (if w.goesOut (w.act a) q then 1 else 0) + (w.act a).timesLent q as

/-- A partition is in the queue.  These entries stand before it, and none of them, nor its own, is
later than a given time. -/
structure Stands (w : World) (q : Partition) (time : Nat) (ahead : List Unclaimed) : Prop where
  place : ∃ u behind, w.pool.unclaimed = ahead ++ u :: behind ∧ u.partition = q ∧ u.since ≤ time
  ahead : ∀ v ∈ ahead, v.since ≤ time

/-- Wherever a partition waits, it has done so only since a given time, and not as one of these
entries. -/
structure Follows (w : World) (q : Partition) (time : Nat) (ahead : List Unclaimed) : Prop where
  since : ∀ u ∈ w.waiting, u.partition = q → time ≤ u.since
  behind : ∀ u ∈ ahead, u.partition ≠ q

variable {q q' : Partition} {time : Nat} {ahead ahead' : List Unclaimed}

theorem goesOut_iff : w.goesOut w' q = true ↔ q ∉ w.pool.lent ∧ q ∈ w'.pool.lent := by
  simp [goesOut]

theorem Stands.subset (h : Stands w q time ahead) {v : Unclaimed} (hv : v ∈ ahead) :
    v ∈ w.waiting := by
  obtain ⟨u, behind, hqueue, -⟩ := h.place
  exact waiting_of_unclaimed (hqueue ▸ List.mem_append_left _ hv)

theorem Stands.unclaimed (h : Stands w q time ahead) : q ∈ w.pool.unclaimedPartitions := by
  obtain ⟨u, behind, hqueue, rfl, -⟩ := h.place
  refine List.mem_map.mpr ⟨u, ?_, rfl⟩
  rw [hqueue]
  exact List.mem_append_right _ List.mem_cons_self

theorem Stands.not_lent (h : Stands w q time ahead) (hw : Exclusive w) : q ∉ w.pool.lent := by
  obtain ⟨u, hu, rfl⟩ := List.mem_map.mp h.unclaimed
  exact hw.not_lent (waiting_of_unclaimed hu)

/-- The front of the queue is not later than the given time. -/
theorem Stands.front (h : Stands w q time ahead) :
    ∃ v ∈ w.pool.unclaimed.head?, v.since ≤ time := by
  obtain ⟨u, behind, hqueue, -, hu⟩ := h.place
  rw [hqueue]
  cases ahead with
  | nil => exact ⟨u, rfl, hu⟩
  | cons v rest => exact ⟨v, rfl, h.ahead v List.mem_cons_self⟩

/-- Whatever is in the queue has its place there. -/
theorem stands_of_unclaimed (hq : q ∈ w.pool.unclaimedPartitions)
    (hpast : ∀ u ∈ w.waiting, u.since ≤ time) : ∃ ahead, Stands w q time ahead := by
  obtain ⟨u, hu, rfl⟩ := List.mem_map.mp hq
  obtain ⟨ahead, behind, hqueue⟩ := List.append_of_mem hu
  refine ⟨ahead, ⟨u, behind, hqueue, rfl, hpast u (waiting_of_unclaimed hu)⟩, fun v hv => ?_⟩
  exact hpast v (waiting_of_unclaimed (hqueue ▸ List.mem_append_left _ hv))

/-- A partition stays in the queue until it is lent, and nothing gets before it. -/
theorem stands_of_queues (hw : Exclusive w) (hqueues : Queues w w') (h : Stands w q time ahead)
    (hq : w.goesOut w' q = false) : ∃ ahead', Stands w' q time ahead' ∧ ahead' ⊆ ahead := by
  obtain ⟨u, behind, hplace, hu, hsince⟩ := h.place
  have hstays : q ∉ w'.pool.lent := fun hlent => by
    rw [goesOut_iff.mpr ⟨h.not_lent hw, hlent⟩] at hq
    cases hq
  have hjoins : ∀ new, w'.pool.unclaimed = w.pool.unclaimed ++ new →
      ∃ ahead', Stands w' q time ahead' ∧ ahead' ⊆ ahead := by
    intro new hqueue
    refine ⟨ahead, ⟨⟨u, behind ++ new, ?_, hu, hsince⟩, h.ahead⟩, List.Subset.refl _⟩
    rw [hqueue, hplace, List.append_assoc, List.cons_append]
  cases hqueues with
  | joins hqueue hlent => exact hjoins _ hqueue
  | reuses hqueue hwaiting hlonger hlent => exact hjoins _ hqueue
  | @serves v new hqueue hserved hlent =>
    rw [hplace, List.append_assoc, List.cons_append] at hqueue
    cases ahead with
    | nil =>
      obtain ⟨rfl, -⟩ := List.cons.inj hqueue
      exact absurd (hu ▸ hserved) hstays
    | cons v' rest =>
      obtain ⟨-, hrest⟩ := List.cons.inj hqueue
      exact ⟨rest, ⟨⟨u, behind ++ new, hrest, hu, hsince⟩,
        fun x hx => h.ahead x (List.mem_cons_of_mem _ hx)⟩, List.subset_cons_self _ _⟩

/-- A partition that is lent meanwhile comes back later, and behind. -/
theorem follows_of_lent (hw : Exclusive w) (h : Stands w q time ahead)
    (hlent : q' ∈ w.pool.lent) : Follows w q' time ahead where
  since _ hu hq := absurd (hq ▸ hlent) (hw.not_lent hu)
  behind _ hu hq := absurd (hq ▸ hlent) (hw.not_lent (h.subset hu))

theorem follows_of_shifts (hshifts : Shifts w w') (h : Follows w q' time ahead)
    (htime : time ≤ w.env.now) (hsub : ahead' ⊆ ahead) : Follows w' q' time ahead' where
  since u hu hq := by
    obtain hold | ⟨-, hnow⟩ := hshifts.waiting u hu
    · exact h.since u hold hq
    · rw [hnow]
      exact Nat.le_trans htime hshifts.now
  behind u hu := h.behind u (hsub hu)

/-- A partition that follows is not lent before the one that it follows. -/
theorem not_lent_of_follows (hw : Exclusive w) (hqueues : Queues w w') (h : Stands w q time ahead)
    (hq : w.goesOut w' q = false) (hf : Follows w q' time ahead) : w.goesOut w' q' = false := by
  refine Bool.eq_false_iff.mpr fun hout => ?_
  obtain ⟨hnot, hlent'⟩ := goesOut_iff.mp hout
  cases hqueues with
  | joins hqueue hlent => exact hnot (hlent q' hlent')
  | @serves v new hqueue hserved hlent =>
    obtain rfl := (hlent q' hlent').resolve_right hnot
    obtain ⟨u, behind, hplace, hu, -⟩ := h.place
    rw [hplace, List.append_assoc, List.cons_append] at hqueue
    cases ahead with
    | nil =>
      obtain ⟨rfl, -⟩ := List.cons.inj hqueue
      rw [goesOut_iff.mpr ⟨h.not_lent hw, hu ▸ hserved⟩] at hq
      cases hq
    | cons v' rest =>
      obtain ⟨rfl, -⟩ := List.cons.inj hqueue
      exact hf.behind v List.mem_cons_self rfl
  | @reuses v new hqueue hwaiting hlonger hlent =>
    obtain rfl := (hlent q' hlent').resolve_right hnot
    obtain ⟨front, hfront, hpast⟩ := h.front
    have hlater : time ≤ v.since := hf.since v hwaiting rfl
    have hearlier : v.since < front.since := hlonger front hfront
    omega

/-! ## Every run -/

theorem timesLent_of_follows (hw : Exclusive w) (h : Stands w q time ahead)
    (hf : Follows w q' time ahead) (htime : time ≤ w.env.now) (as : List Action)
    (hq : w.timesLent q as = 0) : w.timesLent q' as = 0 := by
  induction as generalizing w ahead with
  | nil => rfl
  | cons a as ih =>
    obtain ⟨hstays, hlater⟩ := Nat.add_eq_zero_iff.mp hq
    have hstays : w.goesOut (w.act a) q = false := by simpa using hstays
    have hstep := act_step w a
    have hqueues := queues_of_step hstep hw
    have hshifts := shifts_of_step hstep hw.owned hw.nodup
    obtain ⟨ahead', h', hsub⟩ := stands_of_queues hw hqueues h hstays
    have hrest := ih (exclusive_step hstep hw) h' (follows_of_shifts hshifts hf htime hsub)
      (Nat.le_trans htime hshifts.now) hlater
    rw [timesLent, hrest, not_lent_of_follows hw hqueues h hstays hf]
    rfl

/-- If a partition is in the queue after a step, whatever else was lent in that step is not lent
again before it. -/
theorem timesLent_cons_le_one {a : Action} {as : List Action} (hw : Exclusive (w.act a))
    (h : Stands (w.act a) q time ahead) (htime : time ≤ (w.act a).env.now)
    (hq : (w.act a).timesLent q as = 0) (hrest : (w.act a).timesLent q' as ≤ 1) :
    w.timesLent q' (a :: as) ≤ 1 := by
  rw [timesLent]
  by_cases hout : w.goesOut (w.act a) q' = true
  · have hfollows := follows_of_lent hw h (goesOut_iff.mp hout).2
    have hnone := timesLent_of_follows hw h hfollows htime as hq
    rw [if_pos hout]
    omega
  · rw [if_neg hout, Nat.zero_add]
    exact hrest

theorem timesLent_le_one (hw : Exclusive w) (h : Stands w q time ahead)
    (htime : time ≤ w.env.now) (as : List Action) (hq : w.timesLent q as = 0) :
    q ∈ (w.run as).pool.unclaimedPartitions ∧ w.timesLent q' as ≤ 1 := by
  induction as generalizing w ahead with
  | nil => exact ⟨h.unclaimed, Nat.zero_le 1⟩
  | cons a as ih =>
    obtain ⟨hstays, hlater⟩ := Nat.add_eq_zero_iff.mp hq
    have hstep := act_step w a
    have hw' := exclusive_step hstep hw
    have htime' := Nat.le_trans htime (shifts_of_step hstep hw.owned hw.nodup).now
    obtain ⟨ahead', h', -⟩ := stands_of_queues hw (queues_of_step hstep hw) h (by simpa using hstays)
    obtain ⟨hend, hrest⟩ := ih hw' h' htime' hlater
    exact ⟨hend, timesLent_cons_le_one hw' h' htime' hlater hrest⟩

/-- A partition that is unclaimed, or becomes so in the first step, stays unclaimed until it is
lent, and until then every other one is lent at most once. -/
theorem overtaken_at_most_once (maxPollRecords now : Nat) {s : Subscription}
    (hs : s.isExplicit = true) (hwf : s.WellFormed) (reader : RecordReader)
    (settings : IntakeSettings) (as bs : List Action) {q : Partition} (q' : Partition) :
    let w := (start maxPollRecords now s reader settings).run as
    (q ∈ w.pool.unclaimedPartitions ∨ ∃ a ∈ bs.head?, w.joinsQueue (w.act a) q = true) →
      w.timesLent q bs = 0 →
        q ∈ (w.run bs).pool.unclaimedPartitions ∧ w.timesLent q' bs ≤ 1 := by
  intro w hq hkept
  have hstart := exclusive_start maxPollRecords now hs hwf reader settings
  have hw : Exclusive w := run_induction (fun _ _ => exclusive_step) hstart as
  have hwaits := waits_run hstart.owned hstart.nodup
    (waits_start maxPollRecords now s reader settings) as
  obtain hq | ⟨a, ha, hjoins⟩ := hq
  · obtain ⟨ahead, h⟩ := stands_of_unclaimed hq hwaits.past
    exact timesLent_le_one hw h (Nat.le_refl _) bs hkept
  · cases bs with
    | nil => cases ha
    | cons b bs =>
      cases ha
      have hin : q ∈ (w.act a).pool.unclaimedPartitions := by
        simp only [joinsQueue, Bool.and_eq_true, List.contains_eq_mem, decide_eq_true_eq] at hjoins
        exact hjoins.2
      have hw' := exclusive_step (act_step w a) hw
      obtain ⟨ahead, h⟩ := stands_of_unclaimed hin (waits_act a hw.owned hw.nodup hwaits).past
      have hlater := (Nat.add_eq_zero_iff.mp hkept).2
      obtain ⟨hend, hrest⟩ := timesLent_le_one hw' h (Nat.le_refl _) bs hlater
      exact ⟨hend, timesLent_cons_le_one hw' h (Nat.le_refl _) hlater hrest⟩

/-- The connection of one partition is given up in the very request that lends the other. -/
theorem overtaken_at_most_once_whenExpired :
    let w₀ := start 10 0 (.partitions [("t", [0, 1])]) Record.read
      { pool := { maxLeases := 2, idleTimeout := 60 } }
    let as := [.request "s", .supply 1, .request "s", .supply 2, .advance 50, .abandon 2,
      .checkIn 2, .advance 50, .onCluster (.fault .poll (.transport "connection lost")), .poll 1,
      .abandon 1, .checkIn 1, .advance 10]
    let bs := [.request "s", .supply 3, .advance 10, .abandon 3, .checkIn 3, .inquire]
    let w := w₀.run as
    w.joinsQueue (w.act (.request "s")) ⟨"t", 1⟩ = true ∧ w.timesLent ⟨"t", 0⟩ bs = 1 ∧
      ⟨"t", 1⟩ ∈ (w.run bs).pool.unclaimedPartitions ∧ w.timesLent ⟨"t", 0⟩ bs ≤ 1 := by
  intro w₀ as bs w
  have hwf : Subscription.WellFormed (.partitions [("t", [0, 1])]) :=
    ⟨List.pairwise_singleton _ _, by simp; decide⟩
  have hjoins : w.joinsQueue (w.act (.request "s")) ⟨"t", 1⟩ = true := by decide +kernel
  have hlent : w.timesLent ⟨"t", 0⟩ bs = 1 := by decide +kernel
  exact ⟨hjoins, hlent, overtaken_at_most_once 10 0 rfl hwf Record.read _ as bs ⟨"t", 0⟩
    (.inr ⟨_, rfl, hjoins⟩) (by decide +kernel)⟩

end World
end RecordIntake
