import RecordIntake.Proofs.Waiting

/-!
In which order partitions are lent.  A partition waits since it came back, or since the pool was
built.  The first unclaimed partition is lent, or that of the connection that is idle the longest,
whichever has waited longer.  That is the partition that has waited longest if the queue of
unclaimed partitions is in the order of their times, and it is as far as partitions joined it when
they came back.  One whose connection was given up while it waited stands behind others that may
have come back after it, and then these are lent before it.
-/
namespace RecordIntake
namespace World

variable {w w' : World}

/-! ## When something last happened -/

/-- When something last happened to each partition, after one more action. -/
def lastTime (happens : World → World → Partition → Bool) (w : World) (a : Action)
    (before : Partition → Nat) (q : Partition) : Nat :=
  if happens w (w.act a) q then (w.act a).env.now else before q

/-- When something last happened to each partition in a run. -/
def lastTimes (happens : World → World → Partition → Bool) (w : World)
    (before : Partition → Nat) : List Action → Partition → Nat
  | [] => before
  | a :: as => (w.act a).lastTimes happens (lastTime happens w a before) as

/-- Whether a partition is lent before a step and not after it. -/
def comesBack (w w' : World) (q : Partition) : Bool :=
  w.pool.lent.contains q && !w'.pool.lent.contains q

/-- Whether a partition is unclaimed after a step and not before it. -/
def joinsQueue (w w' : World) (q : Partition) : Bool :=
  !w.pool.unclaimedPartitions.contains q && w'.pool.unclaimedPartitions.contains q

/-- When each partition came back last, or else when the run began. -/
def waitingSince (w : World) (as : List Action) : Partition → Nat :=
  w.lastTimes comesBack (fun _ => w.env.now) as

/-- When each partition became unclaimed last, or else when the run began. -/
def queuedSince (w : World) (as : List Action) : Partition → Nat :=
  w.lastTimes joinsQueue (fun _ => w.env.now) as

theorem comesBack_of_waiting (h : Owned w.pool w.phases w.inquiries)
    (hnodup : w.pool.subscription.ownedPartitions.Nodup) {u : Unclaimed} (hu : u ∈ w.waiting) :
    w.comesBack w' u.partition = false := by
  have hlent := not_lent_of_waiting h hnodup hu
  rw [comesBack, List.contains_eq_mem, decide_eq_false hlent, Bool.false_and]

theorem joinsQueue_of_unclaimed {u : Unclaimed} (hu : u ∈ w.pool.unclaimed) :
    w.joinsQueue w' u.partition = false := by
  have hqueue : u.partition ∈ w.pool.unclaimedPartitions := List.mem_map.mpr ⟨u, hu, rfl⟩
  rw [joinsQueue, List.contains_eq_mem, decide_eq_true hqueue, Bool.not_true, Bool.false_and]

/-! ## What is recorded of the times -/

/-- What is recorded of a partition that waits is when it came back last, and the queue is in the
order in which the partitions became unclaimed. -/
structure Waits (w : World) (since queued : Partition → Nat) : Prop where
  recorded : ∀ u ∈ w.waiting, u.since = since u.partition
  past : ∀ u ∈ w.waiting, u.since ≤ w.env.now
  joined : ∀ u ∈ w.pool.unclaimed,
    since u.partition ≤ queued u.partition ∧ queued u.partition ≤ w.env.now
  ordered : w.pool.unclaimed.Pairwise fun u v => queued u.partition ≤ queued v.partition

variable {since queued : Partition → Nat}

theorem waits_start (maxPollRecords now : Nat) (s : Subscription) (reader : RecordReader)
    (settings : IntakeSettings) :
    Waits (start maxPollRecords now s reader settings) (fun _ => now) (fun _ => now) := by
  have hsince : ∀ u ∈ (start maxPollRecords now s reader settings).waiting, u.since = now := by
    intro u hu
    simp only [start, waiting, Pool.waiting, Pool.build, List.filterMap_nil, List.nil_append,
      List.append_nil, List.mem_map] at hu
    obtain ⟨q, -, rfl⟩ := hu
    rfl
  exact ⟨hsince, fun u hu => Nat.le_of_eq (hsince u hu),
    fun _ _ => ⟨Nat.le_refl _, Nat.le_refl _⟩,
    List.pairwise_of_forall_mem_list fun _ _ _ _ => Nat.le_refl _⟩

theorem waits_act (a : Action) (h : Owned w.pool w.phases w.inquiries)
    (hnodup : w.pool.subscription.ownedPartitions.Nodup) (hw : Waits w since queued) :
    Waits (w.act a) (lastTime comesBack w a since) (lastTime joinsQueue w a queued) := by
  have hstep := act_step w a
  have h' := owned_step hstep h
  have hnodup' : (w.act a).pool.subscription.ownedPartitions.Nodup := by
    rw [(sameTerms_step hstep).subscription]
    exact hnodup
  have hshifts := shifts_of_step hstep h hnodup
  have hsince : ∀ u ∈ (w.act a).waiting, u.since = lastTime comesBack w a since u.partition := by
    intro u hu
    have hback := not_lent_of_waiting h' hnodup' hu
    obtain hold | ⟨hlent, hnow⟩ := hshifts.waiting u hu
    · rw [lastTime, comesBack_of_waiting h hnodup hold]
      exact hw.recorded u hold
    · rw [lastTime, if_pos, hnow]
      simp [comesBack, hlent, hback]
  have hpast : ∀ u ∈ (w.act a).waiting, u.since ≤ (w.act a).env.now := by
    intro u hu
    obtain hold | ⟨-, hnow⟩ := hshifts.waiting u hu
    · exact Nat.le_trans (hw.past u hold) hshifts.now
    · exact Nat.le_of_eq hnow
  obtain ⟨old, new, hqueue, hold, hnew⟩ := hshifts.queue
  -- A partition keeps its place in the queue, or joins it now.
  have hkept : ∀ u ∈ old, lastTime joinsQueue w a queued u.partition = queued u.partition := by
    intro u hu
    rw [lastTime, joinsQueue_of_unclaimed (hold.subset hu)]
    rfl
  have hjoined : ∀ u ∈ new, lastTime joinsQueue w a queued u.partition = (w.act a).env.now := by
    intro u hu
    have hin : u.partition ∈ (w.act a).pool.unclaimedPartitions :=
      List.mem_map.mpr ⟨u, hqueue ▸ List.mem_append_right _ hu, rfl⟩
    rw [lastTime, if_pos]
    simp [joinsQueue, hnew u hu, hin]
  refine ⟨hsince, hpast, fun u hu => ?_, ?_⟩
  · have hmem : u ∈ (w.act a).waiting := waiting_of_pool (Pool.mem_waiting.mpr (.inr hu))
    rw [← hsince u hmem]
    rw [hqueue] at hu
    obtain hu | hu := List.mem_append.mp hu
    · have hmem := waiting_of_pool (Pool.mem_waiting.mpr (.inr (hold.subset hu)))
      obtain ⟨hle, hnow⟩ := hw.joined u (hold.subset hu)
      rw [hkept u hu, hw.recorded u hmem]
      exact ⟨hle, Nat.le_trans hnow hshifts.now⟩
    · rw [hjoined u hu]
      exact ⟨hpast u hmem, Nat.le_refl _⟩
  · rw [hqueue, List.pairwise_append]
    refine ⟨(hw.ordered.sublist hold).imp_of_mem fun hu hv hle => ?_, ?_, fun u hu v hv => ?_⟩
    · rw [hkept _ hu, hkept _ hv]
      exact hle
    · refine List.pairwise_of_forall_mem_list fun u hu v hv => ?_
      exact Nat.le_of_eq ((hjoined u hu).trans (hjoined v hv).symm)
    · rw [hkept u hu, hjoined v hv]
      exact Nat.le_trans (hw.joined u (hold.subset hu)).2 hshifts.now

theorem waits_run (h : Owned w.pool w.phases w.inquiries)
    (hnodup : w.pool.subscription.ownedPartitions.Nodup) (hw : Waits w since queued)
    (as : List Action) :
    Waits (w.run as) (w.lastTimes comesBack since as) (w.lastTimes joinsQueue queued as) := by
  induction as generalizing w since queued with
  | nil => exact hw
  | cons a as ih =>
    have hstep := act_step w a
    refine ih (owned_step hstep h) ?_ (waits_act a h hnodup hw)
    rw [(sameTerms_step hstep).subscription]
    exact hnodup

/-! ## What is lent next -/

/-- The partition of a connection that is idle and stays so, or one that has been unclaimed since it
came back. -/
def InTurn (w : World) (since queued : Partition → Nat) (q : Partition) : Prop :=
  (∃ i ∈ w.pool.idle, i.partition = some q ∧ w.pool.isExpired w.env.now i = false) ∨
    q ∈ w.pool.unclaimedPartitions ∧ queued q ≤ since q

/-- What a request hands out was picked when the connections whose time is over were given up. -/
theorem offer_of_request (h : Owned w.pool w.phases w.inquiries) {sink : String} {q : Partition}
    (hq : q ∉ w.pool.lent) (hlent : q ∈ (w.request sink).pool.lent) :
    ∃ p o, (w.pool.takeExpired w.env.now).1.offer = (p, some o) ∧
      (Pool.Supply.loan o.supply).partition = some q := by
  have hexpired := h.takeExpired w.env.now
  have hsame : (w.pool.takeExpired w.env.now).1.lent = w.pool.lent :=
    Pool.lent_congr (w.pool.same_takeExpired w.env.now).1
  unfold request at hlent
  split at hlent
  · rename_i env p hr
    obtain rfl | rfl := Pool.startObtain_none hr
    · exact absurd hlent hq
    · exact absurd (hsame ▸ hlent) hq
  · rename_i env p o hr
    obtain ⟨-, ho⟩ := Pool.startObtain_some hr
    refine ⟨p, o, ho, ?_⟩
    obtain ⟨p₁, -, -, rfl⟩ := Pool.offer_eq_some ho
    have hinsert := Pool.lent_insert _ (Pool.Supply.loan o.supply) hexpired.find?_next
    obtain hnew | hold := List.mem_append.mp (hinsert.mem_iff.mp hlent)
    · exact Option.mem_toList.mp hnew
    · exact absurd (hsame ▸ hold) hq

/-- A lease that is decided on gets a partition that has waited no less than any in its turn. -/
theorem least_of_request (h : Owned w.pool w.phases w.inquiries) (hw : Waits w since queued)
    (hlends : w.pool.lendsPartitions = true) {sink : String} {q q' : Partition}
    (hq : q ∉ w.pool.lent) (hlent : q ∈ (w.request sink).pool.lent)
    (hturn : InTurn w since queued q') : since q ≤ since q' := by
  obtain ⟨p, o, ho, hloan⟩ := offer_of_request h hq hlent
  have hexpired := w.pool.requeues_takeExpired w.env.now
  have hlends' : (w.pool.takeExpired w.env.now).1.lendsPartitions = true :=
    (w.pool.sameTerms_takeExpired w.env.now).lendsPartitions.trans hlends
  obtain ⟨u, hu, rfl, hidle, hhead⟩ := Pool.offer_least hlends' ho hloan
  have hsince := hw.recorded u (waiting_of_pool (hexpired.waiting hu))
  rw [← hsince]
  obtain ⟨i, hi, hpartition, hfresh⟩ | ⟨hunclaimed, hinorder⟩ := hturn
  · have hkept : i ∈ (w.pool.takeExpired w.env.now).1.idle := by
      rw [Pool.takeExpired_eq]
      exact List.mem_filter.mpr ⟨hi, by rw [hfresh]; rfl⟩
    have hfreed : i.freed = some ⟨q', i.since⟩ := Pool.freed_eq_some.mpr ⟨hpartition, rfl⟩
    have hmem := waiting_of_pool (Pool.mem_waiting.mpr (.inl ⟨i, hi, hfreed⟩))
    rw [← hw.recorded _ hmem]
    exact hidle i hkept
  · obtain ⟨v, hv, rfl⟩ := List.mem_map.mp hunclaimed
    have hordered := hw.ordered
    cases hqueue : w.pool.unclaimed with
    | nil =>
      rw [hqueue] at hv
      cases hv
    | cons first rest =>
      have hfirst : first ∈ w.pool.unclaimed := hqueue ▸ List.mem_cons_self
      have hleast : u.since ≤ first.since := by
        refine hhead first ?_
        rw [Pool.takeExpired_eq]
        show first ∈ (w.pool.unclaimed ++ _).head?
        rw [hqueue]
        rfl
      have hplace : queued first.partition ≤ queued v.partition := by
        rw [hqueue] at hv hordered
        obtain rfl | hv := List.mem_cons.mp hv
        · exact Nat.le_refl _
        · exact (List.pairwise_cons.mp hordered).1 v hv
      calc u.since ≤ first.since := hleast
        _ = since first.partition :=
          hw.recorded first (waiting_of_pool (Pool.mem_waiting.mpr (.inr hfirst)))
        _ ≤ queued first.partition := (hw.joined first hfirst).1
        _ ≤ queued v.partition := hplace
        _ ≤ since v.partition := hinorder

/-- Whichever partition is lent next, none in its turn has waited longer.  That may be said neither
of those whose idle connection is given up just then, nor of those that became unclaimed when they
had been waiting already. -/
theorem longest_waiting_lent_first (maxPollRecords now : Nat) {s : Subscription}
    (hs : s.isExplicit = true) (hwf : s.WellFormed) (reader : RecordReader)
    (settings : IntakeSettings) (as : List Action) (sink : String) {q q' : Partition} :
    let w₀ := start maxPollRecords now s reader settings
    let w := w₀.run as
    q ∉ w.pool.lent → q ∈ (w.act (.request sink)).pool.lent →
      InTurn w (w₀.waitingSince as) (w₀.queuedSince as) q' →
        w₀.waitingSince as q ≤ w₀.waitingSince as q' := by
  intro w₀ w hq hlent hturn
  have hwaits := waits_run (.start 0 s reader settings now) hwf.nodup
    (waits_start maxPollRecords now s reader settings) as
  have hlends : w.pool.lendsPartitions = true := by
    rw [Pool.lendsPartitions, (sameTerms_run w₀ as).subscription]
    exact hs
  exact least_of_request (owned_run ..) hwaits hlends hq hlent hturn

theorem longest_waiting_lent_first_afterReturn :
    let w₀ := start 10 0 (.partitions [("t", [0, 1])]) Record.read {}
    let as := [.request "s", .supply 1, .advance 5, .abandon 1, .checkIn 1]
    ⟨"t", 1⟩ ∈ ((w₀.run as).act (.request "s")).pool.lent ∧
      w₀.waitingSince as ⟨"t", 1⟩ ≤ w₀.waitingSince as ⟨"t", 0⟩ := by
  intro w₀ as
  have hwf : Subscription.WellFormed (.partitions [("t", [0, 1])]) :=
    ⟨List.pairwise_singleton _ _, by simp; decide⟩
  have hlent : ⟨"t", 1⟩ ∈ ((w₀.run as).act (.request "s")).pool.lent := by decide +kernel
  have hturn : InTurn (w₀.run as) (w₀.waitingSince as) (w₀.queuedSince as) ⟨"t", 0⟩ := by
    refine .inl ?_
    decide +kernel
  exact ⟨hlent, longest_waiting_lent_first 10 0 rfl hwf Record.read {} as "s" (by decide +kernel)
    hlent hturn⟩

/-- An idle connection whose time is over is given up, and its partition is put behind one that came
back after it. -/
theorem expired_partition_waits_longer :
    let w₀ := start 10 0 (.partitions [("t", [0, 1])]) Record.read
      { pool := { maxLeases := 2, idleTimeout := 60 } }
    let as := [.request "s", .supply 1, .request "s", .supply 2, .advance 50, .abandon 2,
      .checkIn 2, .advance 50, .onCluster (.fault .poll (.transport "connection lost")), .poll 1,
      .abandon 1, .checkIn 1, .advance 10]
    let w := w₀.run as
    ⟨"t", 0⟩ ∉ w.pool.lent ∧ ⟨"t", 0⟩ ∈ (w.act (.request "s")).pool.lent ∧
      ⟨"t", 1⟩ ∈ w.pool.free ∧ w₀.waitingSince as ⟨"t", 1⟩ = 50 ∧
      w₀.waitingSince as ⟨"t", 0⟩ = 100 := by
  decide +kernel

end World
end RecordIntake
