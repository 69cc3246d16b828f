import RecordIntake.Proofs.Exclusion
import RecordIntake.Proofs.Turnover

/-!
Since when each partition waits that is not lent.  A partition keeps its time while its connection
is idle, is used to ask, or is given up, and gets a new one when a lease comes back.  A partition
whose connection is given up goes to the end of the queue of unclaimed ones with the time that it
had, so the queue is in the order in which they came there, which need not be that of their times.
-/
namespace RecordIntake
namespace Pool

variable {p p' p'' : Pool}

/-- The partitions that the pool has to itself, each with the time since when it waits. -/
def waiting (p : Pool) : List Unclaimed := p.idle.filterMap IdleConnection.freed ++ p.unclaimed

theorem mem_waiting {u : Unclaimed} :
    u ∈ p.waiting ↔ (∃ i ∈ p.idle, i.freed = some u) ∨ u ∈ p.unclaimed := by
  rw [waiting, List.mem_append, List.mem_filterMap]

theorem freed_eq_some {i : IdleConnection} {u : Unclaimed} :
    i.freed = some u ↔ i.partition = some u.partition ∧ i.since = u.since := by
  obtain ⟨q, since⟩ := u
  simp [IdleConnection.freed]

theorem mem_free_of_waiting {u : Unclaimed} (h : u ∈ p.waiting) : u.partition ∈ p.free := by
  obtain ⟨i, hi, hu⟩ | hu := mem_waiting.mp h
  · exact List.mem_append_left _ (List.mem_filterMap.mpr ⟨i, hi, (freed_eq_some.mp hu).1⟩)
  · exact List.mem_append_right _ (List.mem_map.mpr ⟨u, hu, rfl⟩)

/-! ## Giving connections up -/

/-- Partitions leave the queue of unclaimed ones, and those of idle connections that are given up
are added at its end. -/
structure Requeues (p p' : Pool) : Prop where
  idle : ∀ i ∈ p'.idle, i ∈ p.idle
  queue : ∃ old new, p'.unclaimed = old ++ new ∧ old.Sublist p.unclaimed ∧
    ∀ u ∈ new, ∃ i ∈ p.idle, i.freed = some u

theorem Requeues.of_sublist (hidle : ∀ i ∈ p'.idle, i ∈ p.idle)
    (hqueue : p'.unclaimed.Sublist p.unclaimed) : Requeues p p' :=
  ⟨hidle, p'.unclaimed, [], (List.append_nil _).symm, hqueue, by simp⟩

theorem Requeues.refl (p : Pool) : Requeues p p := .of_sublist (fun _ hi => hi) (.refl _)

theorem Requeues.trans (h : Requeues p p') (h' : Requeues p' p'') : Requeues p p'' := by
  obtain ⟨old, new, hqueue, hold, hnew⟩ := h.queue
  obtain ⟨old', new', hqueue', hold', hnew'⟩ := h'.queue
  rw [hqueue] at hold'
  -- What is left of the queue is left of both its parts.
  obtain ⟨kept, added, rfl, hkept, hadded⟩ := List.sublist_append_iff.mp hold'
  refine ⟨fun i hi => h.idle i (h'.idle i hi), kept, added ++ new', ?_, hkept.trans hold,
    fun u hu => ?_⟩
  · rw [hqueue', List.append_assoc]
  · obtain hu | hu := List.mem_append.mp hu
    · exact hnew u (hadded.subset hu)
    · obtain ⟨i, hi, hfreed⟩ := hnew' u hu
      exact ⟨i, h.idle i hi, hfreed⟩

theorem Requeues.waiting (h : Requeues p p') {u : Unclaimed} (hu : u ∈ p'.waiting) :
    u ∈ p.waiting := by
  obtain ⟨old, new, hqueue, hold, hnew⟩ := h.queue
  rw [mem_waiting] at hu ⊢
  obtain ⟨i, hi, hfreed⟩ | hu := hu
  · exact .inl ⟨i, h.idle i hi, hfreed⟩
  · rw [hqueue] at hu
    obtain hu | hu := List.mem_append.mp hu
    · exact .inr (hold.subset hu)
    · exact .inl (hnew u hu)

theorem requeues_takeExpired (p : Pool) (now : Nat) : Requeues p (p.takeExpired now).1 := by
  refine ⟨(p.sublist_takeExpired now).subset, p.unclaimed,
    (p.idle.filter (p.isExpired now)).filterMap IdleConnection.freed, ?_, .refl _, fun u hu => ?_⟩
  · rw [takeExpired_eq]
  · obtain ⟨i, hi, hfreed⟩ := List.mem_filterMap.mp hu
    exact ⟨i, (List.mem_filter.mp hi).1, hfreed⟩

theorem requeues_makeRoom (p : Pool) : Requeues p p.makeRoom.1 := by
  unfold makeRoom
  split
  · exact .refl p
  · split
    · exact .refl p
    · rename_i i others h
      refine ⟨fun j hj => ?_, p.unclaimed, i.freed.toList, ?_, .refl _, fun u hu => ?_⟩
      · rw [unbind_eq] at hj
        exact (pickOldest_sublist h).subset hj
      · rw [unbind_eq]
        rfl
      · exact ⟨i, (pickOldest_perm h).mem_iff.mpr List.mem_cons_self, Option.mem_toList.mp hu⟩

theorem requeues_supplyPartition {s : Supply} {displaced : Option Connection}
    (h : p.supplyPartition = (p', some (s, displaced))) : Requeues p p' := by
  unfold supplyPartition at h
  split at h
  · split at h
    · cases h
    · rename_i u rest hu
      have hrest : Requeues p { p with unclaimed := rest } :=
        .of_sublist (fun _ hi => hi) (hu ▸ List.sublist_cons_self u rest)
      have hroom := hrest.trans (requeues_makeRoom { p with unclaimed := rest })
      simp only [nextSignal] at h
      cases h
      exact ⟨hroom.idle, hroom.queue⟩
  · split at h
    · cases h
    · rename_i i others hi
      cases h
      exact .of_sublist (fun j hj => (pickOldest_sublist hi).subset hj) (.refl _)

theorem requeues_supplyAny (p : Pool) : Requeues p p.supplyAny.1 := by
  have hsublist := p.supplyAny_draws.sublist
  refine .of_sublist hsublist ?_
  unfold supplyAny
  split <;> exact .refl _

theorem requeues_offer {o : Offer} (h : p.offer = (p', some o)) : Requeues p p' := by
  unfold offer at h
  split at h
  · cases h
  · split at h
    rename_i p₁ found hfound
    split at h
    · cases h
    · rename_i s displaced
      have hrequeues : Requeues p p₁ := by
        split at hfound
        · exact requeues_supplyPartition hfound
        · cases hfound
          exact p.requeues_supplyAny
      cases h
      exact ⟨hrequeues.idle, hrequeues.queue⟩

theorem requeues_shut (p : Pool) : Requeues p p.shut.1 := by
  unfold shut
  split
  · exact .refl p
  · exact .of_sublist (by simp) (.refl _)

/-! ## Taking connections back -/

/-- At most one more partition waits.  If its connection is given up, it is added at the end of the
queue. -/
structure Recovers (p p' : Pool) (back : Option Unclaimed) : Prop where
  waiting : ∀ u ∈ p'.waiting, u ∈ p.waiting ∨ back = some u
  queue : ∃ new, p'.unclaimed = p.unclaimed ++ new ∧ ∀ u ∈ new, back = some u

theorem recovers_unbind (p : Pool) (partition : Option Partition) (since : Nat) :
    Recovers p (p.unbind partition since) (partition.map fun q => ⟨q, since⟩) := by
  rw [unbind_eq]
  refine ⟨fun u hu => ?_, _, rfl, fun u hu => Option.mem_toList.mp hu⟩
  rw [mem_waiting] at hu ⊢
  obtain hu | hu := hu
  · exact .inl (.inl hu)
  · obtain hu | hu := List.mem_append.mp hu
    · exact .inl (.inr hu)
    · exact .inr (Option.mem_toList.mp hu)

theorem recovers_keep (p : Pool) (i : IdleConnection) :
    Recovers p { p with idle := p.idle ++ [i] } i.freed := by
  refine ⟨fun u hu => ?_, [], (List.append_nil _).symm, by simp⟩
  rw [mem_waiting] at hu ⊢
  obtain ⟨j, hj, hu⟩ | hu := hu
  · obtain hj | hj := List.mem_append.mp hj
    · exact .inl (.inl ⟨j, hj, hu⟩)
    · exact .inr (List.mem_singleton.mp hj ▸ hu)
  · exact .inl (.inr hu)

theorem recovers_takeBack {lease : LeaseId} {loan : Loan}
    (h : p.outstanding.find? lease = some loan) (c : Option Connection) (discard : Bool)
    (now : Nat) :
    Recovers { p with outstanding := p.outstanding.erase lease }
      (p.takeBack lease c discard now).1 (loan.partition.map fun q => ⟨q, now⟩) := by
  cases c with
  | none =>
    rw [takeBack_missing h]
    exact recovers_unbind ..
  | some c =>
    cases hd : discard || p.closed with
    | true =>
      rw [takeBack_rejected h c hd]
      exact recovers_unbind ..
    | false =>
      rw [takeBack_kept h c hd]
      exact recovers_keep _ ⟨c, loan.partition, now⟩

theorem recovers_endQuery (p : Pool) (q : Query) (faulty : Bool) :
    Recovers p (p.endQuery q faulty).1 (q.partition.map fun r => ⟨r, q.since⟩) := by
  obtain h | ⟨-, -, h⟩ := p.endQuery_cases q faulty
  · rw [h]
    exact recovers_unbind ..
  · rw [h]
    exact recovers_keep p ⟨q.connection, q.partition, q.since⟩

/-! ## Which partition is picked -/

theorem pickOldest_least {is others : List IdleConnection} {i : IdleConnection}
    (h : pickOldest is = some (i, others)) : ∀ j ∈ is, i.since ≤ j.since := by
  induction is generalizing i others with
  | nil => cases h
  | cons k is ih =>
    simp only [pickOldest] at h
    split at h
    · rename_i hnone
      cases h
      obtain rfl := pickOldest_eq_none hnone
      simp
    · rename_i j rest hrest
      have hleast := ih hrest
      split at h
      · cases h
        exact List.forall_mem_cons.mpr ⟨by omega, hleast⟩
      · cases h
        exact List.forall_mem_cons.mpr ⟨Nat.le_refl _, fun j' hj' => by
          have := hleast j' hj'
          omega⟩

/-- What is picked has waited no less than the first unclaimed partition and than that of any idle
connection. -/
theorem supplyPartition_least {s : Supply} {displaced : Option Connection}
    (h : p.supplyPartition = (p', some (s, displaced))) {q : Partition}
    (hq : (Supply.loan s).partition = some q) :
    ∃ u ∈ p.waiting, u.partition = q ∧ (∀ i ∈ p.idle, u.since ≤ i.since) ∧
      ∀ v ∈ p.unclaimed.head?, u.since ≤ v.since := by
  unfold supplyPartition at h
  split at h
  · rename_i hserves
    split at h
    · cases h
    · rename_i u rest hu
      cases h
      have hpartition : u.partition = q := Option.some.inj hq
      refine ⟨u, mem_waiting.mpr (.inr (hu ▸ List.mem_cons_self)), hpartition, fun i hi => ?_,
        fun v hv => ?_⟩
      · unfold servesUnclaimed at hserves
        rw [hu] at hserves
        cases hpick : pickOldest p.idle with
        | none =>
          rw [pickOldest_eq_none hpick] at hi
          cases hi
        | some r =>
          rw [hpick] at hserves
          exact Nat.le_trans (of_decide_eq_true hserves) (pickOldest_least hpick i hi)
      · rw [hu] at hv
        cases hv
        exact Nat.le_refl _
  · rename_i hserves
    split at h
    · cases h
    · rename_i i others hpick
      cases h
      have hi := (pickOldest_perm hpick).mem_iff.mpr List.mem_cons_self
      refine ⟨⟨q, i.since⟩, mem_waiting.mpr (.inl ⟨i, hi, freed_eq_some.mpr ⟨hq, rfl⟩⟩), rfl,
        pickOldest_least hpick, fun v hv => ?_⟩
      unfold servesUnclaimed at hserves
      cases hu : p.unclaimed with
      | nil =>
        rw [hu] at hv
        cases hv
      | cons u rest =>
        rw [hu] at hv hserves
        cases hv
        rw [hpick] at hserves
        have hlt := of_decide_eq_false (Bool.eq_false_iff.mpr hserves)
        exact Nat.le_of_lt (Nat.lt_of_not_le hlt)

theorem offer_least {o : Offer} (hlends : p.lendsPartitions = true) (h : p.offer = (p', some o))
    {q : Partition} (hq : (Supply.loan o.supply).partition = some q) :
    ∃ u ∈ p.waiting, u.partition = q ∧ (∀ i ∈ p.idle, u.since ≤ i.since) ∧
      ∀ v ∈ p.unclaimed.head?, u.since ≤ v.since := by
  unfold offer at h
  rw [if_pos hlends] at h
  split at h
  · cases h
  · split at h
    rename_i p₁ found hfound
    split at h
    · cases h
    · cases h
      exact supplyPartition_least hfound hq

end Pool

/-! ## Every step -/

/-- The partition of the connection that is used to ask, with the time since when it waits. -/
def Inquiry.freed : Inquiry → Option Unclaimed
  | .taken (.idle i) => i.freed
  | .taken (.fresh _ _) => none
  | .asking q | .answered q _ => q.partition.map fun p => ⟨p, q.since⟩

theorem Inquiry.partition_of_freed {x : Inquiry} {u : Unclaimed} (h : x.freed = some u) :
    x.loan.partition = some u.partition := by
  have hquery : ∀ q : Pool.Query, (q.partition.map fun p => (⟨p, q.since⟩ : Unclaimed)) = some u →
      q.partition = some u.partition := by
    intro q hq
    obtain ⟨p, hp, rfl⟩ := Option.map_eq_some_iff.mp hq
    exact hp
  cases x with
  | taken s =>
    cases s with
    | idle i => exact (Pool.freed_eq_some.mp h).1
    | fresh signal partition => cases h
  | asking q => exact hquery q h
  | answered q faulty => exact hquery q h

theorem Pool.waiting_of_drawn {p p' : Pool} {s : Supply} (h : Draws p p' s) {u : Unclaimed}
    (hu : (Inquiry.taken s).freed = some u) : u ∈ p.waiting := by
  cases h with
  | @idle i others hidle =>
    exact mem_waiting.mpr (.inl ⟨i, hidle.mem_iff.mpr List.mem_cons_self, hu⟩)
  | fresh _ _ => cases hu

/-! ## The clock -/

theorem Environment.now_disconnectAll (env : Environment) (cs : List Connection)
    (why : ConnectionEvent) : (env.disconnectAll cs why).now = env.now := by
  induction cs generalizing env with
  | nil => rfl
  | cons c cs ih => exact ih _

namespace Pool

theorem now_startObtain (p : Pool) (env : Environment) : (p.startObtain env).1.now = env.now := by
  unfold startObtain
  split
  · rfl
  · split
    split
    · exact Environment.now_disconnectAll ..
    · exact (Environment.now_disconnectAll ..).trans (Environment.now_disconnectAll ..)

theorem now_checkIn (p : Pool) (env : Environment) (lease : LeaseId) (c : Option Connection)
    (discard : Bool) : (p.checkIn env lease c discard).1.now = env.now := by
  unfold checkIn
  dsimp only
  split <;> rfl

theorem now_openConnection (p : Pool) (env : Environment) (signal : Signal)
    (partition : Option Partition) :
    (p.openConnection env signal partition).1.now = env.now := by
  have hnow : (env.connect signal (p.connectionSubscription partition)).1.now = env.now := rfl
  unfold openConnection
  split <;> rename_i he <;> rw [he] at hnow <;> exact hnow

theorem now_finishObtain (p : Pool) (env : Environment) (o : Offer) (sink : String) :
    (p.finishObtain env o sink).1.now = env.now := by
  have hnow : (Supply.connection p env o.supply).1.now = env.now := by
    cases o.supply with
    | idle i => rfl
    | fresh signal partition => exact p.now_openConnection env signal partition
  unfold finishObtain
  split <;> rename_i he <;> rw [he] at hnow
  · exact hnow
  · exact (p.now_checkIn ..).trans hnow

theorem now_query (p : Pool) (env : Environment) (s : Supply) :
    (Supply.query p env s).1.now = env.now := by
  cases s with
  | idle i => rfl
  | fresh signal partition =>
    have hnow := p.now_openConnection env signal partition
    unfold Supply.query
    dsimp only
    split <;> rename_i he <;> rw [he] at hnow <;> exact hnow

theorem now_returnQuery (p : Pool) (env : Environment) (q : Query) (faulty : Bool) :
    (p.returnQuery env q faulty).1.now = env.now := by
  unfold returnQuery
  split <;> rfl

end Pool

namespace World

open Pool (mem_waiting)

variable {w w' : World}

/-- The partitions that no lease has, each with the time since when it waits. -/
def waiting (w : World) : List Unclaimed :=
  w.pool.waiting ++ w.inquiries.filterMap Inquiry.freed

theorem waiting_of_pool {u : Unclaimed} (h : u ∈ w.pool.waiting) : u ∈ w.waiting :=
  List.mem_append_left _ h

theorem waiting_of_inquiry {x : Inquiry} (hx : x ∈ w.inquiries) {u : Unclaimed}
    (hu : x.freed = some u) : u ∈ w.waiting :=
  List.mem_append_right _ (List.mem_filterMap.mpr ⟨x, hx, hu⟩)

/-- A partition that waits is not lent. -/
theorem not_lent_of_waiting (h : Owned w.pool w.phases w.inquiries)
    (hnodup : w.pool.subscription.ownedPartitions.Nodup) {u : Unclaimed} (hu : u ∈ w.waiting) :
    u.partition ∉ w.pool.lent := by
  obtain ⟨hboth, -, hasked⟩ := List.nodup_append.mp (h.nodup hnodup)
  obtain ⟨-, -, hfree⟩ := List.nodup_append.mp hboth
  intro hlent
  obtain hu | hu := List.mem_append.mp hu
  · exact hfree _ (Pool.mem_free_of_waiting hu) _ hlent rfl
  · obtain ⟨x, hx, hfreed⟩ := List.mem_filterMap.mp hu
    refine hasked _ (List.mem_append_right _ hlent) u.partition ?_ rfl
    exact List.mem_filterMap.mpr ⟨x, hx, Inquiry.partition_of_freed hfreed⟩

/-- What a step can do to partitions that wait.  They keep their times, and those that come back
wait from now on.  Those that become unclaimed are added at the end of the queue. -/
structure Shifts (w w' : World) : Prop where
  waiting : ∀ u ∈ w'.waiting, u ∈ w.waiting ∨ u.partition ∈ w.pool.lent ∧ u.since = w'.env.now
  queue : ∃ old new, w'.pool.unclaimed = old ++ new ∧ old.Sublist w.pool.unclaimed ∧
    ∀ u ∈ new, u.partition ∉ w.pool.unclaimedPartitions
  now : w.env.now ≤ w'.env.now

theorem not_unclaimed_of_freed (h : Owned w.pool w.phases w.inquiries)
    (hnodup : w.pool.subscription.ownedPartitions.Nodup) {i : IdleConnection}
    (hi : i ∈ w.pool.idle) {u : Unclaimed} (hu : i.freed = some u) :
    u.partition ∉ w.pool.unclaimedPartitions := by
  obtain ⟨hboth, -, -⟩ := List.nodup_append.mp (h.nodup hnodup)
  obtain ⟨hfree, -, -⟩ := List.nodup_append.mp hboth
  obtain ⟨-, -, happart⟩ := List.nodup_append.mp hfree
  have hidle : u.partition ∈ w.pool.idlePartitions :=
    List.mem_filterMap.mpr ⟨i, hi, (Pool.freed_eq_some.mp hu).1⟩
  exact fun hunclaimed => happart _ hidle _ hunclaimed rfl

/-- A step in which nothing comes back. -/
theorem Shifts.of_requeues (h : Owned w.pool w.phases w.inquiries)
    (hnodup : w.pool.subscription.ownedPartitions.Nodup)
    (hpool : Pool.Requeues w.pool w'.pool)
    (hxs : ∀ x ∈ w'.inquiries, ∀ u, x.freed = some u → u ∈ w.waiting)
    (hnow : w.env.now ≤ w'.env.now) : Shifts w w' where
  waiting u hu := by
    obtain hu | hu := List.mem_append.mp hu
    · exact .inl (waiting_of_pool (hpool.waiting hu))
    · obtain ⟨x, hx, hfreed⟩ := List.mem_filterMap.mp hu
      exact .inl (hxs x hx u hfreed)
  queue := by
    obtain ⟨old, new, hqueue, hold, hnew⟩ := hpool.queue
    refine ⟨old, new, hqueue, hold, fun u hu => ?_⟩
    obtain ⟨i, hi, hfreed⟩ := hnew u hu
    exact not_unclaimed_of_freed h hnodup hi hfreed
  now := hnow

/-- A step in which one connection comes back. -/
theorem Shifts.of_recovers {back : Option Unclaimed} (hpool : Pool.Recovers w.pool w'.pool back)
    (hback : ∀ u, back = some u → u.partition ∉ w.pool.unclaimedPartitions ∧
      (u ∈ w.waiting ∨ u.partition ∈ w.pool.lent ∧ u.since = w'.env.now))
    (hxs : ∀ x ∈ w'.inquiries, x ∈ w.inquiries) (hnow : w.env.now ≤ w'.env.now) :
    Shifts w w' where
  waiting u hu := by
    obtain hu | hu := List.mem_append.mp hu
    · obtain hu | hu := hpool.waiting u hu
      · exact .inl (waiting_of_pool hu)
      · exact (hback u hu).2
    · obtain ⟨x, hx, hfreed⟩ := List.mem_filterMap.mp hu
      exact .inl (waiting_of_inquiry (hxs x hx) hfreed)
  queue := by
    obtain ⟨new, hqueue, hnew⟩ := hpool.queue
    exact ⟨w.pool.unclaimed, new, hqueue, .refl _, fun u hu => (hback u (hnew u hu)).1⟩
  now := hnow

theorem shifts_takeBack (h : Owned w.pool w.phases w.inquiries)
    (hnodup : w.pool.subscription.ownedPartitions.Nodup) {id : LeaseId} {loan : Loan}
    (hloan : w.pool.outstanding.find? id = some loan) {c : Option Connection} {discard : Bool}
    (hpool : w'.pool = (w.pool.takeBack id c discard w'.env.now).1)
    (hxs : w'.inquiries = w.inquiries) (hnow : w.env.now ≤ w'.env.now) : Shifts w w' := by
  have htaken := Pool.recovers_takeBack hloan c discard w'.env.now
  rw [← hpool] at htaken
  have hrecovers : Pool.Recovers w.pool w'.pool (loan.partition.map fun q => ⟨q, w'.env.now⟩) :=
    ⟨htaken.waiting, htaken.queue⟩
  refine .of_recovers hrecovers (fun u hu => ?_) (fun x hx => hxs ▸ hx) hnow
  obtain ⟨q, hq, rfl⟩ := Option.map_eq_some_iff.mp hu
  have hlent := mem_lent hloan hq
  obtain ⟨hboth, -, -⟩ := List.nodup_append.mp (h.nodup hnodup)
  obtain ⟨-, -, hfree⟩ := List.nodup_append.mp hboth
  exact ⟨fun hunclaimed => hfree _ (List.mem_append_right _ hunclaimed) _ hlent rfl,
    .inr ⟨hlent, rfl⟩⟩

theorem shifts_of_step (hstep : Step w w') (h : Owned w.pool w.phases w.inquiries)
    (hnodup : w.pool.subscription.ownedPartitions.Nodup) : Shifts w w' := by
  have hexpired := w.pool.requeues_takeExpired w.env.now
  have hsame : ∀ x ∈ w.inquiries, ∀ u, x.freed = some u → u ∈ w.waiting :=
    fun x hx u hu => waiting_of_inquiry hx hu
  cases deals_of_step hstep with
  | proceeds hp =>
    cases hp with
    | outside hretains => exact .of_requeues h hnodup (.refl _) hsame hretains.now
    | lease hph hl hl' hretains => exact .of_requeues h hnodup (.refl _) hsame hretains.now
  | evictIdle =>
    exact .of_requeues h hnodup hexpired hsame
      (Nat.le_of_eq (Environment.now_disconnectAll ..).symm)
  | close =>
    exact .of_requeues h hnodup w.pool.requeues_shut hsame
      (Nat.le_of_eq (Environment.now_disconnectAll ..).symm)
  | request sink =>
    have hnow := Nat.le_of_eq (w.pool.now_startObtain w.env).symm
    unfold request
    split
    · rename_i env p hr
      rw [hr] at hnow
      obtain rfl | rfl := Pool.startObtain_none hr
      · exact .of_requeues h hnodup (.refl _) hsame hnow
      · exact .of_requeues h hnodup hexpired hsame hnow
    · rename_i env p o hr
      rw [hr] at hnow
      have hoffer := Pool.requeues_offer (Pool.startObtain_some hr).2
      exact .of_requeues h hnodup (hexpired.trans hoffer) hsame hnow
  | @supply id o sink hph =>
    obtain hended | ⟨loan, hloan, rfl, -, -⟩ := h.phases id _ hph
    · cases hended
    have hnow := Nat.le_of_eq (w.pool.now_finishObtain w.env o sink).symm
    unfold supply
    split
    · rename_i env p l hr
      rw [hr] at hnow
      obtain ⟨rfl, -⟩ := Pool.finishObtain_ok hr
      exact .of_requeues h hnodup (.refl _) hsame hnow
    · rename_i env p e hr
      rw [hr] at hnow
      obtain ⟨-, -, hpool⟩ := Pool.finishObtain_error_env hr
      exact shifts_takeBack h hnodup hloan hpool rfl hnow
  | abandon hph hl =>
    exact .of_requeues h hnodup (.refl _) hsame (Lease.retains_abandon ..).now
  | @checkIn id c discard hph =>
    obtain hended | ⟨loan, hloan, -⟩ := h.phases id _ hph
    · cases hended
    obtain ⟨henv, hpool, -, hxs⟩ := checkIn_frame w id c discard
    have hnow := w.pool.now_checkIn w.env id (some c) discard
    rw [← henv] at hnow
    rw [Pool.checkIn_pool, ← hnow] at hpool
    exact shifts_takeBack h hnodup hloan hpool hxs (Nat.le_of_eq hnow.symm)
  | inquire =>
    unfold inquire
    obtain hs | ⟨-, hs⟩ := w.pool.supplyQuery_cases
    · rw [hs]
      exact .of_requeues h hnodup (.refl _) hsame (Nat.le_refl _)
    · have hdraws := w.pool.supplyAny_draws
      rw [hs]
      refine .of_requeues h hnodup w.pool.requeues_supplyAny (fun x hx u hu => ?_) (Nat.le_refl _)
      obtain rfl | hx := List.mem_cons.mp hx
      · exact waiting_of_pool (Pool.waiting_of_drawn hdraws hu)
      · exact waiting_of_inquiry hx hu
  | @connect i s hx =>
    have hserves := h.inquiries _ (List.mem_of_getElem? hx)
    have hnow := Nat.le_of_eq (w.pool.now_query w.env s).symm
    unfold connect
    split
    · rename_i env q hr
      rw [hr] at hnow
      refine .of_requeues h hnodup (.refl _) (fun x hx' u hu => ?_) hnow
      obtain hx' | rfl := List.mem_or_eq_of_mem_set hx'
      · exact waiting_of_inquiry hx' hu
      · cases s with
        | idle j =>
          cases hr
          exact waiting_of_inquiry (List.mem_of_getElem? hx) hu
        | fresh signal partition =>
          obtain ⟨-, hq⟩ := Pool.query_ok hr
          have hnone : q.partition = none := hq.trans hserves
          rw [Inquiry.freed, hnone] at hu
          cases hu
    · rename_i env e hr
      rw [hr] at hnow
      exact .of_requeues h hnodup (.refl _)
        (fun x hx' u hu => waiting_of_inquiry (List.mem_of_mem_eraseIdx hx') hu) hnow
  | @ask i q hx topic =>
    refine .of_requeues h hnodup (.refl _) (fun x hx' u hu => ?_)
      (w.env.retains_partitionCount q.connection topic).now
    obtain hx' | rfl := List.mem_or_eq_of_mem_set hx'
    · exact waiting_of_inquiry hx' hu
    · exact waiting_of_inquiry (List.mem_of_getElem? hx) hu
  | @putBack i q faulty hx =>
    have hrecovers := w.pool.recovers_endQuery q faulty
    rw [← w.pool.returnQuery_pool w.env] at hrecovers
    refine .of_recovers hrecovers (fun u hu => ⟨fun hunclaimed => ?_, .inl ?_⟩)
      (fun x hx' => List.mem_of_mem_eraseIdx hx')
      (Nat.le_of_eq (w.pool.now_returnQuery w.env q faulty).symm)
    · obtain ⟨-, -, hasked⟩ := List.nodup_append.mp (h.nodup hnodup)
      have hfree : u.partition ∈ w.pool.free ++ w.pool.lent :=
        List.mem_append_left _ (List.mem_append_right _ hunclaimed)
      refine hasked _ hfree u.partition ?_ rfl
      exact List.mem_filterMap.mpr ⟨_, List.mem_of_getElem? hx,
        Inquiry.partition_of_freed (x := .answered q faulty) hu⟩
    · exact waiting_of_inquiry (x := .answered q faulty) (List.mem_of_getElem? hx) hu

end World
end RecordIntake
