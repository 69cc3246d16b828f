import RecordIntake.Proofs.Capacity

/-!
Why a lease is refused.  An open pool lends unless as many leases are out as there may be, or it
lends partitions one by one and has none.  No partition gets lost on the way, so under explicit
ownership the latter means that every owned partition is lent.  When a connection cannot be opened
the lease is taken back at once, and its partition with it.
-/
namespace RecordIntake

/-! ## The cluster's answer -/

/-- Whether a connection is refused depends on what is left to be refused, and on nothing else. -/
theorem Cluster.connect_congr {c c' : Cluster} (h : c'.failingConnects = c.failingConnects) :
    c'.connect.2 = c.connect.2 := by
  unfold connect
  rw [h]
  cases c.failingConnects with
  | zero => rfl
  | succ n => rfl

theorem Environment.failingConnects_disconnectAll (env : Environment) (cs : List Connection)
    (why : ConnectionEvent) :
    (env.disconnectAll cs why).cluster.failingConnects = env.cluster.failingConnects := by
  induction cs generalizing env with
  | nil => rfl
  | cons c cs ih =>
    show ((env.disconnect c why).disconnectAll cs why).cluster.failingConnects = _
    rw [ih]
    rfl

theorem Environment.connect_error {env env' : Environment} {signal : Signal} {s : Subscription}
    {e : IntakeError} (h : env.connect signal s = (env', .error e)) :
    env.cluster.connect.2 = .error e := by
  have hresult : (env.connect signal s).2 = .error e := by rw [h]
  change env.cluster.connect.2.map _ = .error e at hresult
  cases hconnect : env.cluster.connect.2 with
  | error e' =>
    rw [hconnect] at hresult
    cases hresult
    rfl
  | ok u =>
    rw [hconnect] at hresult
    cases hresult

namespace Pool

variable {p p' : Pool} {env env' : Environment}

/-! ## Nothing to lend -/

theorem servesUnclaimed_of_idle_nil (hidle : p.idle = []) (hunclaimed : p.unclaimed ≠ []) :
    p.servesUnclaimed = true := by
  unfold servesUnclaimed
  cases hu : p.unclaimed with
  | nil => exact absurd hu hunclaimed
  | cons u us =>
    rw [hidle]
    rfl

/-- No partition is found only where there is none. -/
theorem supplyPartition_eq_none_iff :
    p.supplyPartition.2 = none ↔ p.idle = [] ∧ p.unclaimed = [] := by
  unfold supplyPartition
  by_cases hserves : p.servesUnclaimed = true
  · rw [if_pos hserves]
    cases hu : p.unclaimed with
    | nil =>
      rw [servesUnclaimed, hu] at hserves
      cases hserves
    | cons u us => simp
  · rw [if_neg hserves]
    cases hi : pickOldest p.idle with
    | none =>
      have hidle := pickOldest_eq_none hi
      have hunclaimed : p.unclaimed = [] :=
        Classical.byContradiction fun hne => hserves (servesUnclaimed_of_idle_nil hidle hne)
      exact ⟨fun _ => ⟨hidle, hunclaimed⟩, fun _ => rfl⟩
    | some x =>
      have hne : p.idle ≠ [] := by
        intro hnil
        rw [hnil] at hi
        cases hi
      simp [hne]

/-- An offer fails for want of room or of a partition. -/
theorem offer_eq_none_iff :
    p.offer.2 = none ↔
      p.maxLeases ≤ p.outstanding.length ∨
        p.lendsPartitions = true ∧ p.idle = [] ∧ p.unclaimed = [] := by
  unfold offer
  by_cases hfull : p.maxLeases ≤ p.outstanding.length
  · rw [if_pos hfull]
    exact ⟨fun _ => .inl hfull, fun _ => rfl⟩
  rw [if_neg hfull, or_iff_right hfull]
  by_cases hlends : p.lendsPartitions = true
  · rw [if_pos hlends, ← supplyPartition_eq_none_iff]
    rcases p.supplyPartition with ⟨p₁, _ | ⟨s, displaced⟩⟩
    · simp [hlends]
    · simp
  · rw [if_neg hlends]
    simp [hlends]

/-! ## Lending -/

/-- What an open pool decides on does not depend on the connections that are closed meanwhile. -/
theorem startObtain_eq (hopen : p.closed = false) (env : Environment) :
    ∃ env₁, env₁.cluster.failingConnects = env.cluster.failingConnects ∧
      p.startObtain env = (env₁, (p.takeExpired env.now).1.offer) := by
  unfold startObtain
  rw [if_neg (by rw [hopen]; exact Bool.false_ne_true)]
  rcases p.takeExpired env.now with ⟨p₁, expired⟩
  dsimp only
  rcases p₁.offer with ⟨p₂, _ | o⟩
  · exact ⟨(env.disconnectAll expired .evicted).count .leaseMisses,
      env.failingConnects_disconnectAll expired .evicted, rfl⟩
  · refine ⟨_, ?_, rfl⟩
    rw [Environment.failingConnects_disconnectAll, Environment.failingConnects_disconnectAll]
    rfl

theorem finishObtain_refused {o : Offer} {sink : String} {e : IntakeError}
    (h : p.finishObtain env o sink = (env', p', .error e)) :
    env.cluster.connect.2 = .error e := by
  unfold finishObtain at h
  split at h
  · cases h
  · rename_i env₁ e' he
    cases h
    cases hs : o.supply with
    | idle i =>
      rw [hs] at he
      cases he
    | fresh signal partition =>
      rw [hs] at he
      change p.openConnection env signal partition = _ at he
      unfold openConnection at he
      split at he
      · cases he
      · rename_i env₂ e'' hconnect
        cases he
        exact Environment.connect_error hconnect

/-- An open pool refuses, or lends what it offers, or has to take it back at once. -/
theorem obtain_cases (hopen : p.closed = false) (env : Environment) (sink : String) :
    (p.takeExpired env.now).1.offer.2 = none ∧ (p.obtain env sink).2.2 = .ok none ∨
    ∃ p' o, (p.takeExpired env.now).1.offer = (p', some o) ∧
      ((∃ l, l.id = o.lease ∧ (p.obtain env sink).2 = (p', .ok (some l))) ∨
        ∃ e now, env.cluster.connect.2 = .error e ∧
          (p.obtain env sink).2 = ((p'.takeBack o.lease none true now).1, .error e)) := by
  obtain ⟨env₁, hfailing, hstart⟩ := startObtain_eq hopen env
  rcases hoffer : (p.takeExpired env.now).1.offer with ⟨p', _ | o⟩
  · left
    rw [obtain, hstart, hoffer]
    exact ⟨rfl, rfl⟩
  right
  refine ⟨p', o, rfl, ?_⟩
  rw [obtain, hstart, hoffer]
  dsimp only
  rcases hfinish : p'.finishObtain env₁ o sink with ⟨env₂, p₂, e | l⟩
  · right
    obtain ⟨now, rfl⟩ := finishObtain_error hfinish
    exact ⟨e, now, (Cluster.connect_congr hfailing).symm.trans (finishObtain_refused hfinish), rfl⟩
  · left
    obtain ⟨rfl, c, -, rfl⟩ := finishObtain_ok hfinish
    exact ⟨_, rfl, rfl⟩

end Pool

/-! ## What is not lent is there -/

namespace Owned

open Pool

variable {p p' : Pool} {phs : SortedMap LeaseId Phase}

theorem mem_owned_iff (h : Owned p phs []) (hopen : p.closed = false) (q : Partition) :
    q ∈ p.subscription.ownedPartitions ↔ q ∈ p.free ∨ q ∈ p.lent := by
  rw [← (h.perm hopen).mem_iff, asked, List.filterMap_nil, List.append_nil, List.mem_append]

/-- The pool has no partition to itself only if all are lent. -/
theorem free_eq_nil_iff (h : Owned p phs []) (hopen : p.closed = false)
    (hnodup : p.subscription.ownedPartitions.Nodup) :
    p.free = [] ↔ ∀ q ∈ p.subscription.ownedPartitions, q ∈ p.lent := by
  constructor
  · intro hfree q hq
    rcases (h.mem_owned_iff hopen q).mp hq with hq | hq
    · rw [hfree] at hq
      cases hq
    · exact hq
  · intro hlent
    apply List.eq_nil_iff_forall_not_mem.mpr
    intro q hq
    have hparts := h.nodup hnodup
    rw [asked, List.filterMap_nil, List.append_nil] at hparts
    have hq' := hlent q ((h.mem_owned_iff hopen q).mpr (.inl hq))
    exact (List.nodup_append'.mp hparts).2.2 hq hq'

/-- Under explicit ownership every idle connection has its partition. -/
theorem idle_unclaimed_eq_nil_iff (h : Owned p phs []) (hlends : p.lendsPartitions = true) :
    p.idle = [] ∧ p.unclaimed = [] ↔ p.free = [] := by
  have hbound := (h.bound hlends).1
  rw [free, List.append_eq_nil_iff, unclaimedPartitions, List.map_eq_nil_iff, idlePartitions,
    List.filterMap_eq_nil_iff]
  constructor
  · rintro ⟨hidle, hunclaimed⟩
    rw [hidle]
    exact ⟨by simp, hunclaimed⟩
  · rintro ⟨hidle, hunclaimed⟩
    refine ⟨List.eq_nil_iff_forall_not_mem.mpr ?_, hunclaimed⟩
    intro i hi
    have hsome := hbound i hi
    rw [hidle i hi] at hsome
    cases hsome

/-- Nothing is offered if and only if there is no room or no partition. -/
theorem offer_eq_none_iff (h : Owned p phs []) (hopen : p.closed = false)
    (hnodup : p.subscription.ownedPartitions.Nodup) (hroom : p.outstanding.length ≤ p.maxLeases) :
    p.offer.2 = none ↔
      p.outstanding.length = p.maxLeases ∨
        p.lendsPartitions = true ∧ ∀ q ∈ p.subscription.ownedPartitions, q ∈ p.lent := by
  rw [Pool.offer_eq_none_iff, ← h.free_eq_nil_iff hopen hnodup]
  constructor
  · rintro (hfull | ⟨hlends, hnothing⟩)
    · exact .inl (by omega)
    · exact .inr ⟨hlends, (h.idle_unclaimed_eq_nil_iff hlends).mp hnothing⟩
  · rintro (hfull | ⟨hlends, hnothing⟩)
    · exact .inl (by omega)
    · exact .inr ⟨hlends, (h.idle_unclaimed_eq_nil_iff hlends).mpr hnothing⟩

/-- What was offered and is taken back unopened leaves the leases and the partitions as they
were. -/
theorem offer_takeBack {xs : List Inquiry} (h : Owned p phs xs) {o : Offer}
    (ho : p.offer = (p', some o)) (now : Nat) :
    (p'.takeBack o.lease none true now).1.outstanding = p.outstanding ∧
      (p'.takeBack o.lease none true now).1.free.Perm p.free := by
  obtain ⟨p₁, hdraws, hid, rfl⟩ := offer_eq_some ho
  have hloan : SortedMap.find? o.lease
      (p.outstanding.insert (p.lastLease + 1) (Supply.loan o.supply)) =
        some (Supply.loan o.supply) := by
    rw [hid, SortedMap.find?_insert_self]
  have hback := takeBack_regains (p := { p₁ with
    lastLease := p.lastLease + 1
    outstanding := p.outstanding.insert (p.lastLease + 1) (Supply.loan o.supply) }) hloan none true
    now
  constructor
  · rw [hback.outstanding, hid]
    exact SortedMap.erase_insert h.find?_next (Supply.loan o.supply)
  · exact hback.free.trans hdraws.free.symm

/-- Eviction only moves partitions around, so what is offered after it is decided by the leases. -/
theorem evicted_offer_eq_none_iff (h : Owned p phs []) (hopen : p.closed = false)
    (hnodup : p.subscription.ownedPartitions.Nodup) (hroom : p.outstanding.length ≤ p.maxLeases)
    (now : Nat) :
    (p.takeExpired now).1.offer.2 = none ↔
      p.outstanding.length = p.maxLeases ∨
        p.lendsPartitions = true ∧ ∀ q ∈ p.subscription.ownedPartitions, q ∈ p.lent := by
  have hterms := p.sameTerms_takeExpired now
  obtain ⟨hout, -, hclosed⟩ := p.same_takeExpired now
  have hmax : (p.takeExpired now).1.maxLeases = p.maxLeases := by
    rw [maxLeases, hterms.settings, ← maxLeases]
  rw [(h.takeExpired now).offer_eq_none_iff (hclosed.trans hopen)
      (by rw [hterms.subscription]; exact hnodup) (by rw [hout, hmax]; exact hroom),
    hout, hmax, hterms.lendsPartitions, hterms.subscription, Pool.lent_congr hout]

/-- A call refuses, or a new lease is out after it, or all leases and partitions are as before. -/
theorem obtain_cases (h : Owned p phs []) (hopen : p.closed = false) (env : Environment)
    (sink : String) :
    (p.takeExpired env.now).1.offer.2 = none ∧ (p.obtain env sink).2.2 = .ok none ∨
    (p.takeExpired env.now).1.offer.2 ≠ none ∧
      ((∃ l loan, (p.obtain env sink).2.2 = .ok (some l) ∧ p.outstanding.find? l.id = none ∧
          (p.obtain env sink).2.1.outstanding = p.outstanding.insert l.id loan) ∨
        ∃ e, (p.obtain env sink).2.2 = .error e ∧ env.cluster.connect.2 = .error e ∧
          (p.obtain env sink).2.1.outstanding = p.outstanding ∧
          (p.obtain env sink).2.1.free.Perm p.free) := by
  have hevicted := h.takeExpired env.now
  obtain ⟨hout, -, -⟩ := p.same_takeExpired env.now
  rcases Pool.obtain_cases hopen env sink with hnone | ⟨p', o, hsome, hends⟩
  · exact .inl hnone
  refine .inr ⟨?_, ?_⟩
  · rw [hsome]
    exact Option.some_ne_none o
  rcases hends with ⟨l, hid, hl⟩ | ⟨e, time, hconnect, he⟩
  · left
    obtain ⟨p₁, -, hlease, rfl⟩ := offer_eq_some hsome
    refine ⟨l, Supply.loan o.supply, congrArg Prod.snd hl, ?_, ?_⟩
    · rw [hid, hlease, ← hout]
      exact hevicted.find?_next
    · rw [hl, hid, hlease, ← hout]
  · right
    obtain ⟨hsame, hback⟩ := hevicted.offer_takeBack hsome time
    rw [he]
    exact ⟨e, rfl, hconnect, hsame.trans hout, hback.trans (p.free_takeExpired env.now)⟩

end Owned

namespace World

/-- A lease is refused only for a reason.  Whatever happened to an open pool, as long as no question
for a partition count is under way: it refuses a lease if and only if as many are out as there may
be, or it owns partitions one by one and all of them are lent.  Otherwise a new lease is out, or the
cluster refused the connection.  Then the same leases are out as before, and every owned partition
that is not lent is there to be lent. -/
theorem refused_only_for_a_reason (maxPollRecords now : Nat) {s : Subscription}
    (hwf : s.WellFormed) (reader : RecordReader) (settings : IntakeSettings) (as : List Action)
    (sink : String) :
    let w := (World.start maxPollRecords now s reader settings).run as
    let pool := (w.pool.obtain w.env sink).2.1
    let result := (w.pool.obtain w.env sink).2.2
    w.pool.closed = false → w.inquiries = [] →
      (result = .ok none ↔
        w.pool.outstanding.length = settings.pool.maxLeases ∨
          s.isExplicit = true ∧ ∀ q ∈ s.ownedPartitions, q ∈ w.pool.lent) ∧
      (result = .ok none ∨
        (∃ l loan, result = .ok (some l) ∧ w.pool.outstanding.find? l.id = none ∧
          pool.outstanding = w.pool.outstanding.insert l.id loan) ∨
        ∃ e, result = .error e ∧ w.env.cluster.connect.2 = .error e ∧
          pool.outstanding = w.pool.outstanding ∧
          ∀ q ∈ s.ownedPartitions, q ∉ w.pool.lent → q ∈ pool.free) := by
  intro w pool result hopen hinquiries
  obtain ⟨howned, haccounted⟩ : Balanced w := balanced_run (balanced_start ..) as
  rw [hinquiries] at howned
  have hterms : Pool.SameTerms _ w.pool :=
    sameTerms_run (World.start maxPollRecords now s reader settings) as
  have hsubscription : w.pool.subscription = s := hterms.subscription
  have hmax : w.pool.maxLeases = settings.pool.maxLeases := by
    rw [Pool.maxLeases, hterms.settings]
    rfl
  have hroom : w.pool.outstanding.length ≤ w.pool.maxLeases := by
    have hfits := haccounted.fits.room
    rw [Pool.openConnections] at hfits
    omega
  have hnodup : w.pool.subscription.ownedPartitions.Nodup := by
    rw [hsubscription]
    exact hwf.nodup
  have hrefuses := howned.evicted_offer_eq_none_iff hopen hnodup hroom w.env.now
  rw [hmax, Pool.lendsPartitions, hsubscription] at hrefuses
  rcases howned.obtain_cases hopen w.env sink with ⟨hnone, hresult⟩ | ⟨hsome, hends⟩
  · exact ⟨iff_of_true hresult (hrefuses.mp hnone), .inl hresult⟩
  have hreason := mt hrefuses.mpr hsome
  rcases hends with ⟨l, loan, hresult, hnew, hout⟩ | ⟨e, hresult, hconnect, hout, hfree⟩
  · refine ⟨iff_of_false ?_ hreason, .inr (.inl ⟨l, loan, hresult, hnew, hout⟩)⟩
    intro hrefused
    cases hresult.symm.trans hrefused
  · refine ⟨iff_of_false ?_ hreason, .inr (.inr ⟨e, hresult, hconnect, hout, ?_⟩)⟩
    · intro hrefused
      cases hresult.symm.trans hrefused
    · intro q hq hlent
      have howns := (howned.mem_owned_iff hopen q).mp (hsubscription ▸ hq)
      exact hfree.mem_iff.mpr (howns.resolve_right hlent)

/-- Of two partitions one is lent, and the other one is lent too or cannot be connected to. -/
def lendOneOfTwo (a : Action) : World :=
  (World.start 10 0 (.partitions [("t", [0, 1])]) Record.read {}).run [.request "s", .supply 1, a]

theorem refused_only_for_a_reason_lendOneOfTwo :
    let w := lendOneOfTwo (.request "s")
    let w' := lendOneOfTwo (.onCluster (.failConnects 1))
    (w.pool.obtain w.env "s").2.2 = .ok none ∧
      ∃ e, (w'.pool.obtain w'.env "s").2.2 = .error e ∧
        (w'.pool.obtain w'.env "s").2.1.outstanding = w'.pool.outstanding ∧
        ⟨"t", 1⟩ ∈ (w'.pool.obtain w'.env "s").2.1.free := by
  intro w w'
  have hwf : Subscription.WellFormed (.partitions [("t", [0, 1])]) :=
    ⟨List.pairwise_singleton _ _, by simp; decide⟩
  have hinquiries : w.inquiries = [] := List.isEmpty_iff.mp (by decide +kernel)
  have hinquiries' : w'.inquiries = [] := List.isEmpty_iff.mp (by decide +kernel)
  have hfails : (w'.pool.obtain w'.env "s").2.2.isOk = false := by decide +kernel
  obtain ⟨hrefused, -⟩ := refused_only_for_a_reason 10 0 hwf Record.read {}
    [.request "s", .supply 1, .request "s"] "s" (by decide +kernel) hinquiries
  obtain ⟨-, hends⟩ := refused_only_for_a_reason 10 0 hwf Record.read {}
    [.request "s", .supply 1, .onCluster (.failConnects 1)] "s" (by decide +kernel) hinquiries'
  refine ⟨hrefused.mpr (.inr ⟨rfl, by decide +kernel⟩), ?_⟩
  rcases hends with hnone | ⟨l, loan, hl, -, -⟩ | ⟨e, he, -, hout, hfree⟩
  · change (w'.pool.obtain w'.env "s").2.2 = _ at hnone
    rw [hnone] at hfails
    cases hfails
  · change (w'.pool.obtain w'.env "s").2.2 = _ at hl
    rw [hl] at hfails
    cases hfails
  · exact ⟨e, he, hout, hfree ⟨"t", 1⟩ (by decide +kernel) (by decide +kernel)⟩

end World
end RecordIntake
