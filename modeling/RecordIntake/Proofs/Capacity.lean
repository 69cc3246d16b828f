import RecordIntake.Proofs.Exclusion
import RecordIntake.Proofs.Operations
import RecordIntake.Proofs.Turnover

/-!
Where every connection is.  Each connection gets a number when it is decided to open it, and its
number is then with a lease or a question until it is opened or cannot be.  One that was opened is
idle, lent, used to ask or closed.  A step moves numbers between these places, so it is enough to
say which ones it moves; that each is in one place follows by counting.

Questions open connections beyond the number that there may be, and close them again.  Between
operations no question is on its way, so then the bound and the places are the ones of idle and lent
connections alone.
-/
namespace RecordIntake

/-- The number of the connection that has still to be opened for a lease. -/
def Phase.unopened? : Phase → Option ConnectionId
  | .opening o _ => Pool.Supply.unopened? o.supply
  | _ => none

theorem Phase.unopened?_of_lease {ph : Phase} {l : Lease} (h : ph.lease? = some l) :
    ph.unopened? = none := by
  cases ph <;> cases h <;> rfl

/-- The number of the connection that has still to be opened for a question. -/
def Inquiry.unopened? : Inquiry → Option ConnectionId
  | .taken s => Pool.Supply.unopened? s
  | .asking _ | .answered _ _ => none

/-- The numbers of the connections that have still to be opened for leases. -/
def unopenedLeases (phs : SortedMap LeaseId Phase) : List ConnectionId :=
  phs.filterMap (·.2.unopened?)

/-- The numbers of the connections that have still to be opened for questions. -/
def unopenedInquiries (xs : List Inquiry) : List ConnectionId := xs.filterMap Inquiry.unopened?

theorem unopenedLeases_insert (phs : SortedMap LeaseId Phase) (id : LeaseId) (ph' : Phase) :
    (unopenedLeases (phs.insert id ph') ++ ((phs.find? id).bind Phase.unopened?).toList).Perm
      (unopenedLeases phs ++ ph'.unopened?.toList) := by
  have hinsert := (SortedMap.insert_perm id ph' phs).filterMap (·.2.unopened?)
  rw [Pool.filterMap_cons_toList] at hinsert
  cases hf : phs.find? id with
  | none =>
    rw [SortedMap.erase_of_find?_eq_none hf] at hinsert
    rw [Option.bind_none, Option.toList_none, List.append_nil]
    exact hinsert.trans List.perm_append_comm
  | some ph =>
    have herase := (SortedMap.perm_cons_erase hf).filterMap (·.2.unopened?)
    rw [Pool.filterMap_cons_toList] at herase
    refine List.perm_iff_count.mpr fun k => ?_
    have hinsert := hinsert.count_eq k
    have herase := herase.count_eq k
    simp only [List.count_append, Option.bind_some, unopenedLeases] at hinsert herase ⊢
    omega

/-- Afterwards nothing is to be opened for the lease. -/
theorem unopenedLeases_settle {phs : SortedMap LeaseId Phase} {id : LeaseId} {ph : Phase}
    (hph : phs.find? id = some ph) {ph' : Phase} (hu' : ph'.unopened? = none) :
    (unopenedLeases (phs.insert id ph') ++ ph.unopened?.toList).Perm (unopenedLeases phs) := by
  have h := unopenedLeases_insert phs id ph'
  rwa [hph, Option.bind_some, hu', Option.toList_none, List.append_nil] at h

/-- Neither before nor afterwards is anything to be opened for the lease. -/
theorem unopenedLeases_same {phs : SortedMap LeaseId Phase} {id : LeaseId} {ph ph' : Phase}
    (hph : phs.find? id = some ph) (hu : ph.unopened? = none) (hu' : ph'.unopened? = none) :
    (unopenedLeases (phs.insert id ph')).Perm (unopenedLeases phs) := by
  have h := unopenedLeases_settle hph hu'
  rwa [hu, Option.toList_none, List.append_nil] at h

theorem unopenedInquiries_eraseIdx {xs : List Inquiry} {i : Nat} {x : Inquiry}
    (h : xs[i]? = some x) :
    (unopenedInquiries (xs.eraseIdx i) ++ x.unopened?.toList).Perm (unopenedInquiries xs) := by
  obtain ⟨hi, rfl⟩ := List.getElem?_eq_some_iff.mp h
  have hids := (List.getElem_cons_eraseIdx_perm hi).filterMap Inquiry.unopened?
  rw [Pool.filterMap_cons_toList] at hids
  exact List.perm_append_comm.trans hids

theorem unopenedInquiries_set {xs : List Inquiry} {i : Nat} {x : Inquiry} (h : xs[i]? = some x)
    {x' : Inquiry} (hx' : x'.unopened? = none) :
    (unopenedInquiries (xs.set i x') ++ x.unopened?.toList).Perm (unopenedInquiries xs) := by
  obtain ⟨hi, -⟩ := List.getElem?_eq_some_iff.mp h
  have hids := (List.set_perm_cons_eraseIdx hi x').filterMap Inquiry.unopened?
  rw [Pool.filterMap_cons_toList, hx', Option.toList_none, List.nil_append] at hids
  exact (hids.append_right _).trans (unopenedInquiries_eraseIdx h)

namespace World

open Environment (Turnover)

/-- The numbers of the connections that have still to be opened. -/
def unopenedIds (w : World) : List ConnectionId :=
  unopenedLeases w.phases ++ unopenedInquiries w.inquiries

/-- The numbers of the connections that the pool, a lease or a question has or is about to get. -/
def boundIds (w : World) : List ConnectionId :=
  w.pool.idleIds ++ w.pool.lentIds ++ askedIds w.inquiries

/-- What a step does to the numbers of connections: which are given out, and which are opened,
closed or given up because they could not be opened. -/
structure Transfers (w w' : World) (gs os cs fs : List ConnectionId) : Prop where
  turnover : w.env.Turnover w'.env os cs
  unopened : (w'.unopenedIds ++ os ++ fs).Perm (w.unopenedIds ++ gs)
  bound : (w'.boundIds ++ cs ++ fs).Perm (w.boundIds ++ gs)
  given : gs = [] ∧ w'.pool.lastConnection = w.pool.lastConnection ∨
    gs = [w.pool.lastConnection + 1] ∧ w'.pool.lastConnection = w.pool.lastConnection + 1
  shut : w.pool.closed = true → gs = [] ∧ w'.pool.closed = true

/-- Every connection is in one place, and counted. -/
structure Accounted (w : World) : Prop where
  fits : w.pool.Fits
  places : ∀ k, (openedIds w.env.journal).count k + w.unopenedIds.count k =
    w.boundIds.count k + (closedIds w.env.journal).count k
  once : ∀ k, w.boundIds.count k + (closedIds w.env.journal).count k ≤ 1 ∧
    (w.pool.lastConnection < k →
      w.boundIds.count k + (closedIds w.env.journal).count k = 0)
  created : w.env.metrics.count (.connectionEvents .created) = (openedIds w.env.journal).length
  ended : w.env.metrics.ended = (closedIds w.env.journal).length

variable {w w' : World}

theorem Accounted.transfer (h : Accounted w) {gs os cs fs : List ConnectionId}
    (ht : Transfers w w' gs os cs fs)
    (hfits : w'.pool.Fits) : Accounted w' where
  fits := hfits
  places k := by
    have hk := h.places k
    have hclosed := ht.turnover.closed.count_eq k
    have hunopened := ht.unopened.count_eq k
    have hbound := ht.bound.count_eq k
    rw [ht.turnover.opened]
    simp only [List.count_append] at hclosed hunopened hbound ⊢
    omega
  once k := by
    have hk := h.once k
    have hclosed := ht.turnover.closed.count_eq k
    have hbound := ht.bound.count_eq k
    simp only [List.count_append] at hclosed hbound
    obtain ⟨rfl, hlast⟩ | ⟨rfl, hlast⟩ := ht.given
    · rw [List.count_nil] at hbound
      omega
    · have hnext := Owned.count_next w.pool.lastConnection k
      rw [List.count_singleton] at hbound
      omega
  created := by
    rw [ht.turnover.created, h.created, ht.turnover.opened, List.length_append]
    omega
  ended := by
    rw [ht.turnover.ended, h.ended, ht.turnover.closed.length_eq, List.length_append]
    omega

/-! ## Steps -/

/-- A lease that gives nothing away and has nothing to be opened for it. -/
theorem transfers_phase {id : LeaseId} {ph ph' : Phase} {env : Environment}
    (hph : w.phases.find? id = some ph) (hu : ph.unopened? = none) (hu' : ph'.unopened? = none)
    (hr : w.env.Retains env) (history : List Occurrence) :
    Transfers w { w with env := env, phases := w.phases.insert id ph', history := history }
      [] [] [] [] := by
  refine ⟨hr.turnover, ?_, by simp [boundIds], .inl ⟨rfl, rfl⟩, fun h => ⟨rfl, h⟩⟩
  simp only [unopenedIds, List.append_nil]
  exact (unopenedLeases_same hph hu hu').append_right _

theorem transfers_proceeds (h : Proceeds w w') : Transfers w w' [] [] [] [] := by
  cases h with
  | outside hr =>
    exact ⟨hr.turnover, by simp [unopenedIds], by simp [boundIds], .inl ⟨rfl, rfl⟩,
      fun h => ⟨rfl, h⟩⟩
  | lease hph hl hl' hr =>
    exact transfers_phase hph (Phase.unopened?_of_lease hl) (Phase.unopened?_of_lease hl') hr _

/-- Giving idle connections up closes them. -/
theorem transfers_idle {env : Environment} {p : Pool} {closed : List ConnectionId}
    (hturn : w.env.Turnover env [] closed) (hids : w.pool.idleIds.Perm (p.idleIds ++ closed))
    (hout : p.outstanding = w.pool.outstanding) (hlast : p.lastConnection = w.pool.lastConnection)
    (hclosed : w.pool.closed = true → p.closed = true) :
    Transfers w { w with env := env, pool := p } [] [] closed [] := by
  refine ⟨hturn, by simp [unopenedIds], List.perm_iff_count.mpr fun k => ?_, .inl ⟨rfl, hlast⟩,
    fun h => ⟨rfl, hclosed h⟩⟩
  have hids := hids.count_eq k
  simp only [boundIds, Pool.lentIds_congr hout, List.count_append, List.count_nil] at hids ⊢
  omega

theorem transfers_expire {env : Environment}
    (hturn : w.env.Turnover env [] ((w.pool.takeExpired w.env.now).2.map (·.id))) :
    Transfers w { w with env := env, pool := (w.pool.takeExpired w.env.now).1 }
      [] [] ((w.pool.takeExpired w.env.now).2.map (·.id)) [] :=
  transfers_idle hturn (w.pool.idleIds_takeExpired w.env.now) (w.pool.same_takeExpired _).1
    (w.pool.lastConnection_takeExpired _) (w.pool.same_takeExpired _).2.2.trans

theorem transfers_close (w : World) :
    Transfers w { w with env := (w.pool.close w.env).1, pool := (w.pool.close w.env).2 }
      [] [] (w.pool.shut.2.map (·.id)) [] := by
  have hturn := w.env.turnover_disconnectAll w.pool.shut.2 .closed (by simp)
  have hids : w.pool.idleIds.Perm (w.pool.shut.1.idleIds ++ w.pool.shut.2.map (·.id)) := by
    unfold Pool.shut
    split
    · simp
    · rw [List.map_map]
      exact .refl _
  obtain ⟨hout, -, hlast⟩ := w.pool.same_shut
  exact transfers_idle hturn hids hout hlast fun _ => w.pool.closed_shut

theorem unopened_next (h : Owned w.pool w.phases w.inquiries) :
    ((w.phases.find? (w.pool.lastLease + 1)).bind Phase.unopened?).toList = [] := by
  cases hph : w.phases.find? (w.pool.lastLease + 1) with
  | none => rfl
  | some ph =>
    obtain rfl | ⟨loan, hloan, -⟩ := h.phases _ ph hph
    · rfl
    · rw [h.find?_next] at hloan
      cases hloan

theorem transfers_request (h : Owned w.pool w.phases w.inquiries) (sink : String) :
    ∃ given closed, Transfers w (w.request sink) given [] closed [] := by
  unfold request
  split
  · rename_i env p hr
    obtain ⟨rfl, rfl⟩ | ⟨rfl, hturn⟩ := Pool.turnover_startObtain_none hr
    · exact ⟨[], [], transfers_proceeds (.refl w)⟩
    · exact ⟨[], _, transfers_expire hturn⟩
  · rename_i env p o hr
    have hturn := Pool.turnover_startObtain_some hr
    have hown := h.takeExpired w.env.now
    have hexpired := w.pool.idleIds_takeExpired w.env.now
    obtain ⟨hout, hlease, -⟩ := w.pool.same_takeExpired w.env.now
    have hconn := w.pool.lastConnection_takeExpired w.env.now
    obtain ⟨hopen, ho⟩ := Pool.startObtain_some hr
    have hids := Pool.offer_idleIds hown.idle_id ho
    have hlent := Pool.offer_lentIds hown.find?_next ho
    have hgiven := Pool.offer_unopened ho
    obtain ⟨_, -, hid, -⟩ := Pool.offer_eq_some ho
    rw [hlease] at hid
    have hphases := unopenedLeases_insert w.phases o.lease (.opening o sink)
    rw [hid, unopened_next h, ← hid] at hphases
    rw [Pool.lentIds_congr hout] at hlent
    refine ⟨(Pool.Supply.unopened? o.supply).toList, _, hturn,
      List.perm_iff_count.mpr fun k => ?_, List.perm_iff_count.mpr fun k => ?_, hconn ▸ hgiven,
      fun hclosed => ?_⟩
    · have hphases := hphases.count_eq k
      simp only [List.count_append, List.count_nil, setPhase, unopenedIds, Phase.unopened?]
        at hphases ⊢
      omega
    · have hids := hids.count_eq k
      have hexpired := hexpired.count_eq k
      have hlent := hlent.count_eq k
      simp only [List.count_append, List.count_cons, List.count_nil, setPhase, boundIds]
        at hids hexpired hlent ⊢
      omega
    · rw [hopen] at hclosed
      cases hclosed

/-- The connection is opened, or the lease is taken back at once. -/
theorem transfers_supply (h : Owned w.pool w.phases w.inquiries) {id : LeaseId} {o : Offer}
    {sink : String} (hph : w.phases.find? id = some (.opening o sink)) :
    ∃ opened failed, Transfers w (w.supply id o sink) [] opened [] failed := by
  obtain hended | ⟨loan, hloan, rfl, rfl, -⟩ := h.phases id _ hph
  · cases hended
  unfold supply
  split
  · rename_i env p l hr
    have hturn := Pool.turnover_finishObtain_ok hr
    obtain ⟨rfl, -⟩ := Pool.finishObtain_ok hr
    have hphases := unopenedLeases_settle hph (show (Phase.held l).unopened? = none from rfl)
    refine ⟨_, [], hturn, List.perm_iff_count.mpr fun k => ?_,
      by simp [boundIds, setPhase, remember], .inl ⟨rfl, rfl⟩, fun h => ⟨rfl, h⟩⟩
    have hphases := hphases.count_eq k
    simp only [List.count_append, List.count_nil, setPhase, remember, unopenedIds,
      Phase.unopened?] at hphases ⊢
    omega
  · rename_i env p e hr
    obtain ⟨hretains, hunopened, rfl⟩ := Pool.finishObtain_error_env hr
    have hphases := unopenedLeases_settle hph (show Phase.ended.unopened? = none from rfl)
    have hlent := Pool.lentIds_takeBack hloan none true env.now
    have hidle := w.pool.idleIds_takeBack_missing o.lease true env.now
    have hlast := w.pool.lastConnection_takeBack o.lease none true env.now
    have hclosed := (Pool.takeBack_regains hloan none true env.now).closed
    generalize (w.pool.takeBack o.lease none true env.now).1 = p at hlent hidle hlast hclosed ⊢
    rw [Phase.unopened?, hunopened, Option.toList_some] at hphases
    refine ⟨[], [(Pool.Supply.loan o.supply).signal.connection], hretains.turnover,
      List.perm_iff_count.mpr fun k => ?_, List.perm_iff_count.mpr fun k => ?_,
      .inl ⟨rfl, hlast⟩, fun h => ⟨rfl, hclosed.trans h⟩⟩
    · have hphases := hphases.count_eq k
      simp only [List.count_append, List.count_nil, setPhase, unopenedIds] at hphases ⊢
      omega
    · have hlent := hlent.count_eq k
      simp only [List.count_append, List.count_cons, List.count_nil, setPhase, boundIds, hidle]
        at hlent ⊢
      omega

theorem transfers_checkIn (h : Owned w.pool w.phases w.inquiries) {id : LeaseId} {c : Connection}
    {discard : Bool} (hph : w.phases.find? id = some (.returning c discard)) :
    ∃ closed, Transfers w (w.checkIn id c discard) [] [] closed [] := by
  obtain hended | ⟨loan, hloan, hserves⟩ := h.phases id _ hph
  · cases hended
  have hid : c.id = loan.signal.connection := hserves.id
  have hpool := w.pool.checkIn_pool w.env id (some c) discard
  have hlent := Pool.lentIds_takeBack hloan (some c) discard w.env.now
  have hlast := w.pool.lastConnection_takeBack id (some c) discard w.env.now
  have hclosed := (Pool.takeBack_regains hloan (some c) discard w.env.now).closed
  have hphases := unopenedLeases_same hph rfl (show Phase.ended.unopened? = none from rfl)
  have hunopened : ∀ env p history,
      (World.unopenedIds ⟨env, p, w.phases.insert id .ended, w.inquiries, history⟩ ++ [] ++ []).Perm
        (w.unopenedIds ++ []) := by
    intro env p history
    simp only [unopenedIds, List.append_nil]
    exact hphases.append_right _
  unfold checkIn
  cases hd : discard || w.pool.closed with
  | false =>
    have hturn := (Pool.retains_checkIn_kept w.env hloan c hd).turnover
    have hidle := w.pool.idleIds_takeBack_kept id c hd w.env.now
    rw [← hpool] at hlent hlast hidle hclosed
    refine ⟨[], hturn, hunopened .., List.perm_iff_count.mpr fun k => ?_, .inl ⟨rfl, hlast⟩,
      fun h => ⟨rfl, hclosed.trans h⟩⟩
    have hlent := hlent.count_eq k
    simp only [Bool.false_eq_true, if_false, remember, setPhase, boundIds, hidle, hid,
      List.count_append, List.count_cons, List.count_nil] at hlent ⊢
    omega
  | true =>
    have hturn := Pool.turnover_checkIn_rejected w.env hloan c hd
    have hidle := w.pool.idleIds_takeBack_rejected id c hd w.env.now
    rw [← hpool] at hlent hlast hidle hclosed
    refine ⟨[c.id], hturn, hunopened .., List.perm_iff_count.mpr fun k => ?_, .inl ⟨rfl, hlast⟩,
      fun h => ⟨rfl, hclosed.trans h⟩⟩
    have hlent := hlent.count_eq k
    simp only [if_true, setPhase, boundIds, hidle, hid, List.count_append, List.count_cons,
      List.count_nil] at hlent ⊢
    omega

/-! ## Questions -/

theorem transfers_inquire (h : Owned w.pool w.phases w.inquiries) :
    ∃ given, Transfers w w.inquire given [] [] [] := by
  unfold inquire
  obtain hs | ⟨hopen, hs⟩ := w.pool.supplyQuery_cases
  · rw [hs]
    exact ⟨[], transfers_proceeds (.refl w)⟩
  · rw [hs]
    have hdraws := w.pool.supplyAny_draws
    have hids := w.pool.supplyAny_idleIds h.idle_id
    obtain ⟨hout, -, -⟩ := hdraws.same
    have hlent := Pool.lentIds_congr hout
    have hgiven := hdraws.unopened
    generalize w.pool.supplyAny.1 = p, w.pool.supplyAny.2 = s at hids hlent hgiven ⊢
    refine ⟨(Pool.Supply.unopened? s).toList, (Environment.Retains.refl w.env).turnover,
      List.perm_iff_count.mpr fun k => ?_, List.perm_iff_count.mpr fun k => ?_, hgiven,
      fun hclosed => ?_⟩
    · simp only [unopenedIds, unopenedInquiries, Pool.filterMap_cons_toList, Inquiry.unopened?,
        List.count_append, List.count_nil]
      omega
    · have hids := hids.count_eq k
      simp only [boundIds, askedIds, List.map_cons, Inquiry.loan, hlent, List.count_append,
        List.count_cons, List.count_nil] at hids ⊢
      omega
    · rw [hopen] at hclosed
      cases hclosed

theorem transfers_connect (h : Owned w.pool w.phases w.inquiries) {i : Nat} {s : Supply}
    (hx : w.inquiries[i]? = some (.taken s)) :
    ∃ opened failed, Transfers w (w.connect i s) [] opened [] failed := by
  unfold connect
  split
  · rename_i env q hr
    have hturn := Pool.turnover_query_ok hr
    obtain ⟨hy, -⟩ := Pool.query_ok hr
    have hserves := hy.serves (h.inquiries _ (List.mem_of_getElem? hx)).of_taken
    have hasked : (askedIds (w.inquiries.set i (.asking q))).Perm (askedIds w.inquiries) :=
      askedIds_set hx (congrArg _ hserves.signal)
    have hunopened := unopenedInquiries_set hx (show (Inquiry.asking q).unopened? = none from rfl)
    refine ⟨_, [], hturn, List.perm_iff_count.mpr fun k => ?_, ?_, .inl ⟨rfl, rfl⟩,
      fun h => ⟨rfl, h⟩⟩
    · have hunopened := hunopened.count_eq k
      simp only [unopenedIds, Inquiry.unopened?, List.count_append, List.count_nil]
        at hunopened ⊢
      omega
    · simp only [boundIds, List.append_nil]
      exact hasked.append_left _
  · rename_i env e hr
    obtain ⟨hretains, hs⟩ := Pool.query_error hr
    have hasked := askedIds_eraseIdx hx
    have hunopened := unopenedInquiries_eraseIdx hx
    refine ⟨[], [(Pool.Supply.loan s).signal.connection], hretains.turnover,
      List.perm_iff_count.mpr fun k => ?_, List.perm_iff_count.mpr fun k => ?_, .inl ⟨rfl, rfl⟩,
      fun h => ⟨rfl, h⟩⟩
    · have hunopened := hunopened.count_eq k
      simp only [unopenedIds, Inquiry.unopened?, hs, Option.toList_some, List.count_append,
        List.count_nil] at hunopened ⊢
      omega
    · have hasked := hasked.count_eq k
      simp only [boundIds, Inquiry.loan, List.count_append, List.count_cons, List.count_nil]
        at hasked ⊢
      omega

theorem transfers_ask {i : Nat} {q : Pool.Query} (hx : w.inquiries[i]? = some (.asking q))
    (topic : String) : Transfers w (w.ask i q topic) [] [] [] [] := by
  have hretains := w.env.retains_partitionCount q.connection topic
  have hasked : (askedIds (w.ask i q topic).inquiries).Perm (askedIds w.inquiries) :=
    askedIds_set hx rfl
  have hunopened : (unopenedInquiries (w.ask i q topic).inquiries).Perm
      (unopenedInquiries w.inquiries) := by
    have h := unopenedInquiries_set hx (show (Inquiry.answered q (Pool.isFatal
      (w.env.partitionCount q.connection topic).2)).unopened? = none from rfl)
    rwa [Inquiry.unopened?, Option.toList_none, List.append_nil] at h
  refine ⟨hretains.turnover, ?_, ?_, .inl ⟨rfl, rfl⟩, fun h => ⟨rfl, h⟩⟩
  · simp only [unopenedIds, List.append_nil]
    exact hunopened.append_left _
  · simp only [boundIds, List.append_nil]
    exact hasked.append_left _

theorem transfers_putBack (h : Owned w.pool w.phases w.inquiries) {i : Nat} {q : Pool.Query}
    {faulty : Bool} (hx : w.inquiries[i]? = some (.answered q faulty)) :
    ∃ closed, Transfers w (w.putBack i q faulty) [] [] closed [] := by
  have hid : q.connection.id = q.connection.signal.connection :=
    Connection.Serves.id (h.inquiries _ (List.mem_of_getElem? hx))
  have hasked := askedIds_eraseIdx hx
  have hunopened := unopenedInquiries_eraseIdx hx
  simp only [Inquiry.unopened?, Option.toList_none, List.append_nil] at hunopened
  have hrest : ∀ env p,
      (World.unopenedIds ⟨env, p, w.phases, w.inquiries.eraseIdx i, w.history⟩ ++ [] ++ []).Perm
        (w.unopenedIds ++ []) := by
    intro env p
    simp only [unopenedIds, List.append_nil]
    exact hunopened.append_left _
  unfold putBack Pool.returnQuery
  obtain hq | ⟨-, -, hq⟩ := w.pool.endQuery_cases q faulty
  · rw [hq, Pool.unbind_eq]
    refine ⟨[q.connection.id], w.env.turnover_disconnect q.connection .closed (by simp),
      hrest .., List.perm_iff_count.mpr fun k => ?_, .inl ⟨rfl, rfl⟩, fun h => ⟨rfl, h⟩⟩
    have hasked := hasked.count_eq k
    simp only [boundIds, Inquiry.loan, hid, List.count_append, List.count_cons, List.count_nil]
      at hasked ⊢
    show List.count k w.pool.idleIds + List.count k w.pool.lentIds + _ + _ + 0 = _
    omega
  · rw [hq]
    refine ⟨[], (Environment.Retains.refl w.env).turnover, hrest ..,
      List.perm_iff_count.mpr fun k => ?_, .inl ⟨rfl, rfl⟩, fun h => ⟨rfl, h⟩⟩
    have hasked := hasked.count_eq k
    simp only [boundIds, Inquiry.loan, Pool.idleIds, List.map_append, List.map_cons, List.map_nil,
      hid, List.count_append, List.count_cons, List.count_nil] at hasked ⊢
    show _ + List.count k w.pool.lentIds + _ + 0 + 0 = _
    omega

theorem transfers_of_step (hstep : Step w w') (h : Owned w.pool w.phases w.inquiries) :
    ∃ given opened closed failed, Transfers w w' given opened closed failed := by
  cases deals_of_step hstep with
  | proceeds hp => exact ⟨_, _, _, _, transfers_proceeds hp⟩
  | evictIdle => exact ⟨_, _, _, _, transfers_expire (w.env.turnover_disconnectAll _ _ (by simp))⟩
  | close => exact ⟨_, _, _, _, transfers_close w⟩
  | request sink =>
    obtain ⟨given, closed, ht⟩ := transfers_request h sink
    exact ⟨_, _, _, _, ht⟩
  | supply hph =>
    obtain ⟨opened, failed, ht⟩ := transfers_supply h hph
    exact ⟨_, _, _, _, ht⟩
  | @abandon id ph l hph hl =>
    exact ⟨_, _, _, _, transfers_phase hph (Phase.unopened?_of_lease hl) rfl
      (l.retains_abandon w.env) w.history⟩
  | checkIn hph =>
    obtain ⟨closed, ht⟩ := transfers_checkIn h hph
    exact ⟨_, _, _, _, ht⟩
  | inquire =>
    obtain ⟨given, ht⟩ := transfers_inquire h
    exact ⟨_, _, _, _, ht⟩
  | connect hx =>
    obtain ⟨opened, failed, ht⟩ := transfers_connect h hx
    exact ⟨_, _, _, _, ht⟩
  | ask hx topic => exact ⟨_, _, _, _, transfers_ask hx topic⟩
  | putBack hx =>
    obtain ⟨closed, ht⟩ := transfers_putBack h hx
    exact ⟨_, _, _, _, ht⟩

theorem fits_step (hstep : Step w w') (h : Owned w.pool w.phases w.inquiries)
    (hfits : w.pool.Fits) : w'.pool.Fits := by
  cases deals_of_step hstep with
  | proceeds hp => cases hp <;> exact hfits
  | evictIdle => exact hfits.takeExpired w.env.now
  | close => exact hfits.close
  | request sink =>
    unfold request
    split
    · rename_i env p hr
      obtain rfl | rfl := Pool.startObtain_none hr
      · exact hfits
      · exact hfits.takeExpired w.env.now
    · rename_i env p o hr
      obtain ⟨hopen, ho⟩ := Pool.startObtain_some hr
      exact (hfits.takeExpired w.env.now).offer ((w.pool.same_takeExpired _).2.2.trans hopen) ho
  | supply hph =>
    obtain hended | ⟨loan, hloan, rfl, -, -⟩ := h.phases _ _ hph
    · cases hended
    unfold supply
    split
    · rename_i env p l hr
      obtain ⟨rfl, -⟩ := Pool.finishObtain_ok hr
      exact hfits
    · rename_i env p e hr
      obtain ⟨now, rfl⟩ := Pool.finishObtain_error hr
      exact hfits.takeBack hloan none true now
  | abandon hph hl => exact hfits
  | @checkIn id c discard hph =>
    obtain hended | ⟨loan, hloan, -⟩ := h.phases _ _ hph
    · cases hended
    rw [(checkIn_frame w id c discard).2.1, w.pool.checkIn_pool]
    exact hfits.takeBack hloan (some c) discard w.env.now
  | inquire =>
    unfold inquire
    obtain hs | ⟨hopen, hs⟩ := w.pool.supplyQuery_cases
    · rw [hs]
      exact hfits
    · rw [hs]
      exact hfits.supplyAny hopen
  | connect hx =>
    unfold connect
    split <;> exact hfits
  | ask hx topic => exact hfits
  | @putBack i q faulty hx =>
    show (w.pool.returnQuery w.env q faulty).2.Fits
    rw [w.pool.returnQuery_pool]
    exact hfits.endQuery q faulty

theorem accounted_step (hstep : Step w w') (h : Owned w.pool w.phases w.inquiries)
    (ha : Accounted w) : Accounted w' := by
  obtain ⟨given, opened, closed, failed, ht⟩ := transfers_of_step hstep h
  exact ha.transfer ht (fits_step hstep h ha.fits)

theorem accounted_start (maxPollRecords now : Nat) (s : Subscription) (reader : RecordReader)
    (settings : IntakeSettings) : Accounted (start maxPollRecords now s reader settings) where
  fits := ⟨Nat.zero_le _, fun _ => rfl⟩
  places _ := rfl
  once _ := ⟨Nat.zero_le _, fun _ => rfl⟩
  created := rfl
  ended := rfl

/-- The pool, the leases and the questions agree about the connections, and none is lost. -/
def Balanced (w : World) : Prop := Owned w.pool w.phases w.inquiries ∧ Accounted w

theorem balanced_start (maxPollRecords now : Nat) (s : Subscription) (reader : RecordReader)
    (settings : IntakeSettings) : Balanced (start maxPollRecords now s reader settings) :=
  ⟨.start 0 s reader settings now, accounted_start ..⟩

theorem balanced_run (h : Balanced w) (as : List Action) : Balanced (w.run as) :=
  run_induction (fun _ _ hstep h => ⟨owned_step hstep h.1, accounted_step hstep h.1 h.2⟩) h as

theorem balanced_performAll (h : Balanced w) (ops : List Operation) :
    Balanced (w.performAll ops) := by
  obtain ⟨as, he⟩ := performAll_run w ops
  exact he ▸ balanced_run h as

/-! ## After the pool was closed -/

/-- Nothing is going to be opened any more. -/
structure Dormant (w : World) : Prop where
  closed : w.pool.closed = true
  unopened : w.unopenedIds = []

theorem dormant_step (hstep : Step w w') (h : Owned w.pool w.phases w.inquiries)
    (hd : Dormant w) :
    Dormant w' ∧ openedIds w'.env.journal = openedIds w.env.journal := by
  obtain ⟨gs, os, cs, fs, ht⟩ := transfers_of_step hstep h
  obtain ⟨rfl, hclosed⟩ := ht.shut hd.closed
  have hunopened := ht.unopened
  rw [hd.unopened, List.append_nil] at hunopened
  obtain ⟨hrest, -⟩ := List.append_eq_nil_iff.mp hunopened.eq_nil
  obtain ⟨hnone, rfl⟩ := List.append_eq_nil_iff.mp hrest
  exact ⟨⟨hclosed, hnone⟩, ht.turnover.opened⟩

theorem dormant_run (h : Owned w.pool w.phases w.inquiries) (hd : Dormant w) (as : List Action) :
    Dormant (w.run as) ∧ openedIds (w.run as).env.journal = openedIds w.env.journal := by
  have hrun : Owned (w.run as).pool (w.run as).phases (w.run as).inquiries ∧ Dormant (w.run as) ∧
      openedIds (w.run as).env.journal = openedIds w.env.journal :=
    run_induction
      (P := fun w' => Owned w'.pool w'.phases w'.inquiries ∧ Dormant w' ∧
        openedIds w'.env.journal = openedIds w.env.journal)
      (fun _ _ hstep h' =>
        have hd' := dormant_step hstep h'.1 h'.2.1
        ⟨owned_step hstep h'.1, hd'.1, hd'.2.trans h'.2.2⟩)
      ⟨h, hd, rfl⟩ as
  exact hrun.2

theorem AtRest.unopenedIds (h : AtRest w) : w.unopenedIds = [] := by
  rw [World.unopenedIds, h.inquiries, unopenedInquiries, List.filterMap_nil, List.append_nil,
    unopenedLeases, List.filterMap_eq_nil_iff]
  intro e he
  obtain hended | ⟨l, hl⟩ := h.phases e.1 e.2 (SortedMap.find?_of_mem h.sorted he)
  · rw [hended]
    rfl
  · exact Phase.unopened?_of_lease hl

/-! ## Between operations -/

/-- Between operations every connection that was opened is idle, lent, or closed. -/
theorem places_atRest (h : Balanced w) (hrest : AtRest w) :
    (openedIds w.env.journal).Perm
      (w.pool.idleIds ++ w.pool.lentIds ++ closedIds w.env.journal) := by
  refine List.perm_iff_count.mpr fun k => ?_
  have hk := h.2.places k
  simp only [hrest.unopenedIds, boundIds, hrest.inquiries, askedIds, List.map_nil,
    List.append_nil, List.count_nil, List.count_append] at hk ⊢
  omega

theorem nodup_opened (h : Balanced w) (hrest : AtRest w) : (openedIds w.env.journal).Nodup := by
  refine List.nodup_iff_count.mpr fun k => ?_
  have hk := h.2.places k
  have honce := (h.2.once k).1
  rw [hrest.unopenedIds, List.count_nil] at hk
  omega

/-- Each lease that is out has the connection that is recorded for it. -/
theorem held_atRest (h : Owned w.pool w.phases w.inquiries) (hrest : AtRest w) {id : LeaseId}
    {loan : Loan} (hloan : w.pool.outstanding.find? id = some loan) :
    ∃ ph l, w.phases.find? id = some ph ∧ ph.lease? = some l ∧
      l.connection.id = loan.signal.connection := by
  obtain ⟨ph, hph, hne⟩ := h.held id loan hloan
  obtain hended | ⟨l, hl⟩ := hrest.phases id ph hph
  · exact absurd hended hne
  obtain hended | ⟨loan', hloan', hserves⟩ := h.phases id ph hph
  · exact absurd hended hne
  obtain rfl : loan = loan' := Option.some.inj (hloan.symm.trans hloan')
  exact ⟨ph, l, hph, hl, (hserves.of_lease hl).id⟩

theorem settings_performAll (w : World) (ops : List Operation) :
    (w.performAll ops).pool.settings = w.pool.settings := by
  obtain ⟨as, he⟩ := performAll_run w ops
  exact he ▸ (sameTerms_run w as).settings

theorem openedIds_close (w : World) :
    openedIds (w.perform .close).env.journal = openedIds w.env.journal :=
  (transfers_close w).turnover.opened

/-- Once the pool is closed nothing is idle and nothing is opened, and what is not lent is
closed. -/
theorem closed_performAll (h : Balanced w) (hrest : AtRest w) (hclosed : w.pool.closed = true)
    (ops : List Operation) :
    (w.performAll ops).pool.idle = [] ∧
      openedIds (w.performAll ops).env.journal = openedIds w.env.journal ∧
      ((w.performAll ops).pool.outstanding = [] →
        (closedIds (w.performAll ops).env.journal).Perm (openedIds w.env.journal)) := by
  have hbalanced := balanced_performAll h ops
  have hrest' := atRest_performAll hrest ops
  obtain ⟨hdormant, hopened⟩ : Dormant (w.performAll ops) ∧
      openedIds (w.performAll ops).env.journal = openedIds w.env.journal := by
    obtain ⟨as, he⟩ := performAll_run w ops
    exact he ▸ dormant_run h.1 ⟨hclosed, hrest.unopenedIds⟩ as
  have hidle := hbalanced.2.fits.shut hdormant.closed
  refine ⟨hidle, hopened, fun hout => ?_⟩
  have hplaces := places_atRest hbalanced hrest'
  rw [Pool.idleIds, hidle, Pool.lentIds, hout, hopened] at hplaces
  exact hplaces.symm

/-- Between operations there are no more leases and connections than there may be.  Every connection
that was opened is with the pool, with one lease that is out, or was closed, once, and the counters
say so too.  After the pool was closed none is idle or opened any more, and when the last lease is
back all are closed. -/
theorem connections_accounted_for (maxPollRecords now : Nat) (s : Subscription)
    (reader : RecordReader) (settings : IntakeSettings) (ops : List Operation) :
    let w := (start maxPollRecords now s reader settings).performAll ops
    let count := fun why => w.env.metrics.count (.connectionEvents why)
    w.pool.outstanding.length ≤ settings.pool.maxLeases ∧
      w.pool.idle.length + w.pool.outstanding.length ≤ settings.pool.maxLeases ∧
      (openedIds w.env.journal).Nodup ∧
      (openedIds w.env.journal).Perm
        (w.pool.idleIds ++ w.pool.lentIds ++ closedIds w.env.journal) ∧
      (∀ id loan, w.pool.outstanding.find? id = some loan →
        ∃ ph l, w.phases.find? id = some ph ∧ ph.lease? = some l ∧
          l.connection.id = loan.signal.connection) ∧
      count .created = w.pool.idle.length + w.pool.outstanding.length +
        (count .evicted + count .displaced + count .discarded + count .closed) ∧
      ∀ later, let w' := (w.perform .close).performAll later
        w'.pool.idle = [] ∧ openedIds w'.env.journal = openedIds w.env.journal ∧
          (w'.pool.outstanding = [] →
            (closedIds w'.env.journal).Perm (openedIds w.env.journal)) := by
  intro w count
  have hrest : AtRest w := atRest_performAll (atRest_start ..) ops
  have hbalanced : Balanced w := balanced_performAll (balanced_start ..) ops
  have hroom : w.pool.openConnections ≤ settings.pool.maxLeases := by
    have h := hbalanced.2.fits.room
    rw [Pool.maxLeases, settings_performAll] at h
    exact h
  rw [Pool.openConnections] at hroom
  have hplaces := places_atRest hbalanced hrest
  refine ⟨by omega, hroom, nodup_opened hbalanced hrest, hplaces,
    fun id loan => held_atRest hbalanced.1 hrest, ?_, fun later => ?_⟩
  · have hlength := hplaces.length_eq
    have hended := hbalanced.2.ended
    simp only [List.length_append, Pool.idleIds, Pool.lentIds, List.length_map] at hlength
    rw [Metrics.ended] at hended
    show w.env.metrics.count _ = _
    rw [hbalanced.2.created, hlength, hended]
  · rw [← openedIds_close w]
    exact closed_performAll (balanced_performAll hbalanced [.close]) (atRest_perform hrest .close)
      w.pool.closed_shut later

/-- One connection is lent, one could not be opened, and one was opened only to ask. -/
def lendAndAsk : List Operation :=
  [.obtain "s", .onCluster (.failConnects 1), .obtain "s", .partitionCount "t"]

/-- The connection that was opened only to ask is closed, and the other one when it comes back. -/
theorem connections_accounted_for_lendAndAsk :
    let w := (start 10 0 (.partitions [("t", [0, 1, 2])]) Record.read {}).performAll lendAndAsk
    let w' := (w.perform .close).performAll [.release 1, .obtain "s"]
    w.pool.idle.length + w.pool.outstanding.length ≤ 4 ∧ openedIds w.env.journal = [3, 1] ∧
      w'.pool.outstanding = [] ∧ (closedIds w'.env.journal).Perm [3, 1] := by
  intro w w'
  obtain ⟨-, hroom, -, -, -, -, hlater⟩ :=
    connections_accounted_for 10 0 (.partitions [("t", [0, 1, 2])]) Record.read {} lendAndAsk
  obtain ⟨-, -, hclosed⟩ := hlater [.release 1, .obtain "s"]
  have hopened : openedIds w.env.journal = [3, 1] := by decide +kernel
  have hout : w'.pool.outstanding = [] := by
    have h : w'.pool.outstanding.isEmpty = true := by decide +kernel
    exact List.isEmpty_iff.mp h
  exact ⟨hroom, hopened, hout, hopened ▸ hclosed hout⟩

end World
end RecordIntake
