import RecordIntake.Proofs.Dealing
import RecordIntake.Proofs.Ownership

/-!
Which connections the changes of a pool's bookkeeping open and close.  A connection that leaves the
pool's hands is lent, used to ask, or closed, and is counted under the reason for that.
-/
namespace RecordIntake

/-- The connections that were counted as closed, for whatever reason. -/
def Metrics.ended (m : Metrics) : Nat :=
  m.count (.connectionEvents .evicted) + m.count (.connectionEvents .displaced) +
    m.count (.connectionEvents .discarded) + m.count (.connectionEvents .closed)

/-! ## Opening and closing -/

namespace Environment

/-- Between the two environments connections were opened and closed, and counted. -/
structure Turnover (env env' : Environment) (os cs : List ConnectionId) : Prop where
  opened : openedIds env'.journal = os ++ openedIds env.journal
  closed : (closedIds env'.journal).Perm (cs ++ closedIds env.journal)
  created : env'.metrics.count (.connectionEvents .created) =
    env.metrics.count (.connectionEvents .created) + os.length
  ended : env'.metrics.ended = env.metrics.ended + cs.length

theorem Retains.turnover {env env' : Environment} (h : Retains env env') :
    Turnover env env' [] [] := by
  refine ⟨h.opened, .of_eq h.closed, h.counts .created, ?_⟩
  unfold Metrics.ended
  rw [h.counts, h.counts, h.counts, h.counts]
  rfl

theorem Turnover.trans {a b c : Environment} {os os' cs cs' : List ConnectionId}
    (h : Turnover a b os cs) (h' : Turnover b c os' cs') :
    Turnover a c (os' ++ os) (cs' ++ cs) where
  opened := by rw [h'.opened, h.opened, List.append_assoc]
  closed := by
    rw [List.append_assoc]
    exact h'.closed.trans (h.closed.append_left cs')
  created := by
    rw [h'.created, h.created, List.length_append]
    omega
  ended := by
    rw [h'.ended, h.ended, List.length_append]
    omega

theorem Retains.turnover_trans {a b c : Environment} {os cs : List ConnectionId}
    (h : Retains a b) (h' : Turnover b c os cs) : Turnover a c os cs := by
  have hall := h.turnover.trans h'
  rwa [List.append_nil, List.append_nil] at hall

theorem turnover_disconnect (env : Environment) (c : Connection) (why : ConnectionEvent)
    (hwhy : why ≠ .created) : Turnover env (env.disconnect c why) [] [c.id] where
  opened := rfl
  closed := .refl _
  created := Metrics.count_add_of_ne (fun h => hwhy (Counter.connectionEvents.inj h)) 1 env.metrics
  ended := by
    show (env.metrics.add _ 1).ended = _
    simp only [Metrics.ended, Metrics.count_add, Counter.connectionEvents.injEq]
    cases why with
    | created => exact absurd rfl hwhy
    | evicted | displaced | discarded | closed => simp; omega

theorem turnover_disconnectAll (env : Environment) (cs : List Connection) (why : ConnectionEvent)
    (hwhy : why ≠ .created) : Turnover env (env.disconnectAll cs why) [] (cs.map (·.id)) := by
  induction cs generalizing env with
  | nil => exact (Retains.refl env).turnover
  | cons c cs ih =>
    have hall := (env.turnover_disconnect c why hwhy).trans (ih _)
    have hperm := List.perm_append_singleton c.id (cs.map (·.id))
    refine ⟨hall.opened, hall.closed.trans (hperm.append_right _), hall.created, ?_⟩
    rw [List.map_cons, ← hperm.length_eq]
    exact hall.ended

end Environment

namespace Pool

open Environment (Turnover)

variable {p p' : Pool} {env env' : Environment}

theorem turnover_openConnection_ok {signal : Signal} {partition : Option Partition}
    {c : Connection} (h : p.openConnection env signal partition = (env', .ok c)) :
    Turnover env env' [signal.connection] [] := by
  unfold openConnection at h
  split at h
  · rename_i env₁ c' he
    cases h
    simp only [Environment.connect, Prod.mk.injEq] at he
    obtain ⟨rfl, hresult⟩ := he
    refine ⟨?_, .refl _, ?_, ?_⟩
    · cases hr : env.cluster.connect.2 with
      | error e =>
        rw [hr] at hresult
        cases hresult
      | ok u => rfl
    · exact Metrics.count_add ..
    · show (env.metrics.add _ 1).ended = _
      simp [Metrics.ended, Metrics.count_add]
  · cases h

theorem retains_openConnection_error {signal : Signal} {partition : Option Partition}
    {e : IntakeError} (h : p.openConnection env signal partition = (env', .error e)) :
    env.Retains env' := by
  unfold openConnection at h
  split at h
  · cases h
  · rename_i env₁ e' he
    cases h
    simp only [Environment.connect, Prod.mk.injEq] at he
    obtain ⟨rfl, hresult⟩ := he
    refine ⟨?_, rfl, fun _ => rfl, Nat.le_refl _⟩
    cases hr : env.cluster.connect.2 with
    | error e => rfl
    | ok u =>
      rw [hr] at hresult
      cases hresult

/-- What is opened for a supply is what it says has still to be opened. -/
theorem turnover_supplyConnection_ok {s : Supply} {c : Connection}
    (h : Supply.connection p env s = (env', .ok c)) :
    Turnover env env' (Supply.unopened? s).toList [] := by
  cases s with
  | idle i =>
    cases h
    exact (Environment.Retains.refl env).turnover
  | fresh signal partition => exact turnover_openConnection_ok h

theorem turnover_query_ok {s : Supply} {q : Query} (h : Supply.query p env s = (env', .ok q)) :
    Turnover env env' (Supply.unopened? s).toList [] := by
  cases s with
  | idle i =>
    cases h
    exact (Environment.Retains.refl env).turnover
  | fresh signal partition =>
    unfold Supply.query at h
    dsimp only at h
    split at h
    · rename_i env₁ c he
      cases h
      exact turnover_openConnection_ok he
    · cases h

theorem query_error {s : Supply} {e : IntakeError}
    (h : Supply.query p env s = (env', .error e)) :
    env.Retains env' ∧ Supply.unopened? s = some (Supply.loan s).signal.connection := by
  cases s with
  | idle i => cases h
  | fresh signal partition =>
    unfold Supply.query at h
    dsimp only at h
    split at h
    · cases h
    · rename_i env₁ e' he
      cases h
      exact ⟨retains_openConnection_error he, rfl⟩

theorem finishObtain_error_env {o : Offer} {sink : String} {e : IntakeError}
    (h : p.finishObtain env o sink = (env', p', .error e)) :
    env.Retains env' ∧ Supply.unopened? o.supply = some (Supply.loan o.supply).signal.connection ∧
      p' = (p.takeBack o.lease none true env'.now).1 := by
  unfold finishObtain at h
  split at h
  · cases h
  · rename_i env₁ e' he
    cases h
    cases hs : o.supply with
    | idle i =>
      rw [hs] at he
      cases he
    | fresh signal partition =>
      rw [hs] at he
      refine ⟨(retains_openConnection_error he).trans (retains_gaugeOutstanding _ env₁), rfl, ?_⟩
      exact p.checkIn_pool env₁ o.lease none true

theorem turnover_finishObtain_ok {o : Offer} {sink : String} {l : Lease}
    (h : p.finishObtain env o sink = (env', p', .ok l)) :
    Turnover env env' (Supply.unopened? o.supply).toList [] := by
  unfold finishObtain at h
  split at h
  · rename_i env₁ c he
    cases h
    exact turnover_supplyConnection_ok he
  · cases h

theorem turnover_startObtain_none (h : p.startObtain env = (env', p', none)) :
    env' = env ∧ p' = p ∨
      p' = (p.takeExpired env.now).1 ∧
        Turnover env env' [] ((p.takeExpired env.now).2.map (·.id)) := by
  unfold startObtain at h
  split at h
  · cases h
    exact .inl ⟨rfl, rfl⟩
  · split at h
    rename_i p₁ expired he
    split at h
    · rename_i p₂ ho
      cases h
      rw [he]
      refine .inr ⟨offer_eq_none ho, ?_⟩
      exact (env.turnover_disconnectAll expired .evicted (by simp)).trans
        (Environment.retains_count _ (by simp)).turnover
    · cases h

theorem turnover_startObtain_some {o : Offer} (h : p.startObtain env = (env', p', some o)) :
    Turnover env env' []
      (o.displaced.toList.map (·.id) ++ (p.takeExpired env.now).2.map (·.id)) := by
  unfold startObtain at h
  split at h
  · cases h
  · split at h
    rename_i p₁ expired he
    split at h
    · cases h
    · rename_i p₂ o' ho
      cases h
      rw [he]
      have hexpired := (p'.retains_gaugeOutstanding env).turnover_trans
        (Environment.turnover_disconnectAll _ expired .evicted (by simp))
      exact hexpired.trans
        (Environment.turnover_disconnectAll _ o.displaced.toList .displaced (by simp))

theorem retains_checkIn_kept (env : Environment) {lease : LeaseId} {loan : Loan}
    (hloan : p.outstanding.find? lease = some loan) (c : Connection) {discard : Bool}
    (hd : (discard || p.closed) = false) :
    env.Retains (p.checkIn env lease (some c) discard).1 := by
  unfold checkIn
  rw [takeBack_kept hloan c hd]
  exact (retains_gaugeOutstanding _ env).trans (Environment.retains_lower _ c.signal)

theorem turnover_checkIn_rejected (env : Environment) {lease : LeaseId} {loan : Loan}
    (hloan : p.outstanding.find? lease = some loan) (c : Connection) {discard : Bool}
    (hd : (discard || p.closed) = true) :
    Turnover env (p.checkIn env lease (some c) discard).1 [] [c.id] := by
  unfold checkIn
  rw [takeBack_rejected hloan c hd]
  refine (retains_gaugeOutstanding _ env).turnover_trans
    (Environment.turnover_disconnect _ c _ ?_)
  cases discard <;> simp

/-! ## Numbers of idle connections -/

/-- The number that has still to be opened for a supply is the next one. -/
theorem Draws.unopened {s : Supply} (h : Draws p p' s) :
    (Supply.unopened? s).toList = [] ∧ p'.lastConnection = p.lastConnection ∨
      (Supply.unopened? s).toList = [p.lastConnection + 1] ∧
        p'.lastConnection = p.lastConnection + 1 := by
  cases h with
  | idle => exact .inl ⟨rfl, rfl⟩
  | fresh => exact .inr ⟨rfl, rfl⟩

theorem idleIds_takeExpired (p : Pool) (now : Nat) :
    p.idleIds.Perm ((p.takeExpired now).1.idleIds ++ (p.takeExpired now).2.map (·.id)) := by
  rw [takeExpired_eq]
  have hsplit := (List.filter_append_perm (p.isExpired now) p.idle).map (·.connection.id)
  rw [List.map_append] at hsplit
  rw [List.map_map]
  exact hsplit.symm.trans List.perm_append_comm

theorem makeRoom_idleIds (p : Pool) :
    p.idleIds.Perm (p.makeRoom.1.idleIds ++ p.makeRoom.2.toList.map (·.id)) := by
  unfold makeRoom
  split
  · simp
  · split
    · simp
    · rename_i i others h
      rw [unbind_eq]
      exact ((pickOldest_perm h).map (·.connection.id)).trans (List.perm_append_singleton _ _).symm

/-- What a supply takes out is an idle connection, or has still to be opened; what is displaced was
idle too. -/
theorem supplyPartition_idleIds {s : Supply} {displaced : Option Connection}
    (hid : ∀ i ∈ p.idle, i.connection.id = i.connection.signal.connection)
    (h : p.supplyPartition = (p', some (s, displaced))) :
    (p.idleIds ++ (Supply.unopened? s).toList).Perm
      ((Supply.loan s).signal.connection :: (p'.idleIds ++ displaced.toList.map (·.id))) := by
  unfold supplyPartition at h
  split at h
  · split at h
    · cases h
    · rename_i u rest hu
      have hroom := makeRoom_idleIds { p with unclaimed := rest }
      cases h
      exact (List.perm_append_singleton _ _).trans (hroom.cons _)
  · split at h
    · cases h
    · rename_i i others hi
      have hperm := pickOldest_perm hi
      have hids := hperm.map (·.connection.id)
      rw [List.map_cons, hid i (hperm.mem_iff.mpr List.mem_cons_self)] at hids
      cases h
      show (p.idleIds ++ []).Perm (_ :: (_ ++ []))
      rw [List.append_nil, List.append_nil]
      exact hids

theorem supplyAny_idleIds (p : Pool)
    (hid : ∀ i ∈ p.idle, i.connection.id = i.connection.signal.connection) :
    (p.idleIds ++ (Supply.unopened? p.supplyAny.2).toList).Perm
      ((Supply.loan p.supplyAny.2).signal.connection :: p.supplyAny.1.idleIds) := by
  unfold supplyAny
  split
  · rename_i i others h
    have hperm : p.idle.Perm (i :: others) := by
      rw [pickNewest_eq h]
      exact List.perm_append_comm
    have hids := hperm.map (·.connection.id)
    rw [List.map_cons, hid i (hperm.mem_iff.mpr List.mem_cons_self)] at hids
    show (p.idleIds ++ []).Perm _
    rw [List.append_nil]
    exact hids
  · exact List.perm_append_singleton _ _

theorem offer_idleIds {o : Offer}
    (hid : ∀ i ∈ p.idle, i.connection.id = i.connection.signal.connection)
    (h : p.offer = (p', some o)) :
    (p.idleIds ++ (Supply.unopened? o.supply).toList).Perm
      ((Supply.loan o.supply).signal.connection ::
        (p'.idleIds ++ o.displaced.toList.map (·.id))) := by
  unfold offer at h
  split at h
  · cases h
  · split at h
    rename_i p₁ found hfound
    split at h
    · cases h
    · rename_i s displaced
      have hids : (p.idleIds ++ (Supply.unopened? s).toList).Perm
          ((Supply.loan s).signal.connection ::
            (p₁.idleIds ++ displaced.toList.map (·.id))) := by
        split at hfound
        · exact supplyPartition_idleIds hid hfound
        · cases hfound
          rw [Option.toList_none, List.map_nil, List.append_nil]
          exact p.supplyAny_idleIds hid
      cases h
      exact hids

theorem offer_lentIds {o : Offer} (hnext : p.outstanding.find? (p.lastLease + 1) = none)
    (h : p.offer = (p', some o)) :
    p'.lentIds.Perm ((Supply.loan o.supply).signal.connection :: p.lentIds) := by
  obtain ⟨p₁, -, -, rfl⟩ := offer_eq_some h
  exact p.lentIds_insert (Supply.loan o.supply) hnext

/-- The number that has still to be opened for an offer is the next one. -/
theorem offer_unopened {o : Offer} (h : p.offer = (p', some o)) :
    (Supply.unopened? o.supply).toList = [] ∧ p'.lastConnection = p.lastConnection ∨
      (Supply.unopened? o.supply).toList = [p.lastConnection + 1] ∧
        p'.lastConnection = p.lastConnection + 1 := by
  obtain ⟨p₁, hdraws, -, rfl⟩ := offer_eq_some h
  exact hdraws.unopened

theorem lentIds_takeBack {lease : LeaseId} {loan : Loan}
    (hloan : p.outstanding.find? lease = some loan) (c : Option Connection) (discard : Bool)
    (now : Nat) :
    p.lentIds.Perm (loan.signal.connection :: (p.takeBack lease c discard now).1.lentIds) := by
  rw [lentIds_congr (takeBack_regains hloan c discard now).outstanding]
  exact p.lentIds_erase hloan

theorem idleIds_takeBack_missing (p : Pool) (lease : LeaseId) (discard : Bool) (now : Nat) :
    (p.takeBack lease none discard now).1.idleIds = p.idleIds := by
  simp only [takeBack, unbind_eq]
  rfl

theorem idleIds_takeBack_rejected (p : Pool) (lease : LeaseId) (c : Connection) {discard : Bool}
    (hd : (discard || p.closed) = true) (now : Nat) :
    (p.takeBack lease (some c) discard now).1.idleIds = p.idleIds := by
  simp only [takeBack, hd, if_true, unbind_eq]
  rfl

theorem idleIds_takeBack_kept (p : Pool) (lease : LeaseId) (c : Connection) {discard : Bool}
    (hd : (discard || p.closed) = false) (now : Nat) :
    (p.takeBack lease (some c) discard now).1.idleIds = p.idleIds ++ [c.id] := by
  simp only [takeBack, hd, Bool.false_eq_true, if_false, idleIds, List.map_append, List.map_cons,
    List.map_nil]

/-! ## Room -/

/-- There are no more connections than there may be, and none that is idle once the pool is
closed. -/
structure Fits (p : Pool) : Prop where
  room : p.openConnections ≤ p.maxLeases
  shut : p.closed = true → p.idle = []

theorem Fits.takeExpired (h : p.Fits) (now : Nat) : (p.takeExpired now).1.Fits := by
  have hsub := p.sublist_takeExpired now
  rw [takeExpired_eq] at hsub ⊢
  refine ⟨Nat.le_trans (Nat.add_le_add_right hsub.length_le _) h.room, fun hclosed => ?_⟩
  rw [h.shut hclosed] at hsub ⊢
  rfl

theorem Fits.close (h : p.Fits) : p.shut.1.Fits := by
  unfold Pool.shut
  split
  · exact h
  · exact ⟨Nat.le_trans (Nat.add_le_add_right (Nat.zero_le _) _) h.room, fun _ => rfl⟩

theorem length_pickOldest {is others : List IdleConnection} {i : IdleConnection}
    (h : pickOldest is = some (i, others)) : is.length = others.length + 1 :=
  (pickOldest_perm h).length_eq

/-- As long as a lease may be issued, room can be made for it. -/
theorem makeRoom_room (p : Pool) (hout : p.outstanding.length < p.maxLeases)
    (hopen : p.openConnections ≤ p.maxLeases) : p.makeRoom.1.openConnections < p.maxLeases := by
  unfold makeRoom
  split
  · assumption
  · split
    · rename_i hnone
      rw [openConnections, pickOldest_eq_none hnone, List.length_nil, Nat.zero_add]
      exact hout
    · rename_i i others h
      have hlength := length_pickOldest h
      rw [unbind_eq]
      simp only [openConnections] at hopen ⊢
      omega

theorem supplyPartition_room {s : Supply} {displaced : Option Connection}
    (hout : p.outstanding.length < p.maxLeases) (hopen : p.openConnections ≤ p.maxLeases)
    (h : p.supplyPartition = (p', some (s, displaced))) : p'.openConnections < p.maxLeases := by
  unfold supplyPartition at h
  split at h
  · split at h
    · cases h
    · rename_i u rest hu
      have hroom := makeRoom_room { p with unclaimed := rest } hout hopen
      cases h
      exact hroom
  · split at h
    · cases h
    · rename_i i others hi
      have hlength := length_pickOldest hi
      cases h
      simp only [openConnections] at hopen ⊢
      omega

theorem supplyAny_room (hout : p.outstanding.length < p.maxLeases)
    (hopen : p.openConnections ≤ p.maxLeases) : p.supplyAny.1.openConnections < p.maxLeases := by
  unfold supplyAny
  split
  · rename_i i others h
    have hlength : p.idle.length = others.length + 1 := by
      rw [pickNewest_eq h, List.length_append, List.length_singleton]
    simp only [openConnections] at hopen ⊢
    omega
  · rename_i h
    have hnil : p.idle = [] := by
      unfold pickNewest at h
      split at h
      · rename_i hrev
        exact List.reverse_eq_nil_iff.mp hrev
      · cases h
    show p.idle.length + p.outstanding.length < _
    rw [hnil, List.length_nil, Nat.zero_add]
    exact hout

theorem length_insert_le (p : Pool) (id : LeaseId) (loan : Loan) :
    (p.outstanding.insert id loan).length ≤ p.outstanding.length + 1 := by
  have hperm := (SortedMap.insert_perm id loan p.outstanding).length_eq
  have herase := (SortedMap.erase_sublist id p.outstanding).length_le
  rw [List.length_cons] at hperm
  omega

theorem offer_room {o : Offer} (hopen : p.openConnections ≤ p.maxLeases)
    (h : p.offer = (p', some o)) : p'.openConnections ≤ p.maxLeases := by
  unfold offer at h
  split at h
  · cases h
  · rename_i hout
    split at h
    rename_i p₁ found hfound
    split at h
    · cases h
    · rename_i s displaced
      have hroom : p₁.openConnections < p.maxLeases := by
        split at hfound
        · exact supplyPartition_room (Nat.not_le.mp hout) hopen hfound
        · cases hfound
          exact supplyAny_room (Nat.not_le.mp hout) hopen
      have hlength := p₁.length_insert_le (p₁.lastLease + 1) (Supply.loan s)
      cases h
      simp only [openConnections] at hroom ⊢
      omega

theorem Fits.offer (h : p.Fits) (hopen : p.closed = false) {o : Offer}
    (ho : p.offer = (p', some o)) : p'.Fits := by
  have hroom := offer_room h.room ho
  obtain ⟨p₁, hdraws, -, rfl⟩ := offer_eq_some ho
  refine ⟨?_, fun hclosed => ?_⟩
  · show _ ≤ p₁.settings.pool.maxLeases
    rw [hdraws.sameTerms.settings]
    exact hroom
  · change p₁.closed = true at hclosed
    rw [hdraws.same.2.1, hopen] at hclosed
    cases hclosed

/-- Whoever is taken back makes room for the connection that comes back with it. -/
theorem Fits.takeBack (h : p.Fits) {lease : LeaseId} {loan : Loan}
    (hloan : p.outstanding.find? lease = some loan) (c : Option Connection) (discard : Bool)
    (now : Nat) : (p.takeBack lease c discard now).1.Fits := by
  have hlength := (SortedMap.perm_cons_erase hloan).length_eq
  rw [List.length_cons] at hlength
  have hroom := h.room
  simp only [openConnections, maxLeases] at hroom
  cases c with
  | none =>
    rw [takeBack_missing hloan, unbind_eq]
    refine ⟨?_, h.shut⟩
    simp only [openConnections, maxLeases]
    omega
  | some c =>
    cases hd : discard || p.closed with
    | true =>
      rw [takeBack_rejected hloan c hd, unbind_eq]
      refine ⟨?_, h.shut⟩
      simp only [openConnections, maxLeases]
      omega
    | false =>
      rw [takeBack_kept hloan c hd]
      refine ⟨?_, fun hclosed => ?_⟩
      · simp only [openConnections, maxLeases, List.length_append, List.length_singleton]
        omega
      · change p.closed = true at hclosed
        simp [hclosed] at hd

theorem Fits.supplyAny (h : p.Fits) (hopen : p.closed = false) : p.supplyAny.1.Fits := by
  have hdraws := p.supplyAny_draws
  obtain ⟨hout, hclosed, -⟩ := hdraws.same
  refine ⟨?_, fun hc => ?_⟩
  · have hidle : p.supplyAny.1.idle.length ≤ p.idle.length := by
      unfold Pool.supplyAny
      split
      · rename_i i others hi
        rw [pickNewest_eq hi, List.length_append]
        exact Nat.le_add_right ..
      · exact Nat.le_refl _
    have hroom := h.room
    simp only [openConnections, maxLeases, hdraws.sameTerms.settings, hout] at hroom ⊢
    omega
  · rw [hclosed, hopen] at hc
    cases hc

/-- A connection that was used to ask is kept only if there is room for it. -/
theorem Fits.endQuery (h : p.Fits) (q : Query) (faulty : Bool) :
    (p.endQuery q faulty).1.Fits := by
  simp only [Pool.endQuery]
  split
  · rw [unbind_eq]
    exact ⟨h.room, h.shut⟩
  · rename_i hkept
    simp only [Bool.or_eq_true, decide_eq_true_eq, not_or, Nat.not_le, Bool.not_eq_true] at hkept
    obtain ⟨⟨-, hopen⟩, hroom⟩ := hkept
    refine ⟨?_, fun hclosed => ?_⟩
    · simp only [openConnections, maxLeases, List.length_append, List.length_singleton]
        at hroom ⊢
      omega
    · exact absurd (hopen.symm.trans hclosed) (by simp)

end Pool

namespace World

variable {w w' : World}

/-! ## Leases that are out -/

/-- What a step can do to the leases that are out.  A lease gets the next number, and it ends when
it is taken back. -/
inductive Lends (w w' : World) : Prop where
  | same (hout : w'.pool.outstanding = w.pool.outstanding)
    (hlast : w'.pool.lastLease = w.pool.lastLease)
  | lend {p : Pool} {s : Supply} (hs : Pool.Draws (w.pool.takeExpired w.env.now).1 p s)
    (hout : w'.pool.outstanding =
      w.pool.outstanding.insert (w.pool.lastLease + 1) (Pool.Supply.loan s))
    (hlast : w'.pool.lastLease = w.pool.lastLease + 1)
  | back {id : LeaseId} (hout : w'.pool.outstanding = w.pool.outstanding.erase id)
    (hlast : w'.pool.lastLease = w.pool.lastLease) (hph : w'.phases.find? id = some .ended)

theorem lends_of_step (hstep : Step w w') (h : Owned w.pool w.phases w.inquiries) :
    Lends w w' := by
  obtain ⟨hout, hlast, -⟩ := w.pool.same_takeExpired w.env.now
  cases deals_of_step hstep with
  | proceeds hp => cases hp <;> exact .same rfl rfl
  | evictIdle => exact .same hout hlast
  | close => exact .same w.pool.same_shut.1 w.pool.same_shut.2.1
  | request sink =>
    unfold request
    split
    · rename_i env p hr
      obtain rfl | rfl := Pool.startObtain_none hr
      · exact .same rfl rfl
      · exact .same hout hlast
    · rename_i env p o hr
      obtain ⟨p₁, hdraws, -, rfl⟩ := Pool.offer_eq_some (Pool.startObtain_some hr).2
      refine .lend hdraws ?_ (congrArg (· + 1) hlast)
      show (w.pool.takeExpired w.env.now).1.outstanding.insert _ _ = _
      rw [hout, hlast]
  | @supply id o sink hph =>
    obtain hended | ⟨_, -, rfl, -, -⟩ := h.phases id _ hph
    · cases hended
    unfold supply
    split
    · rename_i env p l hr
      obtain ⟨rfl, -⟩ := Pool.finishObtain_ok hr
      exact .same rfl rfl
    · rename_i env p e hr
      obtain ⟨now, rfl⟩ := Pool.finishObtain_error hr
      obtain ⟨hout, hlast⟩ := w.pool.same_takeBack o.lease none true now
      exact .back hout hlast (SortedMap.find?_insert_self ..)
  | abandon hph hl => exact .same rfl rfl
  | @checkIn id c discard hph =>
    obtain ⟨hout, hlast⟩ := w.pool.same_takeBack id (some c) discard w.env.now
    rw [← w.pool.checkIn_pool] at hout hlast
    unfold checkIn
    dsimp only
    split
    · exact .back hout hlast (SortedMap.find?_insert_self ..)
    · exact .back hout hlast (SortedMap.find?_insert_self ..)
  | inquire =>
    unfold inquire
    obtain hs | ⟨-, hs⟩ := w.pool.supplyQuery_cases
    · rw [hs]
      exact .same rfl rfl
    · obtain ⟨hout, -, hlast⟩ := w.pool.supplyAny_draws.same
      rw [hs]
      exact .same hout hlast
  | connect hx =>
    unfold connect
    split <;> exact .same rfl rfl
  | ask hx topic => exact .same rfl rfl
  | @putBack i q faulty hx =>
    have hback := w.pool.endQuery_regains q faulty
    rw [← w.pool.returnQuery_pool w.env] at hback
    exact .same hback.outstanding hback.lastLease

end World
end RecordIntake
