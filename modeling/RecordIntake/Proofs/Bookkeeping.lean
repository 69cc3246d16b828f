import RecordIntake.Pool.State
import RecordIntake.Proofs.SortedMap

/-!
What each change of a pool's bookkeeping does to the partitions that the pool has to itself, those
of its idle connections and those that are unclaimed.  A supply takes at most one of them out,
giving a connection back puts one in, and everything else only moves them around.
-/
namespace RecordIntake

def IdleConnection.loan (i : IdleConnection) : Loan := ⟨i.connection.signal, i.partition⟩

/-- The partition of a connection that is given up, with the time since when it was not lent. -/
def IdleConnection.freed (i : IdleConnection) : Option Unclaimed :=
  i.partition.map fun q => ⟨q, i.since⟩

namespace Pool

/-- The partitions of the idle connections. -/
def idlePartitions (p : Pool) : List Partition := p.idle.filterMap (·.partition)

def unclaimedPartitions (p : Pool) : List Partition := p.unclaimed.map (·.partition)

/-- The partitions that are neither lent nor used for a query. -/
def free (p : Pool) : List Partition := p.idlePartitions ++ p.unclaimedPartitions

/-- The partitions of the leases that are out. -/
def lent (p : Pool) : List Partition := p.outstanding.filterMap (·.2.partition)

def idleIds (p : Pool) : List ConnectionId := p.idle.map (·.connection.id)

/-- The numbers of the connections that are lent, or opened for a lease. -/
def lentIds (p : Pool) : List ConnectionId := p.outstanding.map (·.2.signal.connection)

theorem filterMap_cons_toList {α β : Type} (f : α → Option β) (a : α) (as : List α) :
    (a :: as).filterMap f = (f a).toList ++ as.filterMap f := by
  cases h : f a with
  | none => simp [h]
  | some b => simp [h]

theorem lent_congr {p p' : Pool} (h : p'.outstanding = p.outstanding) : p'.lent = p.lent := by
  rw [lent, h]
  rfl

theorem lentIds_congr {p p' : Pool} (h : p'.outstanding = p.outstanding) :
    p'.lentIds = p.lentIds := by
  rw [lentIds, h]
  rfl

/-- Two pools that were built alike. -/
structure SameTerms (p p' : Pool) : Prop where
  id : p'.id = p.id
  subscription : p'.subscription = p.subscription
  reader : p'.reader = p.reader
  settings : p'.settings = p.settings

theorem SameTerms.refl (p : Pool) : SameTerms p p := ⟨rfl, rfl, rfl, rfl⟩

theorem SameTerms.trans {p q r : Pool} (h : SameTerms p q) (h' : SameTerms q r) : SameTerms p r :=
  ⟨h'.id.trans h.id, h'.subscription.trans h.subscription, h'.reader.trans h.reader,
    h'.settings.trans h.settings⟩

theorem SameTerms.lendsPartitions {p p' : Pool} (h : SameTerms p p') :
    p'.lendsPartitions = p.lendsPartitions := by
  unfold Pool.lendsPartitions
  rw [h.subscription]

theorem connectionSubscription_congr {p p' : Pool} (h : p'.subscription = p.subscription)
    (partition : Option Partition) :
    p'.connectionSubscription partition = p.connectionSubscription partition := by
  unfold connectionSubscription lendsPartitions
  rw [h]

/-! ## Giving connections up -/

theorem unbind_eq (p : Pool) (partition : Option Partition) (since : Nat) :
    p.unbind partition since =
      { p with unclaimed := p.unclaimed ++ (partition.map fun q => ⟨q, since⟩).toList } := by
  cases partition with
  | none => simp [unbind]
  | some q => rfl

theorem foldl_unbind (is : List IdleConnection) (p : Pool) :
    is.foldl (fun p i => p.unbind i.partition i.since) p =
      { p with unclaimed := p.unclaimed ++ is.filterMap IdleConnection.freed } := by
  induction is generalizing p with
  | nil => simp
  | cons i is ih =>
    rw [List.foldl_cons, ih, unbind_eq]
    cases h : i.partition with
    | none => simp [IdleConnection.freed, h]
    | some q => simp [IdleConnection.freed, h]

theorem filterMap_freed (is : List IdleConnection) :
    (is.filterMap IdleConnection.freed).map (·.partition) = is.filterMap (·.partition) := by
  induction is with
  | nil => rfl
  | cons i is ih =>
    cases h : i.partition with
    | none => simp [IdleConnection.freed, h, ih]
    | some q => simp [IdleConnection.freed, h, ih]

theorem free_unbind (p : Pool) (partition : Option Partition) (since : Nat) :
    (p.unbind partition since).free.Perm (partition.toList ++ p.free) := by
  cases partition with
  | none => exact .refl _
  | some q =>
    simp only [unbind, free, idlePartitions, unclaimedPartitions, List.map_append, List.map_cons,
      List.map_nil, Option.toList_some, ← List.append_assoc]
    exact List.perm_append_comm

/-- The idle connections whose time is over. -/
def isExpired (p : Pool) (now : Nat) (i : IdleConnection) : Bool :=
  p.settings.pool.idleTimeout ≤ now - i.since

theorem takeExpired_eq (p : Pool) (now : Nat) :
    p.takeExpired now =
      ({ p with
          idle := p.idle.filter fun i => !p.isExpired now i
          unclaimed :=
            p.unclaimed ++ (p.idle.filter (p.isExpired now)).filterMap IdleConnection.freed },
        (p.idle.filter (p.isExpired now)).map (·.connection)) := by
  simp only [takeExpired, List.partition_eq_filter_filter, foldl_unbind]
  rfl

theorem free_takeExpired (p : Pool) (now : Nat) : (p.takeExpired now).1.free.Perm p.free := by
  rw [takeExpired_eq]
  simp only [free, idlePartitions, unclaimedPartitions, List.map_append, filterMap_freed]
  have hsplit : (p.idle.filter (p.isExpired now) ++
      p.idle.filter fun i => !p.isExpired now i).Perm p.idle :=
    List.filter_append_perm _ p.idle
  have hparts := hsplit.filterMap (·.partition)
  rw [List.filterMap_append] at hparts
  refine List.perm_iff_count.mpr fun q => ?_
  have hcount := hparts.count_eq q
  simp only [List.count_append] at hcount ⊢
  omega

theorem sublist_takeExpired (p : Pool) (now : Nat) :
    (p.takeExpired now).1.idle.Sublist p.idle := by
  rw [takeExpired_eq]
  exact List.filter_sublist

theorem sameTerms_takeExpired (p : Pool) (now : Nat) : SameTerms p (p.takeExpired now).1 := by
  rw [takeExpired_eq]
  exact ⟨rfl, rfl, rfl, rfl⟩

theorem same_takeExpired (p : Pool) (now : Nat) :
    (p.takeExpired now).1.outstanding = p.outstanding ∧
      (p.takeExpired now).1.lastLease = p.lastLease ∧
      (p.takeExpired now).1.closed = p.closed := by
  rw [takeExpired_eq]
  exact ⟨rfl, rfl, rfl⟩

theorem same_shut (p : Pool) :
    p.shut.1.outstanding = p.outstanding ∧ p.shut.1.lastLease = p.lastLease ∧
      p.shut.1.lastConnection = p.lastConnection := by
  unfold shut
  split <;> exact ⟨rfl, rfl, rfl⟩

theorem closed_shut (p : Pool) : p.shut.1.closed = true := by
  unfold shut
  split
  · assumption
  · rfl

theorem lastConnection_takeExpired (p : Pool) (now : Nat) :
    (p.takeExpired now).1.lastConnection = p.lastConnection := by
  rw [takeExpired_eq]

/-! ## Supplies -/

/-- The connection that a supply takes out of the pool, if it does. -/
def Supply.connection? : Supply → Option Connection
  | .idle i => some i.connection
  | .fresh _ _ => none

/-- The number of the connection that a supply has still to open, if it does. -/
def Supply.unopened? : Supply → Option ConnectionId
  | .idle _ => none
  | .fresh signal _ => some signal.connection

/-- A supply is taken out: an idle connection, or the signal of a new one together with an unclaimed
partition, for which another connection may have to be given up. -/
inductive Draws (p : Pool) : Pool → Supply → Prop where
  | idle {i : IdleConnection} {others : List IdleConnection} (h : p.idle.Perm (i :: others)) :
    Draws p { p with idle := others } (.idle i)
  | fresh {q : Option Partition} {others : List IdleConnection} {unclaimed : List Unclaimed}
    (hidle : others.Sublist p.idle)
    (hfree : p.free.Perm (q.toList ++ { p with idle := others, unclaimed := unclaimed }.free)) :
    Draws p { p with idle := others, unclaimed := unclaimed, lastConnection := p.lastConnection + 1 }
      (.fresh ⟨p.id, p.lastConnection + 1⟩ q)

theorem Draws.sameTerms {p p' : Pool} {s : Supply} (h : Draws p p' s) : SameTerms p p' := by
  cases h <;> exact ⟨rfl, rfl, rfl, rfl⟩

theorem Draws.same {p p' : Pool} {s : Supply} (h : Draws p p' s) :
    p'.outstanding = p.outstanding ∧ p'.closed = p.closed ∧ p'.lastLease = p.lastLease := by
  cases h <;> exact ⟨rfl, rfl, rfl⟩

theorem Draws.free {p p' : Pool} {s : Supply} (h : Draws p p' s) :
    p.free.Perm ((Supply.loan s).partition.toList ++ p'.free) := by
  cases h with
  | fresh _ hfree => exact hfree
  | @idle i others h =>
    have hparts := h.filterMap (·.partition)
    rw [filterMap_cons_toList] at hparts
    have hfree := hparts.append_right p.unclaimedPartitions
    rw [List.append_assoc] at hfree
    exact hfree

theorem Draws.sublist {p p' : Pool} {s : Supply} (h : Draws p p' s) :
    ∀ i ∈ p'.idle, i ∈ p.idle := by
  cases h with
  | idle h => exact fun j hj => h.mem_iff.mpr (List.mem_cons_of_mem _ hj)
  | fresh hidle _ => exact fun j hj => hidle.subset hj

theorem Draws.of_connection {p p' : Pool} {s : Supply} (h : Draws p p' s) {c : Connection}
    (hc : Supply.connection? s = some c) : ∃ i ∈ p.idle, i.connection = c := by
  cases h with
  | @idle i _ h =>
    cases hc
    exact ⟨i, h.mem_iff.mpr List.mem_cons_self, rfl⟩
  | fresh => cases hc

theorem Draws.of_unopened {p p' : Pool} {s : Supply} (h : Draws p p' s) {k : ConnectionId}
    (hk : Supply.unopened? s = some k) : k = p.lastConnection + 1 := by
  cases h with
  | idle => cases hk
  | fresh => exact (Option.some.inj hk).symm

theorem Draws.lastConnection_le {p p' : Pool} {s : Supply} (h : Draws p p' s) :
    p.lastConnection ≤ p'.lastConnection := by
  cases h with
  | idle => exact Nat.le_refl _
  | fresh => exact Nat.le_succ _

/-- What is drawn has the number of an idle connection, or the next one. -/
theorem Draws.idleIds {p p' : Pool} {s : Supply} (h : Draws p p' s)
    (hid : ∀ i ∈ p.idle, i.connection.id = i.connection.signal.connection) :
    (p'.lastConnection = p.lastConnection ∧
      p.idleIds.Perm ((Supply.loan s).signal.connection :: p'.idleIds)) ∨
    (p'.lastConnection = p.lastConnection + 1 ∧
      (Supply.loan s).signal.connection = p.lastConnection + 1 ∧ p'.idleIds.Sublist p.idleIds) := by
  cases h with
  | @idle i _ h =>
    have hids := h.map (·.connection.id)
    rw [List.map_cons, hid i (h.mem_iff.mpr List.mem_cons_self)] at hids
    exact .inl ⟨rfl, hids⟩
  | fresh hidle _ => exact .inr ⟨rfl, rfl, hidle.map _⟩

theorem pickOldest_eq_none {is : List IdleConnection} (h : pickOldest is = none) : is = [] := by
  cases is with
  | nil => rfl
  | cons i is =>
    simp only [pickOldest] at h
    split at h
    · cases h
    · split at h <;> cases h

theorem pickOldest_perm {is others : List IdleConnection} {i : IdleConnection}
    (h : pickOldest is = some (i, others)) : is.Perm (i :: others) := by
  induction is generalizing i others with
  | nil => cases h
  | cons j is ih =>
    simp only [pickOldest] at h
    split at h
    · rename_i hnone
      cases h
      rw [pickOldest_eq_none hnone]
    · rename_i k rest hsome
      split at h
      · cases h
        exact ((ih hsome).cons j).trans (.swap i j rest)
      · cases h
        exact .refl _

theorem pickOldest_sublist {is others : List IdleConnection} {i : IdleConnection}
    (h : pickOldest is = some (i, others)) : others.Sublist is := by
  induction is generalizing i others with
  | nil => cases h
  | cons j is ih =>
    simp only [pickOldest] at h
    split at h
    · cases h
      exact List.nil_sublist _
    · rename_i k rest hsome
      split at h
      · cases h
        exact (ih hsome).cons_cons j
      · cases h
        exact List.sublist_cons_self j is

theorem pickNewest_eq {is others : List IdleConnection} {i : IdleConnection}
    (h : pickNewest is = some (i, others)) : is = others ++ [i] := by
  unfold pickNewest at h
  split at h
  · cases h
  · rename_i j rest hrev
    cases h
    rw [← List.reverse_reverse is, hrev, List.reverse_cons]

/-- Room is made by giving at most one idle connection up, whose partition stays with the pool. -/
theorem makeRoom_eq (p : Pool) :
    ∃ others unclaimed displaced,
      p.makeRoom = ({ p with idle := others, unclaimed := unclaimed }, displaced) ∧
      others.Sublist p.idle ∧
      { p with idle := others, unclaimed := unclaimed }.free.Perm p.free := by
  unfold makeRoom
  split
  · exact ⟨p.idle, p.unclaimed, none, rfl, .refl _, .refl _⟩
  · split
    · exact ⟨p.idle, p.unclaimed, none, rfl, .refl _, .refl _⟩
    · rename_i i others h
      have hdraws : Draws p { p with idle := others } (.idle i) := .idle (pickOldest_perm h)
      refine ⟨others, _, some i.connection, by rw [unbind_eq], pickOldest_sublist h, ?_⟩
      have hfree := free_unbind { p with idle := others } i.partition i.since
      rw [unbind_eq] at hfree
      exact hfree.trans hdraws.free.symm

theorem supplyAny_draws (p : Pool) : Draws p p.supplyAny.1 p.supplyAny.2 := by
  unfold supplyAny
  split
  · rename_i i others h
    refine .idle ?_
    rw [pickNewest_eq h]
    exact List.perm_append_comm
  · exact .fresh (q := none) (.refl _) (.refl _)

theorem supplyPartition_eq_none {p p' : Pool} (h : p.supplyPartition = (p', none)) : p' = p := by
  unfold supplyPartition at h
  split at h
  · split at h <;> cases h
    rfl
  · split at h <;> cases h
    rfl

theorem supplyPartition_draws {p p' : Pool} {s : Supply} {displaced : Option Connection}
    (h : p.supplyPartition = (p', some (s, displaced))) : Draws p p' s := by
  unfold supplyPartition at h
  split at h
  · split at h
    · cases h
    · rename_i u rest hu
      obtain ⟨others, unclaimed, displaced', he, hidle, hfree⟩ :=
        makeRoom_eq { p with unclaimed := rest }
      simp only [he, nextSignal] at h
      cases h
      have hrest : p.free.Perm (u.partition :: { p with unclaimed := rest }.free) := by
        simp only [free, idlePartitions, unclaimedPartitions, hu, List.map_cons]
        exact List.perm_middle
      exact .fresh hidle (hrest.trans (hfree.symm.cons _))
  · split at h
    · cases h
    · rename_i i others hi
      cases h
      exact .idle (pickOldest_perm hi)

/-- Under explicit ownership what is lent is a partition. -/
theorem supplyPartition_isSome {p p' : Pool} {s : Supply} {displaced : Option Connection}
    (hidle : ∀ i ∈ p.idle, i.partition.isSome = true)
    (h : p.supplyPartition = (p', some (s, displaced))) :
    (Supply.loan s).partition.isSome = true := by
  unfold supplyPartition at h
  split at h
  · split at h
    · cases h
    · cases h
      rfl
  · split at h
    · cases h
    · rename_i i others hi
      cases h
      exact hidle i ((pickOldest_perm hi).mem_iff.mpr List.mem_cons_self)

/-! ## Offers -/

theorem offer_eq_none {p p' : Pool} (h : p.offer = (p', none)) : p' = p := by
  unfold offer at h
  split at h
  · cases h
    rfl
  · split at h
    rename_i p₁ found hfound
    split at h
    · cases h
      split at hfound
      · exact supplyPartition_eq_none hfound
      · cases hfound
    · cases h

theorem offer_eq_some {p p' : Pool} {o : Offer} (h : p.offer = (p', some o)) :
    ∃ p₁, Draws p p₁ o.supply ∧ o.lease = p.lastLease + 1 ∧
      p' = { p₁ with
        lastLease := p.lastLease + 1
        outstanding := p.outstanding.insert (p.lastLease + 1) (Supply.loan o.supply) } := by
  unfold offer at h
  split at h
  · cases h
  · split at h
    rename_i p₁ found hfound
    split at h
    · cases h
    · rename_i s displaced
      have hdraws : Draws p p₁ s := by
        split at hfound
        · exact supplyPartition_draws hfound
        · cases hfound
          exact supplyAny_draws p
      obtain ⟨hout, -, hlast⟩ := hdraws.same
      cases h
      refine ⟨p₁, hdraws, ?_, ?_⟩
      · show p₁.lastLease + 1 = _
        rw [hlast]
      · simp only [hout, hlast]

theorem offer_isSome {p p' : Pool} {o : Offer} (hlends : p.lendsPartitions = true)
    (hidle : ∀ i ∈ p.idle, i.partition.isSome = true) (h : p.offer = (p', some o)) :
    (Supply.loan o.supply).partition.isSome = true := by
  unfold offer at h
  rw [if_pos hlends] at h
  split at h
  · cases h
  · split at h
    rename_i p₁ found hfound
    split at h
    · cases h
    · cases h
      exact supplyPartition_isSome hidle hfound

/-! ## Partitions that are lent -/

theorem lent_insert (p : Pool) {id : LeaseId} (loan : Loan)
    (h : p.outstanding.find? id = none) :
    { p with outstanding := p.outstanding.insert id loan }.lent.Perm
      (loan.partition.toList ++ p.lent) := by
  have hperm := SortedMap.insert_perm id loan p.outstanding
  rw [SortedMap.erase_of_find?_eq_none h] at hperm
  have hparts := hperm.filterMap (·.2.partition)
  rwa [filterMap_cons_toList] at hparts

theorem lentIds_insert (p : Pool) {id : LeaseId} (loan : Loan)
    (h : p.outstanding.find? id = none) :
    { p with outstanding := p.outstanding.insert id loan }.lentIds.Perm
      (loan.signal.connection :: p.lentIds) := by
  have hperm := SortedMap.insert_perm id loan p.outstanding
  rw [SortedMap.erase_of_find?_eq_none h] at hperm
  exact hperm.map (·.2.signal.connection)

theorem lentIds_erase (p : Pool) {id : LeaseId} {loan : Loan}
    (h : p.outstanding.find? id = some loan) :
    p.lentIds.Perm
      (loan.signal.connection :: { p with outstanding := p.outstanding.erase id }.lentIds) := by
  have hids := (SortedMap.perm_cons_erase h).map (·.2.signal.connection)
  exact hids

theorem lent_erase (p : Pool) {id : LeaseId} {loan : Loan}
    (h : p.outstanding.find? id = some loan) :
    p.lent.Perm
      (loan.partition.toList ++ { p with outstanding := p.outstanding.erase id }.lent) := by
  have hparts := (SortedMap.perm_cons_erase h).filterMap (·.2.partition)
  rwa [filterMap_cons_toList] at hparts

/-! ## Returns -/

theorem free_keep (p : Pool) (i : IdleConnection) :
    { p with idle := p.idle ++ [i] }.free.Perm (i.partition.toList ++ p.free) := by
  have hidle : { p with idle := p.idle ++ [i] }.idlePartitions =
      p.idlePartitions ++ i.partition.toList := by
    cases h : i.partition <;> simp [idlePartitions, h]
  refine List.perm_iff_count.mpr fun r => ?_
  show List.count r (idlePartitions _ ++ p.unclaimedPartitions) =
    List.count r (i.partition.toList ++ (p.idlePartitions ++ p.unclaimedPartitions))
  rw [hidle]
  simp only [List.count_append]
  omega

/-- A connection comes back and is kept, or is given up with its partition. -/
structure Regains (p p' : Pool) (partition : Option Partition) (back : Option Connection) :
    Prop where
  terms : SameTerms p p'
  outstanding : p'.outstanding = p.outstanding
  closed : p'.closed = p.closed
  lastLease : p'.lastLease = p.lastLease
  lastConnection : p'.lastConnection = p.lastConnection
  free : p'.free.Perm (partition.toList ++ p.free)
  idle : ∀ i ∈ p'.idle, i ∈ p.idle ∨ i.partition = partition ∧ back = some i.connection
  ids : ∀ k, p'.idleIds.count k ≤ p.idleIds.count k + (back.map (·.id)).toList.count k

theorem regains_unbind (p : Pool) (partition : Option Partition) (since : Nat)
    (back : Option Connection) : Regains p (p.unbind partition since) partition back := by
  have hfree := p.free_unbind partition since
  rw [unbind_eq] at hfree ⊢
  exact ⟨⟨rfl, rfl, rfl, rfl⟩, rfl, rfl, rfl, rfl, hfree, fun _ hi => .inl hi,
    fun _ => Nat.le_add_right _ _⟩

theorem regains_keep (p : Pool) (i : IdleConnection) :
    Regains p { p with idle := p.idle ++ [i] } i.partition (some i.connection) := by
  refine ⟨⟨rfl, rfl, rfl, rfl⟩, rfl, rfl, rfl, rfl, p.free_keep i, fun j hj => ?_,
    fun k => ?_⟩
  · obtain hj | hj := List.mem_append.mp hj
    · exact .inl hj
    · rw [List.mem_singleton.mp hj]
      exact .inr ⟨rfl, rfl⟩
  · rw [idleIds, List.map_append, List.count_append]
    exact Nat.le_refl _

theorem takeBack_missing {p : Pool} {lease : LeaseId} {loan : Loan}
    (h : p.outstanding.find? lease = some loan) (discard : Bool) (now : Nat) :
    p.takeBack lease none discard now =
      ({ p with outstanding := p.outstanding.erase lease }.unbind loan.partition now, .missing) := by
  simp only [takeBack, h, Option.bind_some]

theorem takeBack_rejected {p : Pool} {lease : LeaseId} {loan : Loan}
    (h : p.outstanding.find? lease = some loan) (c : Connection) {discard : Bool}
    (hd : (discard || p.closed) = true) (now : Nat) :
    p.takeBack lease (some c) discard now =
      ({ p with outstanding := p.outstanding.erase lease }.unbind loan.partition now,
        .rejected c) := by
  simp only [takeBack, h, Option.bind_some, hd, if_true]

theorem takeBack_kept {p : Pool} {lease : LeaseId} {loan : Loan}
    (h : p.outstanding.find? lease = some loan) (c : Connection) {discard : Bool}
    (hd : (discard || p.closed) = false) (now : Nat) :
    p.takeBack lease (some c) discard now =
      ({ p with
          outstanding := p.outstanding.erase lease
          idle := p.idle ++ [⟨c, loan.partition, now⟩] },
        .kept c) := by
  simp only [takeBack, h, Option.bind_some, hd, Bool.false_eq_true, if_false]

theorem endQuery_cases (p : Pool) (q : Query) (faulty : Bool) :
    p.endQuery q faulty = (p.unbind q.partition q.since, some q.connection) ∨
      (p.lendsPartitions = true → q.partition.isSome = true) ∧
        p.closed = false ∧
        p.endQuery q faulty =
          ({ p with idle := p.idle ++ [⟨q.connection, q.partition, q.since⟩] }, none) := by
  simp only [endQuery]
  split
  · exact .inl rfl
  · rename_i h
    simp only [Bool.or_eq_true, Bool.and_eq_true, Option.isNone_iff_eq_none, decide_eq_true_eq,
      not_or, not_and, Bool.not_eq_true] at h
    exact .inr ⟨fun hl => Option.isSome_iff_ne_none.mpr (h.1.1.2 hl), h.1.2, rfl⟩

theorem takeBack_regains {p : Pool} {lease : LeaseId} {loan : Loan}
    (h : p.outstanding.find? lease = some loan) (c : Option Connection) (discard : Bool)
    (now : Nat) :
    Regains { p with outstanding := p.outstanding.erase lease }
      (p.takeBack lease c discard now).1 loan.partition c := by
  cases c with
  | none =>
    rw [takeBack_missing h]
    exact regains_unbind ..
  | some c =>
    cases hd : discard || p.closed with
    | true =>
      rw [takeBack_rejected h c hd]
      exact regains_unbind ..
    | false =>
      rw [takeBack_kept h c hd]
      exact regains_keep _ ⟨c, loan.partition, now⟩

theorem lastConnection_takeBack (p : Pool) (lease : LeaseId) (c : Option Connection)
    (discard : Bool) (now : Nat) :
    (p.takeBack lease c discard now).1.lastConnection = p.lastConnection := by
  cases c with
  | none => simp only [takeBack, unbind_eq]
  | some c =>
    simp only [takeBack, unbind_eq]
    split <;> rfl

theorem same_takeBack (p : Pool) (lease : LeaseId) (c : Option Connection) (discard : Bool)
    (now : Nat) :
    (p.takeBack lease c discard now).1.outstanding = p.outstanding.erase lease ∧
      (p.takeBack lease c discard now).1.lastLease = p.lastLease := by
  cases c with
  | none =>
    constructor
    · simp only [takeBack, unbind_eq]
    · simp only [takeBack, unbind_eq]
  | some c =>
    constructor
    · simp only [takeBack, unbind_eq]
      split <;> rfl
    · simp only [takeBack, unbind_eq]
      split <;> rfl

theorem sameTerms_takeBack (p : Pool) (lease : LeaseId) (c : Option Connection) (discard : Bool)
    (now : Nat) : SameTerms p (p.takeBack lease c discard now).1 := by
  cases c with
  | none =>
    simp only [takeBack, unbind_eq]
    exact ⟨rfl, rfl, rfl, rfl⟩
  | some c =>
    simp only [takeBack, unbind_eq]
    split <;> exact ⟨rfl, rfl, rfl, rfl⟩

/-- Only the connection that comes back becomes idle, and only if it is kept. -/
theorem mem_idle_takeBack {p : Pool} {lease : LeaseId} {c : Option Connection} {discard : Bool}
    {now : Nat} {i : IdleConnection} (h : i ∈ (p.takeBack lease c discard now).1.idle) :
    i ∈ p.idle ∨ c = some i.connection ∧ (discard || p.closed) = false := by
  cases c with
  | none =>
    simp only [takeBack, unbind_eq] at h
    exact .inl h
  | some c =>
    simp only [takeBack, unbind_eq] at h
    split at h
    · exact .inl h
    · rename_i hkept
      obtain h | h := List.mem_append.mp h
      · exact .inl h
      · rw [List.mem_singleton.mp h]
        exact .inr ⟨rfl, Bool.eq_false_iff.mpr hkept⟩

theorem endQuery_regains (p : Pool) (q : Query) (faulty : Bool) :
    Regains p (p.endQuery q faulty).1 q.partition (some q.connection) := by
  obtain h | ⟨_, _, h⟩ := p.endQuery_cases q faulty
  · rw [h]
    exact regains_unbind ..
  · rw [h]
    exact regains_keep p ⟨q.connection, q.partition, q.since⟩

/-- Under explicit ownership a connection without a partition is not kept. -/
theorem endQuery_isSome {p : Pool} (hlends : p.lendsPartitions = true)
    (hidle : ∀ i ∈ p.idle, i.partition.isSome = true) (q : Query) (faulty : Bool) :
    ∀ i ∈ (p.endQuery q faulty).1.idle, i.partition.isSome = true := by
  intro i hi
  obtain h | ⟨hq, _, h⟩ := p.endQuery_cases q faulty
  · rw [h, unbind_eq] at hi
    exact hidle i hi
  · rw [h] at hi
    obtain hi | hi := List.mem_append.mp hi
    · exact hidle i hi
    · rw [List.mem_singleton.mp hi]
      exact hq hlends

end Pool
end RecordIntake
