import Mathlib.Data.List.Nodup
import Mathlib.Data.List.Perm.Basic
import RecordIntake.Proofs.Steps

/-!
Who has which partition.  Each owned partition is with the pool, with a lease, or with a question
for a partition count, and each connection was opened for the partition that is recorded for it.
Here are the changes of the pool's bookkeeping that keep it so.

Closing the pool is the one change that takes partitions out of this account, those of the idle
connections.  What is said of the connections and of partitions in two places holds all the same.
-/
namespace RecordIntake

/-- The connection was opened for what is recorded of it. -/
structure Connection.Serves (p : Pool) (loan : Loan) (c : Connection) : Prop where
  id : c.id = loan.signal.connection
  signal : c.signal = loan.signal
  subscription : c.subscription = p.connectionSubscription loan.partition

theorem Connection.Serves.congr {p p' : Pool} {loan : Loan} {c : Connection}
    (h : c.Serves p loan) (hp : Pool.SameTerms p p') : c.Serves p' loan :=
  ⟨h.id, h.signal,
    h.subscription.trans (Pool.connectionSubscription_congr hp.subscription _).symm⟩

theorem Connection.Serves.self {p : Pool} {loan : Loan} {c : Connection} (h : c.Serves p loan) :
    c.Serves p ⟨c.signal, loan.partition⟩ :=
  ⟨h.id.trans (congrArg _ h.signal.symm), rfl, h.subscription⟩

def Pool.Supply.Serves (p : Pool) : Supply → Prop
  | .idle i => i.connection.Serves p i.loan
  | .fresh _ _ => True

theorem Pool.Supply.Serves.congr {p p' : Pool} {s : Supply} (h : Supply.Serves p s)
    (hp : SameTerms p p') : Supply.Serves p' s := by
  cases s with
  | idle i => exact Connection.Serves.congr h hp
  | fresh signal partition => trivial

theorem Pool.Supply.Yields.serves {p : Pool} {s : Supply} {c : Connection}
    (h : Supply.Yields p s c) (hs : Supply.Serves p s) : c.Serves p (Supply.loan s) := by
  cases s with
  | idle i =>
    obtain rfl : c = i.connection := h
    exact hs
  | fresh signal partition =>
    obtain rfl : c = ⟨signal.connection, signal, _, []⟩ := h
    exact ⟨rfl, rfl, rfl⟩

/-- What the pool knows of a lease fits how far it has come. -/
def Phase.Serves (p : Pool) (id : LeaseId) (loan : Loan) : Phase → Prop
  | .opening o _ => o.lease = id ∧ Pool.Supply.loan o.supply = loan ∧ Pool.Supply.Serves p o.supply
  | .held l | .waiting l _ | .emitting l _ _ => l.connection.Serves p loan
  | .returning c _ => c.Serves p loan
  | .ended => False

theorem Phase.Serves.congr {p p' : Pool} {id : LeaseId} {loan : Loan} {ph : Phase}
    (h : ph.Serves p id loan) (hp : Pool.SameTerms p p') : ph.Serves p' id loan := by
  cases ph with
  | opening o sink => exact ⟨h.1, h.2.1, Pool.Supply.Serves.congr h.2.2 hp⟩
  | held l => exact Connection.Serves.congr h hp
  | waiting l deadline => exact Connection.Serves.congr h hp
  | emitting l units errand => exact Connection.Serves.congr h hp
  | returning c discard => exact Connection.Serves.congr h hp
  | ended => exact h

/-- The connection that a lease has or is about to get. -/
def Phase.connection? : Phase → Option Connection
  | .opening o _ => Pool.Supply.connection? o.supply
  | .held l | .waiting l _ | .emitting l _ _ => some l.connection
  | .returning c _ => some c
  | .ended => none

theorem Phase.Serves.of_connection {p : Pool} {id : LeaseId} {loan : Loan} {ph : Phase}
    {c : Connection} (h : ph.Serves p id loan) (hc : ph.connection? = some c) :
    c.Serves p loan := by
  cases ph with
  | opening o sink =>
    obtain ⟨-, rfl, hs⟩ := h
    cases hsupply : o.supply with
    | idle i =>
      rw [connection?, hsupply] at hc
      cases hc
      rw [hsupply] at hs
      exact hs
    | fresh signal partition =>
      rw [connection?, hsupply] at hc
      cases hc
  | held l =>
    cases hc
    exact h
  | waiting l deadline =>
    cases hc
    exact h
  | emitting l units errand =>
    cases hc
    exact h
  | returning c' discard =>
    cases hc
    exact h
  | ended => cases hc

theorem Phase.Serves.of_lease {p : Pool} {id : LeaseId} {loan : Loan} {ph : Phase} {l : Lease}
    (h : ph.Serves p id loan) (hl : ph.lease? = some l) : l.connection.Serves p loan := by
  cases ph <;> cases hl <;> exact h

/-- What is recorded of the connection that a question is asked through. -/
def Inquiry.loan : Inquiry → Loan
  | .taken s => Pool.Supply.loan s
  | .asking q | .answered q _ => ⟨q.connection.signal, q.partition⟩

/-- A connection that is opened just to ask is for no partition. -/
def Inquiry.Serves (p : Pool) : Inquiry → Prop
  | .taken (.fresh _ partition) => partition = none
  | .taken (.idle i) => i.connection.Serves p i.loan
  | .asking q | .answered q _ => q.connection.Serves p ⟨q.connection.signal, q.partition⟩

theorem Inquiry.Serves.of_taken {p : Pool} {s : Supply} (h : (Inquiry.taken s).Serves p) :
    Pool.Supply.Serves p s := by
  cases s with
  | idle i => exact h
  | fresh signal partition => trivial

theorem Inquiry.Serves.congr {p p' : Pool} {x : Inquiry} (h : x.Serves p)
    (hp : Pool.SameTerms p p') : x.Serves p' := by
  cases x with
  | taken s =>
    cases s with
    | idle i => exact Connection.Serves.congr h hp
    | fresh signal partition => exact h
  | asking q => exact Connection.Serves.congr h hp
  | answered q faulty => exact Connection.Serves.congr h hp

/-- The partitions of the connections that are used to ask. -/
def asked (xs : List Inquiry) : List Partition := xs.filterMap (·.loan.partition)

/-- The numbers of the connections that are used to ask, or opened for it. -/
def askedIds (xs : List Inquiry) : List ConnectionId := xs.map (·.loan.signal.connection)

theorem askedIds_eraseIdx {xs : List Inquiry} {i : Nat} {x : Inquiry} (h : xs[i]? = some x) :
    (askedIds xs).Perm (x.loan.signal.connection :: askedIds (xs.eraseIdx i)) := by
  obtain ⟨hi, rfl⟩ := List.getElem?_eq_some_iff.mp h
  exact (List.getElem_cons_eraseIdx_perm hi).symm.map (·.loan.signal.connection)

theorem askedIds_set {xs : List Inquiry} {i : Nat} {x : Inquiry} (h : xs[i]? = some x)
    {x' : Inquiry} (hx : x'.loan.signal.connection = x.loan.signal.connection) :
    (askedIds (xs.set i x')).Perm (askedIds xs) := by
  obtain ⟨hi, -⟩ := List.getElem?_eq_some_iff.mp h
  have hids := (List.set_perm_cons_eraseIdx hi x').map (·.loan.signal.connection)
  rw [List.map_cons, hx] at hids
  exact hids.trans (askedIds_eraseIdx h).symm

theorem asked_eraseIdx {xs : List Inquiry} {i : Nat} {x : Inquiry} (h : xs[i]? = some x) :
    (asked xs).Perm (x.loan.partition.toList ++ asked (xs.eraseIdx i)) := by
  obtain ⟨hi, rfl⟩ := List.getElem?_eq_some_iff.mp h
  have hparts := (List.getElem_cons_eraseIdx_perm hi).symm.filterMap (·.loan.partition)
  rwa [Pool.filterMap_cons_toList] at hparts

theorem asked_set {xs : List Inquiry} {i : Nat} {x : Inquiry} (h : xs[i]? = some x) {x' : Inquiry}
    (hx : x'.loan.partition = x.loan.partition) : (asked (xs.set i x')).Perm (asked xs) := by
  obtain ⟨hi, -⟩ := List.getElem?_eq_some_iff.mp h
  have hparts := (List.set_perm_cons_eraseIdx hi x').filterMap (·.loan.partition)
  rw [Pool.filterMap_cons_toList, hx] at hparts
  exact hparts.trans (asked_eraseIdx h).symm

/-- The pool, the leases and the questions agree about the connections. -/
structure Owned (p : Pool) (phs : SortedMap LeaseId Phase) (xs : List Inquiry) : Prop where
  sorted : p.outstanding.Sorted
  issued : ∀ e ∈ p.outstanding, e.1 ≤ p.lastLease
  phases : ∀ id ph, phs.find? id = some ph →
    ph = .ended ∨ ∃ loan, p.outstanding.find? id = some loan ∧ ph.Serves p id loan
  held : ∀ id loan, p.outstanding.find? id = some loan →
    ∃ ph, phs.find? id = some ph ∧ ph ≠ .ended
  idle : ∀ i ∈ p.idle, i.connection.Serves p i.loan
  inquiries : ∀ x ∈ xs, x.Serves p
  bound : p.lendsPartitions = true →
    (∀ i ∈ p.idle, i.partition.isSome = true) ∧
      ∀ e ∈ p.outstanding, e.2.partition.isSome = true
  shares : ∃ lost : List Partition, (p.closed = false → lost = []) ∧
    ∀ q, p.free.count q + p.lent.count q + (asked xs).count q + lost.count q =
      p.subscription.ownedPartitions.count q
  numbered : ∀ k, p.idleIds.count k + p.lentIds.count k + (askedIds xs).count k ≤ 1 ∧
    (p.lastConnection < k →
      p.idleIds.count k + p.lentIds.count k + (askedIds xs).count k = 0)

namespace Owned

open Pool

variable {p p' : Pool} {phs : SortedMap LeaseId Phase} {xs : List Inquiry}

theorem start (id : PoolId) (s : Subscription) (reader : RecordReader) (settings : IntakeSettings)
    (now : Nat) : Owned (.build id s reader settings now) [] [] := by
  refine ⟨SortedMap.sorted_nil, by simp [build], by simp, by simp [build], by simp [build],
    by simp, by simp [build], ⟨[], fun _ => rfl, fun q => ?_⟩, fun k => by simp [build, idleIds,
      lentIds, askedIds]⟩
  have hfree : (build id s reader settings now).free = s.ownedPartitions := by
    simp [free, idlePartitions, unclaimedPartitions, build, Function.comp_def]
  rw [hfree]
  rfl

/-- Nobody has a partition that is not owned, and no partition is in two places. -/
theorem nodup (h : Owned p phs xs) (hnodup : p.subscription.ownedPartitions.Nodup) :
    (p.free ++ p.lent ++ asked xs).Nodup := by
  obtain ⟨lost, -, hcount⟩ := h.shares
  refine List.nodup_iff_count.mpr fun q => ?_
  have hq := List.nodup_iff_count.mp hnodup q
  have := hcount q
  simp only [List.count_append]
  omega

/-- As long as the pool is open, nobody lacks a partition. -/
theorem perm (h : Owned p phs xs) (hopen : p.closed = false) :
    (p.free ++ p.lent ++ asked xs).Perm p.subscription.ownedPartitions := by
  obtain ⟨lost, hlost, hcount⟩ := h.shares
  refine List.perm_iff_count.mpr fun q => ?_
  have hq := hcount q
  rw [hlost hopen, List.count_nil] at hq
  simp only [List.count_append]
  exact hq

/-! ## Steps of leases -/

/-- A lease that goes on with the connection it has changes nothing. -/
theorem setPhase (h : Owned p phs xs) {id : LeaseId} {ph ph' : Phase}
    (hph : phs.find? id = some ph) (hne : ph ≠ .ended)
    (hserves : ∀ loan, ph.Serves p id loan → ph'.Serves p id loan) (hne' : ph' ≠ .ended) :
    Owned p (phs.insert id ph') xs := by
  refine { h with phases := fun id₁ ph₁ h₁ => ?_, held := fun id₁ loan h₁ => ?_ }
  · rw [SortedMap.find?_insert] at h₁
    split at h₁
    · rename_i hid
      cases h₁
      obtain ho | ⟨loan, hloan, hs⟩ := h.phases id ph hph
      · exact absurd ho hne
      · rw [hid]
        exact .inr ⟨loan, hloan, hserves loan hs⟩
    · exact h.phases id₁ ph₁ h₁
  · rw [SortedMap.find?_insert]
    split
    · exact ⟨ph', rfl, hne'⟩
    · exact h.held id₁ loan h₁

/-! ## Steps of the pool -/

/-- As long as the same leases are out, their phases are served. -/
theorem phases_congr (h : Owned p phs xs) (hterms : SameTerms p p')
    (hout : p'.outstanding = p.outstanding) : ∀ id ph, phs.find? id = some ph →
      ph = .ended ∨ ∃ loan, p'.outstanding.find? id = some loan ∧ ph.Serves p' id loan := by
  intro id ph hph
  obtain hended | ⟨loan, hloan, hs⟩ := h.phases id ph hph
  · exact .inl hended
  · exact .inr ⟨loan, by rw [hout]; exact hloan, hs.congr hterms⟩

/-- Giving idle connections up only moves partitions around within the pool. -/
theorem rearrange (h : Owned p phs xs) (hterms : SameTerms p p')
    (hout : p'.outstanding = p.outstanding) (hlast : p'.lastLease = p.lastLease)
    (hconn : p'.lastConnection = p.lastConnection) (hclosed : p'.closed = p.closed)
    (hidle : p'.idle.Sublist p.idle) (hfree : p'.free.Perm p.free) : Owned p' phs xs where
  sorted := hout ▸ h.sorted
  issued := by rw [hout, hlast]; exact h.issued
  phases := h.phases_congr hterms hout
  held := by rw [hout]; exact h.held
  idle i hi := (h.idle i (hidle.subset hi)).congr hterms
  inquiries x hx := (h.inquiries x hx).congr hterms
  bound hlends := by
    have hb := h.bound (hterms.lendsPartitions.symm.trans hlends)
    exact ⟨fun i hi => hb.1 i (hidle.subset hi), by rw [hout]; exact hb.2⟩
  shares := by
    obtain ⟨lost, hl, hcount⟩ := h.shares
    refine ⟨lost, by rwa [hclosed], fun q => ?_⟩
    rw [hfree.count_eq q, lent_congr hout, hterms.subscription]
    exact hcount q
  numbered k := by
    have hk := h.numbered k
    have hids : p'.idleIds.count k ≤ p.idleIds.count k := (hidle.map _).count_le k
    rw [lentIds_congr hout, hconn]
    omega

theorem takeExpired (h : Owned p phs xs) (now : Nat) : Owned (p.takeExpired now).1 phs xs := by
  have hsub := p.sublist_takeExpired now
  have hfree := p.free_takeExpired now
  rw [takeExpired_eq] at hsub hfree ⊢
  exact h.rearrange ⟨rfl, rfl, rfl, rfl⟩ rfl rfl rfl rfl hsub hfree

theorem shut (h : Owned p phs xs) : Owned p.shut.1 phs xs := by
  unfold Pool.shut
  split
  · exact h
  · rename_i hopen
    obtain ⟨lost, hl, hcount⟩ := h.shares
    obtain rfl : lost = [] := hl (Bool.eq_false_iff.mpr hopen)
    have hterms : SameTerms p { p with closed := true, idle := [] } := ⟨rfl, rfl, rfl, rfl⟩
    refine ⟨h.sorted, h.issued, h.phases_congr hterms rfl, h.held, by simp,
      fun x hx => (h.inquiries x hx).congr hterms, fun hlends => ⟨by simp, (h.bound hlends).2⟩,
      ⟨p.idlePartitions, by simp, fun q => ?_⟩, fun k => ?_⟩
    · have hq := hcount q
      simp only [free, List.count_append, List.count_nil] at hq
      show List.count q p.unclaimedPartitions + List.count q p.lent + _ +
        List.count q p.idlePartitions = List.count q p.subscription.ownedPartitions
      omega
    · have hk := h.numbered k
      simp only [idleIds, List.map_nil, List.count_nil, Nat.zero_add]
      show List.count k p.lentIds + _ ≤ 1 ∧ (p.lastConnection < k → List.count k p.lentIds + _ = 0)
      omega

/-- A connection with the next number is the only one with that number. -/
theorem count_next (n k : Nat) :
    (if (n + 1 == k) = true then 1 else 0) ≤ 1 ∧
      (k ≤ n → (if (n + 1 == k) = true then 1 else 0) = 0) ∧
      (n + 1 < k → (if (n + 1 == k) = true then 1 else 0) = 0) := by
  simp only [beq_iff_eq]
  split <;> omega

theorem idle_id (h : Owned p phs xs) :
    ∀ i ∈ p.idle, i.connection.id = i.connection.signal.connection :=
  fun i hi => (h.idle i hi).id

theorem serves_supply (h : Owned p phs xs) {s : Supply} (hdraws : Draws p p' s) :
    Supply.Serves p' s := by
  have hterms := hdraws.sameTerms
  cases hdraws with
  | idle hperm => exact (h.idle _ (hperm.mem_iff.mpr List.mem_cons_self)).congr hterms
  | fresh => trivial

/-- The connection of a supply has a number of its own. -/
theorem numbered_draws (h : Owned p phs xs) {s : Supply} (hdraws : Draws p p' s)
    (k : ConnectionId) :
    p'.idleIds.count k + p.lentIds.count k + (askedIds xs).count k +
        (if ((Supply.loan s).signal.connection == k) = true then 1 else 0) ≤ 1 ∧
      (p'.lastConnection < k → p'.idleIds.count k + p.lentIds.count k + (askedIds xs).count k +
        (if ((Supply.loan s).signal.connection == k) = true then 1 else 0) = 0) := by
  have hk := h.numbered k
  obtain ⟨hlast, hids⟩ | ⟨hlast, hnumber, hids⟩ := hdraws.idleIds h.idle_id
  · have hids := hids.count_eq k
    rw [List.count_cons] at hids
    omega
  · have hids := hids.count_le k
    have hnext := count_next p.lastConnection k
    rw [hnumber]
    omega

/-- A lease is numbered like no lease before it. -/
theorem find?_next (h : Owned p phs xs) : p.outstanding.find? (p.lastLease + 1) = none := by
  cases hf : p.outstanding.find? (p.lastLease + 1) with
  | none => rfl
  | some loan => exact absurd (h.issued _ (SortedMap.mem_of_find? hf)) (Nat.not_succ_le_self _)

/-- A partition that is lent leaves the pool. -/
theorem lend (h : Owned p phs xs) {o : Offer} (ho : p.offer = (p', some o)) (sink : String) :
    Owned p' (phs.insert o.lease (.opening o sink)) xs := by
  obtain ⟨p₁, hdraws, hid, rfl⟩ := offer_eq_some ho
  have hterms := hdraws.sameTerms
  have hserves := h.serves_supply hdraws
  have hnext := h.find?_next
  obtain ⟨-, hclosed, -⟩ := hdraws.same
  have hterms' : SameTerms p₁ { p₁ with
      lastLease := p.lastLease + 1
      outstanding := p.outstanding.insert (p.lastLease + 1) (Supply.loan o.supply) } :=
    ⟨rfl, rfl, rfl, rfl⟩
  rw [hid]
  refine ⟨SortedMap.sorted_insert h.sorted .., fun e he => ?_, fun id ph hph => ?_,
    fun id loan hloan => ?_, fun i hi => ?_, fun x hx => ?_, fun hlends => ?_, ?_, fun k => ?_⟩
  · obtain rfl | he := List.mem_cons.mp ((SortedMap.insert_perm ..).mem_iff.mp he)
    · exact Nat.le_refl _
    · exact Nat.le_succ_of_le (h.issued e ((SortedMap.erase_sublist ..).subset he))
  · rw [SortedMap.find?_insert] at hph
    rw [SortedMap.find?_insert]
    split at hph
    · rename_i heq
      cases hph
      exact .inr ⟨_, if_pos heq, hid.trans heq.symm, rfl, hserves.congr hterms'⟩
    · rename_i hne
      obtain ho | ⟨loan, hloan, hs⟩ := h.phases id ph hph
      · exact .inl ho
      · exact .inr ⟨loan, by rw [if_neg hne]; exact hloan, hs.congr (hterms.trans hterms')⟩
  · rw [SortedMap.find?_insert] at hloan ⊢
    split at hloan
    · exact ⟨_, by rw [if_pos ‹_›], by simp⟩
    · rw [if_neg ‹_›]
      exact h.held id loan hloan
  · exact (h.idle i (hdraws.sublist i hi)).congr (hterms.trans hterms')
  · exact (h.inquiries x hx).congr (hterms.trans hterms')
  · have hlends : p.lendsPartitions = true :=
      (hterms.trans hterms').lendsPartitions.symm.trans hlends
    have hb := h.bound hlends
    refine ⟨fun i hi => hb.1 i (hdraws.sublist i hi), fun e he => ?_⟩
    obtain rfl | he := List.mem_cons.mp ((SortedMap.insert_perm ..).mem_iff.mp he)
    · exact offer_isSome hlends hb.1 ho
    · exact hb.2 e ((SortedMap.erase_sublist ..).subset he)
  · obtain ⟨lost, hl, hcount⟩ := h.shares
    refine ⟨lost, fun hc => hl (hclosed ▸ hc), fun q => ?_⟩
    have hq := hcount q
    have hfree := hdraws.free.count_eq q
    have hlent := (p.lent_insert (Supply.loan o.supply) hnext).count_eq q
    simp only [List.count_append] at hfree hlent
    show List.count q p₁.free + List.count q (Pool.lent { p with
      outstanding := p.outstanding.insert (p.lastLease + 1) (Supply.loan o.supply) }) + _ + _ =
      List.count q p₁.subscription.ownedPartitions
    rw [hterms.subscription]
    omega
  · have hk := h.numbered_draws hdraws k
    have hlent := (p.lentIds_insert (Supply.loan o.supply) hnext).count_eq k
    rw [List.count_cons] at hlent
    show List.count k p₁.idleIds + List.count k (Pool.lentIds { p with
        outstanding := p.outstanding.insert (p.lastLease + 1) (Supply.loan o.supply) }) + _ ≤ 1 ∧
      (p₁.lastConnection < k → List.count k p₁.idleIds + List.count k (Pool.lentIds { p with
        outstanding := p.outstanding.insert (p.lastLease + 1) (Supply.loan o.supply) }) + _ = 0)
    rw [hlent]
    omega

/-- A lease that is over gives its partition back to the pool. -/
theorem takeBack (h : Owned p phs xs) {id : LeaseId} {loan : Loan}
    (hloan : p.outstanding.find? id = some loan) {c : Option Connection}
    (hc : ∀ c' ∈ c, c'.Serves p loan) (discard : Bool) (now : Nat) :
    Owned (p.takeBack id c discard now).1 (phs.insert id .ended) xs := by
  have hback := takeBack_regains hloan c discard now
  generalize (p.takeBack id c discard now).1 = p' at hback ⊢
  have hterms : SameTerms p p' :=
    ⟨hback.terms.id, hback.terms.subscription, hback.terms.reader, hback.terms.settings⟩
  refine ⟨?_, fun e he => ?_, fun id' ph hph => ?_, fun id' loan' hloan' => ?_, fun i hi => ?_,
    fun x hx => (h.inquiries x hx).congr hterms, fun hlends => ?_, ?_, fun k => ?_⟩
  · rw [hback.outstanding]
    exact SortedMap.sorted_erase h.sorted id
  · rw [hback.outstanding] at he
    rw [hback.lastLease]
    exact h.issued e ((SortedMap.erase_sublist ..).subset he)
  · rw [SortedMap.find?_insert] at hph
    split at hph
    · cases hph
      exact .inl rfl
    · rename_i hne
      obtain ho | ⟨loan', hloan', hs⟩ := h.phases id' ph hph
      · exact .inl ho
      · refine .inr ⟨loan', ?_, hs.congr hterms⟩
        rw [hback.outstanding, SortedMap.find?_erase h.sorted, if_neg hne]
        exact hloan'
  · rw [hback.outstanding, SortedMap.find?_erase h.sorted] at hloan'
    rw [SortedMap.find?_insert]
    split at hloan'
    · cases hloan'
    · rw [if_neg ‹_›]
      exact h.held id' loan' hloan'
  · obtain hi | ⟨hi, hback'⟩ := hback.idle i hi
    · exact (h.idle i hi).congr hterms
    · have hs := (hc i.connection hback').congr hterms
      refine ⟨hs.id.trans (by rw [← hs.signal]; rfl), rfl, ?_⟩
      show _ = p'.connectionSubscription i.partition
      rw [hi]
      exact hs.subscription
  · have hb := h.bound (hterms.lendsPartitions.symm.trans hlends)
    refine ⟨fun i hi => ?_, fun e he => ?_⟩
    · obtain hi | ⟨hi, -⟩ := hback.idle i hi
      · exact hb.1 i hi
      · rw [hi]
        exact hb.2 _ (SortedMap.mem_of_find? hloan)
    · rw [hback.outstanding] at he
      exact hb.2 e ((SortedMap.erase_sublist ..).subset he)
  · obtain ⟨lost, hl, hcount⟩ := h.shares
    refine ⟨lost, fun hc => hl (hback.closed ▸ hc), fun q => ?_⟩
    have hq := hcount q
    have hfree := hback.free.count_eq q
    have hlent := (p.lent_erase hloan).count_eq q
    simp only [List.count_append] at hfree hlent
    rw [lent_congr hback.outstanding, hterms.subscription]
    have hfree' : List.count q (Pool.free { p with outstanding := p.outstanding.erase id }) =
      List.count q p.free := rfl
    omega
  · have hk := h.numbered k
    have hlent := (p.lentIds_erase hloan).count_eq k
    rw [List.count_cons] at hlent
    have hids : List.count k p'.idleIds ≤ List.count k p.idleIds +
        List.count k (c.map (·.id)).toList := hback.ids k
    have hnumber : List.count k (c.map (·.id)).toList ≤
        if (loan.signal.connection == k) = true then 1 else 0 := by
      cases c with
      | none => exact Nat.zero_le _
      | some c =>
        exact Nat.le_of_eq
          (by rw [Option.map_some, Option.toList_some, List.count_singleton, (hc c rfl).id])
    rw [lentIds_congr hback.outstanding, hback.lastConnection]
    show _ ∧ (p.lastConnection < k → _)
    omega

/-! ## Questions -/

theorem supplyAny_fresh {signal : Signal} {partition : Option Partition}
    (h : p.supplyAny.2 = .fresh signal partition) : partition = none := by
  unfold supplyAny at h
  split at h
  · cases h
  · cases h
    rfl

/-- A connection that is taken out to ask through takes its partition along. -/
theorem draw (h : Owned p phs xs) : Owned p.supplyAny.1 phs (.taken p.supplyAny.2 :: xs) := by
  have hdraws := p.supplyAny_draws
  have hfresh := @supplyAny_fresh p
  generalize p.supplyAny.1 = p', p.supplyAny.2 = s at hdraws hfresh ⊢
  have hterms := hdraws.sameTerms
  have hserves := h.serves_supply hdraws
  obtain ⟨hout, hclosed, hlast⟩ := hdraws.same
  refine ⟨hout ▸ h.sorted, by rw [hout, hlast]; exact h.issued, h.phases_congr hterms hout,
    by rw [hout]; exact h.held, fun i hi => (h.idle i (hdraws.sublist i hi)).congr hterms,
    fun x hx => ?_, fun hlends => ?_, ?_, fun k => ?_⟩
  · obtain rfl | hx := List.mem_cons.mp hx
    · cases s with
      | idle i => exact hserves
      | fresh signal partition => exact hfresh rfl
    · exact (h.inquiries x hx).congr hterms
  · have hb := h.bound (hterms.lendsPartitions.symm.trans hlends)
    exact ⟨fun i hi => hb.1 i (hdraws.sublist i hi), by rw [hout]; exact hb.2⟩
  · obtain ⟨lost, hl, hcount⟩ := h.shares
    refine ⟨lost, by rwa [hclosed], fun q => ?_⟩
    have hq := hcount q
    have hfree := hdraws.free.count_eq q
    simp only [List.count_append] at hfree
    rw [asked, filterMap_cons_toList, List.count_append, lent_congr hout, hterms.subscription]
    show List.count q p'.free + _ + (List.count q (Supply.loan s).partition.toList +
      List.count q (asked xs)) + _ = _
    omega
  · have hk := h.numbered_draws hdraws k
    rw [lentIds_congr hout, askedIds, List.map_cons, List.count_cons]
    change _ + (List.count k (askedIds xs) +
      if ((Supply.loan s).signal.connection == k) = true then 1 else 0) ≤ 1 ∧
      (_ → _ + (List.count k (askedIds xs) +
        if ((Supply.loan s).signal.connection == k) = true then 1 else 0) = 0)
    omega

theorem setInquiry (h : Owned p phs xs) {i : Nat} {x x' : Inquiry} (hx : xs[i]? = some x)
    (hloan : x'.loan = x.loan) (hserves : x'.Serves p) : Owned p phs (xs.set i x') := by
  refine { h with inquiries := fun y hy => ?_, shares := ?_, numbered := fun k => ?_ }
  · obtain hy | rfl := List.mem_or_eq_of_mem_set hy
    · exact h.inquiries y hy
    · exact hserves
  · obtain ⟨lost, hl, hcount⟩ := h.shares
    exact ⟨lost, hl, fun q => by rw [(asked_set hx (by rw [hloan])).count_eq q]; exact hcount q⟩
  · rw [(askedIds_set hx (by rw [hloan])).count_eq k]
    exact h.numbered k

theorem dropInquiry (h : Owned p phs xs) {i : Nat} {x : Inquiry} (hx : xs[i]? = some x)
    (hnone : x.loan.partition = none) : Owned p phs (xs.eraseIdx i) := by
  have hasked := asked_eraseIdx hx
  rw [hnone, Option.toList_none, List.nil_append] at hasked
  refine { h with inquiries := fun y hy => ?_, shares := ?_, numbered := fun k => ?_ }
  · exact h.inquiries y ((List.eraseIdx_sublist xs i).subset hy)
  · obtain ⟨lost, hl, hcount⟩ := h.shares
    exact ⟨lost, hl, fun q => by rw [← hasked.count_eq q]; exact hcount q⟩
  · have hk := h.numbered k
    have hids := (askedIds_eraseIdx hx).count_eq k
    rw [List.count_cons] at hids
    omega

theorem endQuery (h : Owned p phs xs) {i : Nat} {q : Query} {faulty : Bool}
    (hx : xs[i]? = some (.answered q faulty)) :
    Owned (p.endQuery q faulty).1 phs (xs.eraseIdx i) := by
  have hback := p.endQuery_regains q faulty
  have hsome := fun hlends hidle => @endQuery_isSome p hlends hidle q faulty
  generalize (p.endQuery q faulty).1 = p' at hback hsome ⊢
  have hterms := hback.terms
  have hserves : q.connection.Serves p ⟨q.connection.signal, q.partition⟩ :=
    h.inquiries _ (List.mem_of_getElem? hx)
  refine ⟨hback.outstanding ▸ h.sorted, ?_, h.phases_congr hterms hback.outstanding, ?_,
    fun j hj => ?_, fun y hy => ?_, fun hlends => ?_, ?_, fun k => ?_⟩
  · rw [hback.outstanding, hback.lastLease]
    exact h.issued
  · rw [hback.outstanding]
    exact h.held
  · obtain hj | ⟨hj, hc⟩ := hback.idle j hj
    · exact (h.idle j hj).congr hterms
    · rw [IdleConnection.loan, hj, ← Option.some.inj hc]
      exact hserves.congr hterms
  · exact (h.inquiries y ((List.eraseIdx_sublist xs i).subset hy)).congr hterms
  · have hlends : p.lendsPartitions = true := hterms.lendsPartitions.symm.trans hlends
    exact ⟨hsome hlends (h.bound hlends).1, by rw [hback.outstanding]; exact (h.bound hlends).2⟩
  · obtain ⟨lost, hl, hcount⟩ := h.shares
    refine ⟨lost, by rwa [hback.closed], fun r => ?_⟩
    have hr := hcount r
    have hfree := hback.free.count_eq r
    have hasked := (asked_eraseIdx hx).count_eq r
    simp only [List.count_append] at hfree hasked
    rw [lent_congr hback.outstanding, hterms.subscription]
    have hloan : (Inquiry.answered q faulty).loan.partition = q.partition := rfl
    rw [hloan] at hasked
    omega
  · have hk := h.numbered k
    have hasked := (askedIds_eraseIdx hx).count_eq k
    have hids := hback.ids k
    have hid : q.connection.id = q.connection.signal.connection := hserves.id
    rw [Option.map_some, Option.toList_some, List.count_singleton, hid] at hids
    rw [List.count_cons] at hasked
    change _ = _ + (if (q.connection.signal.connection == k) = true then 1 else 0) at hasked
    rw [lentIds_congr hback.outstanding, hback.lastConnection]
    omega

end Owned

end RecordIntake
