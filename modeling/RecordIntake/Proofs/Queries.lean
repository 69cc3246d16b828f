import RecordIntake.Proofs.Capacity
import RecordIntake.Proofs.Waiting

/-!
What a question for a partition count leaves behind.  It is asked through the idle connection that
came back last, or through one that is opened for it, and afterwards the pool is to be as it was: a
connection that was idle goes back to its place, at the age and with the partition that it had.
Among the connections that may be open there is always room for it, so only a fatal answer costs the
pool a connection.  One that was opened to ask stays only where connections have no partitions of
their own, and only if a lease could have had it.
-/
namespace RecordIntake

theorem Environment.journal_partitionCount (env : Environment) (c : Connection) (topic : String) :
    (env.partitionCount c topic).1.journal =
      .counted c.id topic (env.partitionCount c topic).2 :: env.journal := by
  unfold partitionCount
  split
  · rename_i e env₁ h
    obtain ⟨x, -, hx⟩ := Option.map_eq_some_iff.mp h
    cases hx
    rfl
  · rfl

namespace Pool

variable {p : Pool}

/-! ## Taking a connection out -/

theorem pickNewest_concat (others : List IdleConnection) (i : IdleConnection) :
    pickNewest (others ++ [i]) = some (i, others) := by
  simp only [pickNewest, List.reverse_append, List.reverse_singleton, List.singleton_append,
    List.reverse_reverse]

theorem supplyQuery_concat (hopen : p.closed = false) {others : List IdleConnection}
    {i : IdleConnection} (hidle : p.idle = others ++ [i]) :
    p.supplyQuery = ({ p with idle := others }, some (.idle i)) := by
  simp only [supplyQuery, hopen, Bool.false_eq_true, if_false, supplyAny, hidle, pickNewest_concat]

theorem supplyQuery_nil (hopen : p.closed = false) (hidle : p.idle = []) :
    p.supplyQuery = (p.nextSignal.1, some (.fresh p.nextSignal.2 none)) := by
  simp only [supplyQuery, hopen, Bool.false_eq_true, if_false, supplyAny, hidle, pickNewest,
    List.reverse_nil]

/-! ## Putting it back -/

/-- Whether the pool can have the connection back. -/
def HasPlace (p : Pool) (q : Query) : Prop :=
  (p.lendsPartitions = true → q.partition.isSome = true) ∧ p.closed = false ∧
    p.openConnections < p.maxLeases

theorem endQuery_place {q : Query} (h : p.HasPlace q) :
    p.endQuery q false =
      ({ p with idle := p.idle ++ [⟨q.connection, q.partition, q.since⟩] }, none) := by
  obtain ⟨hbound, hopen, hroom⟩ := h
  have hunbound : (p.lendsPartitions && q.partition.isNone) = false := by
    cases hlends : p.lendsPartitions with
    | false => rfl
    | true => rw [Bool.true_and, Option.isNone_eq_false_iff, hbound hlends]
  simp only [endQuery, hunbound, hopen, Bool.false_or, decide_eq_true_eq]
  exact if_neg (Nat.not_le.mpr hroom)

theorem endQuery_given_up {q : Query} {faulty : Bool} (h : faulty = true ∨ ¬ p.HasPlace q) :
    p.endQuery q faulty = (p.unbind q.partition q.since, some q.connection) := by
  simp only [endQuery]
  refine if_pos ?_
  obtain rfl | hplace := h
  · simp only [Bool.true_or]
  · by_contra hnot
    simp only [Bool.or_eq_true, Bool.and_eq_true, Option.isNone_iff_eq_none, decide_eq_true_eq,
      not_or, not_and, Bool.not_eq_true, Nat.not_le] at hnot
    obtain ⟨⟨⟨-, hbound⟩, hopen⟩, hroom⟩ := hnot
    exact hplace ⟨fun hlends => Option.isSome_iff_ne_none.mpr (hbound hlends), hopen, hroom⟩

/-! ## The whole question -/

/-- Asked through an idle connection, a question that has no fatal answer changes nothing.  After a
fatal one the connection is closed, and its partition is unclaimed since the connection was idle. -/
theorem partitionCount_concat (hopen : p.closed = false)
    (hroom : p.openConnections ≤ p.maxLeases) {others : List IdleConnection} {i : IdleConnection}
    (hidle : p.idle = others ++ [i])
    (hbound : p.lendsPartitions = true → i.partition.isSome = true) (env : Environment)
    (topic : String) :
    p.partitionCount env topic =
      if isFatal (env.partitionCount i.connection topic).2 then
        ((env.partitionCount i.connection topic).1.disconnect i.connection .closed,
          { p with
            idle := others
            unclaimed := p.unclaimed ++ (i.partition.map fun q => ⟨q, i.since⟩).toList },
          (env.partitionCount i.connection topic).2)
      else
        ((env.partitionCount i.connection topic).1, p,
          (env.partitionCount i.connection topic).2) := by
  simp only [partitionCount, startQuery, supplyQuery_concat hopen hidle, Supply.query, finishQuery,
    returnQuery]
  cases hfatal : isFatal (env.partitionCount i.connection topic).2 with
  | true =>
    rw [endQuery_given_up (.inl rfl), unbind_eq]
    rfl
  | false =>
    have hplace : { p with idle := others }.HasPlace ⟨i.connection, i.partition, i.since⟩ := by
      refine ⟨hbound, hopen, ?_⟩
      simp only [openConnections, maxLeases, hidle, List.length_append, List.length_singleton]
        at hroom ⊢
      omega
    rw [endQuery_place hplace]
    simp only [Bool.false_eq_true, if_false, ← hidle]

/-- What remains of a question that was asked through an idle connection. -/
theorem partitionCount_idle (hopen : p.closed = false) (hroom : p.openConnections ≤ p.maxLeases)
    {others : List IdleConnection} {i : IdleConnection} (hidle : p.idle = others ++ [i])
    (hbound : p.lendsPartitions = true → i.partition.isSome = true) (env : Environment)
    (topic : String) :
    isFatal (p.partitionCount env topic).2.2 = false ∧ (p.partitionCount env topic).2.1 = p ∨
      isFatal (p.partitionCount env topic).2.2 = true ∧
        (p.partitionCount env topic).2.1 = { p with
          idle := others
          unclaimed := p.unclaimed ++ (i.partition.map fun q => ⟨q, i.since⟩).toList } ∧
        (p.partitionCount env topic).1.journal =
          .closed i.connection.id ::
            .counted i.connection.id topic (p.partitionCount env topic).2.2 :: env.journal := by
  rw [partitionCount_concat hopen hroom hidle hbound]
  cases hfatal : isFatal (env.partitionCount i.connection topic).2 with
  | false =>
    rw [if_neg Bool.false_ne_true]
    exact .inl ⟨hfatal, rfl⟩
  | true =>
    rw [if_pos rfl]
    refine .inr ⟨hfatal, rfl, ?_⟩
    exact congrArg (List.cons _) (env.journal_partitionCount i.connection topic)

/-- Where no connection is idle, one that is opened for the question stays only if its answer is not
fatal, if it needs no partition and if one more lease might be out. -/
theorem partitionCount_nil (hopen : p.closed = false) (hidle : p.idle = []) (env : Environment)
    (topic : String) :
    (p.partitionCount env topic).2.1 = p.nextSignal.1 ∨
      p.lendsPartitions = false ∧ isFatal (p.partitionCount env topic).2.2 = false ∧
        p.outstanding.length < p.maxLeases ∧
        (p.partitionCount env topic).2.1 =
          { p.nextSignal.1 with
            idle := [⟨⟨p.nextSignal.2.connection, p.nextSignal.2, p.subscription, []⟩, none,
              env.now⟩] } := by
  cases hc : p.nextSignal.1.openConnection env p.nextSignal.2 none with
  | mk env' result =>
    cases result with
    | error e =>
      left
      simp only [partitionCount, startQuery, supplyQuery_nil hopen hidle, Supply.query, hc]
    | ok c =>
      have hasked : p.partitionCount env topic =
          p.nextSignal.1.finishQuery env' ⟨c, none, env'.now⟩ topic := by
        simp only [partitionCount, startQuery, supplyQuery_nil hopen hidle, Supply.query, hc]
      rw [hasked]
      simp only [finishQuery, returnQuery]
      by_cases hkept : isFatal (env'.partitionCount c topic).2 = true ∨
          ¬ p.nextSignal.1.HasPlace ⟨c, none, env'.now⟩
      · left
        rw [endQuery_given_up hkept, unbind]
      · right
        simp only [not_or, not_not, Bool.not_eq_true] at hkept
        obtain ⟨hfatal, hplace⟩ := hkept
        have hnow : env'.now = env.now := by
          have h := p.nextSignal.1.now_openConnection env p.nextSignal.2 none
          rwa [hc] at h
        rw [hfatal, endQuery_place hplace]
        obtain ⟨hbound, -, hroom⟩ := hplace
        have hlends : p.lendsPartitions = false := by
          cases h : p.lendsPartitions with
          | false => rfl
          | true => cases hbound h
        refine ⟨hlends, rfl, ?_, ?_⟩
        · exact Nat.lt_of_le_of_lt (Nat.le_add_left ..) hroom
        · rw [openConnection_ok hc, hnow]
          simp only [connectionSubscription, lendsPartitions] at hlends ⊢
          simp only [nextSignal, hidle, hlends, List.nil_append]
          rfl

end Pool

theorem Owned.partition_eq_none {p : Pool} {phs : SortedMap LeaseId Phase} {xs : List Inquiry}
    (h : Owned p phs xs) (hopen : p.closed = false) (hlends : p.lendsPartitions = false)
    {i : IdleConnection} (hi : i ∈ p.idle) : i.partition = none := by
  cases hq : i.partition with
  | none => rfl
  | some q =>
    have hfree : q ∈ p.free := List.mem_append_left _ (List.mem_filterMap.mpr ⟨i, hi, hq⟩)
    have howned : q ∈ p.subscription.ownedPartitions :=
      (h.perm hopen).mem_iff.mp (List.mem_append_left _ (List.mem_append_left _ hfree))
    rw [Pool.lendsPartitions] at hlends
    cases hs : p.subscription with
    | partitions owned =>
      rw [hs] at hlends
      cases hlends
    | topics ts | pattern ts =>
      rw [hs] at howned
      cases howned

namespace World

/-- A question for a partition count leaves an open pool as it was, whatever happened before.  Under
explicit ownership nothing changes unless the answer is fatal and the question was asked through an
idle connection; that connection is closed then, and its partition is unclaimed at the age it had.
Otherwise the same leases are out, and the same connections are idle but for one: a new one, where
none was idle and one more lease might be out, or the one that was asked and gave a fatal answer. -/
theorem question_leaves_pool_alone (maxPollRecords now : Nat) (s : Subscription)
    (reader : RecordReader) (settings : IntakeSettings) (as : List Action) (topic : String) :
    let w := (World.start maxPollRecords now s reader settings).run as
    let env := (w.pool.partitionCount w.env topic).1
    let pool := (w.pool.partitionCount w.env topic).2.1
    let result := (w.pool.partitionCount w.env topic).2.2
    w.pool.closed = false →
      pool.outstanding = w.pool.outstanding ∧
      (s.isExplicit = true →
        (Pool.isFatal result = false ∨ w.pool.idle = [] →
          pool = { w.pool with lastConnection := pool.lastConnection }) ∧
        ∀ others i, Pool.isFatal result = true → w.pool.idle = others ++ [i] →
          ∃ q, i.partition = some q ∧
            pool = { w.pool with
              idle := others
              unclaimed := w.pool.unclaimed ++ [⟨q, i.since⟩] } ∧
            env.journal =
              .closed i.connection.id :: .counted i.connection.id topic result ::
                w.env.journal) ∧
      (s.isExplicit = false →
        pool = { w.pool with idle := pool.idle, lastConnection := pool.lastConnection } ∧
        (pool.idle = w.pool.idle ∨
          (∃ c, w.pool.idle = [] ∧ w.pool.outstanding.length < settings.pool.maxLeases ∧
            Pool.isFatal result = false ∧ c.id = w.pool.lastConnection + 1 ∧
            pool.idle = [⟨c, none, w.env.now⟩]) ∨
          ∃ i, Pool.isFatal result = true ∧ w.pool.idle = pool.idle ++ [i] ∧
            env.journal =
              .closed i.connection.id :: .counted i.connection.id topic result ::
                w.env.journal)) := by
  intro w env pool result hopen
  obtain ⟨howned, haccounted⟩ : Balanced w := balanced_run (balanced_start ..) as
  have hterms : Pool.SameTerms _ w.pool :=
    sameTerms_run (World.start maxPollRecords now s reader settings) as
  have hlends : w.pool.lendsPartitions = s.isExplicit := hterms.lendsPartitions
  have hmax : w.pool.maxLeases = settings.pool.maxLeases := by
    rw [Pool.maxLeases, hterms.settings]
    rfl
  obtain hidle | ⟨others, i, hidle⟩ := List.eq_nil_or_concat' w.pool.idle
  · -- a connection is opened for the question
    obtain hgone | ⟨hshared, hfatal, hroom, hkept⟩ :=
      w.pool.partitionCount_nil hopen hidle w.env topic
    · change pool = _ at hgone
      rw [hgone]
      refine ⟨rfl, fun _ => ⟨fun _ => rfl, fun others i _ hi => ?_⟩, fun _ => ⟨rfl, .inl rfl⟩⟩
      rw [hidle] at hi
      cases List.append_ne_nil_of_right_ne_nil others (List.cons_ne_nil i []) hi.symm
    · change pool = _ at hkept
      rw [hkept]
      refine ⟨rfl, fun hexplicit => ?_, fun _ => ⟨rfl, .inr (.inl ?_)⟩⟩
      · rw [hlends, hexplicit] at hshared
        cases hshared
      · exact ⟨_, hidle, hmax ▸ hroom, hfatal, rfl, rfl⟩
  · -- the connection that came back last is asked
    have hi : i ∈ w.pool.idle := hidle ▸ List.mem_append_right _ (List.mem_singleton_self i)
    have hbound := fun h => (howned.bound h).1 i hi
    have hroom := haccounted.fits.room
    obtain ⟨hresult, hsame⟩ | ⟨hresult, hgone, hclosed⟩ :=
      w.pool.partitionCount_idle hopen hroom hidle hbound w.env topic
    · change Pool.isFatal result = false at hresult
      change pool = _ at hsame
      rw [hsame, hresult]
      exact ⟨rfl, fun _ => ⟨fun _ => rfl, fun _ _ h => by cases h⟩, fun _ => ⟨rfl, .inl rfl⟩⟩
    · change Pool.isFatal result = true at hresult
      change pool = _ at hgone
      rw [hgone, hresult]
      refine ⟨rfl, fun hexplicit => ⟨fun h => ?_, fun others' i' _ hi' => ?_⟩,
        fun hshared => ⟨?_, .inr (.inr ⟨i, rfl, hidle, hclosed⟩)⟩⟩
      · obtain h | h := h
        · cases h
        · cases List.append_ne_nil_of_right_ne_nil others (List.cons_ne_nil i [])
            (hidle.symm.trans h)
      · obtain ⟨rfl, hii⟩ := List.append_inj' (hidle.symm.trans hi') rfl
        cases hii
        obtain ⟨q, hq⟩ := Option.isSome_iff_exists.mp (hbound (hlends.trans hexplicit))
        refine ⟨q, hq, ?_, hclosed⟩
        rw [hq]
        rfl
      · rw [howned.partition_eq_none hopen (hlends.trans hshared) hi]
        simp only [Option.map_none, Option.toList_none, List.append_nil]

/-- One of two partitions is lent and comes back, and the next question will get a fatal answer. -/
def lendThenFault : List Action :=
  [.request "s", .supply 1, .advance 5, .abandon 1, .checkIn 1, .advance 5,
    .onCluster (.fault .partitionCount (.transport "lost"))]

theorem question_leaves_pool_alone_lendThenFault :
    let w := (World.start 10 0 (.partitions [("t", [0, 1])]) Record.read {}).run lendThenFault
    let pool := (w.pool.partitionCount w.env "t").2.1
    w.pool.closed = false ∧ Pool.isFatal (w.pool.partitionCount w.env "t").2.2 = true ∧
      pool.outstanding = w.pool.outstanding ∧ pool.idle = [] ∧
      pool.unclaimed = [⟨⟨"t", 1⟩, 0⟩, ⟨⟨"t", 0⟩, 5⟩] := by
  intro w pool
  have hopen : w.pool.closed = false := by decide +kernel
  have hfatal : Pool.isFatal (w.pool.partitionCount w.env "t").2.2 = true := by decide +kernel
  obtain ⟨hout, hexplicit, -⟩ := question_leaves_pool_alone 10 0 (.partitions [("t", [0, 1])])
    Record.read {} lendThenFault "t" hopen
  obtain ⟨q, hq, hpool, -⟩ := (hexplicit rfl).2 []
    ⟨⟨1, ⟨0, 1⟩, .partitions [("t", [0])], []⟩, some ⟨"t", 0⟩, 5⟩ hfatal rfl
  cases hq
  have hunclaimed : w.pool.unclaimed = [⟨⟨"t", 1⟩, 0⟩] := by decide +kernel
  have hadded : pool.unclaimed = w.pool.unclaimed ++ [⟨⟨"t", 0⟩, 5⟩] :=
    congrArg (·.unclaimed) hpool
  rw [hunclaimed] at hadded
  exact ⟨hopen, hfatal, hout, congrArg (·.idle) hpool, hadded⟩

end World
end RecordIntake
