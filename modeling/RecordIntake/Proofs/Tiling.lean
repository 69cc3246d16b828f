import RecordIntake.Proofs.Position

/-!
Under explicit ownership the commits tile the log.  Each one begins where the one before it ended,
for as long as a partition has a lease nobody else commits there, and a connection is never behind
or ahead of what is committed when a lease begins on it.
-/
namespace RecordIntake

/-- The committed offset of a partition; before the first commit it is the first one. -/
def Offsets.committedAt (offsets : Offsets) (p : Partition) : Int := (offsets.find? p).getD 0

/-- What all successful commits together have stated. -/
def committedAfter : List Occurrence → Offsets
  | [] => []
  | .committed _ _ _ offsets :: h => (committedAfter h).union offsets
  | _ :: h => committedAfter h

/-- Whether an occurrence is a commit that covers an offset. -/
def Occurrence.Covers (p : Partition) (k : Int) : Occurrence → Bool
  | .committed _ _ before offsets =>
    match offsets.find? p with
    | some n => decide (before.committedAt p ≤ k) && decide (k < n)
    | none => false
  | _ => false

/-- The connection of a lease that is not over, unless it is to be discarded. -/
def Phase.borrowed? : Phase → Option Connection
  | .held l | .waiting l _ | .emitting l _ _ => some l.connection
  | .returning c false => some c
  | _ => none

theorem Phase.borrowed_of_lease {ph : Phase} {l : Lease} (hl : ph.lease? = some l) :
    ph.borrowed? = some l.connection := by
  cases ph <;> cases hl <;> rfl

/-- What is borrowed is the connection of a lease, or one that is to be kept. -/
theorem Phase.borrowed_cases {ph : Phase} {c : Connection} (hc : ph.borrowed? = some c) :
    (∃ l, ph.lease? = some l ∧ l.connection = c) ∨ ph = .returning c false := by
  cases ph with
  | held l => exact .inl ⟨l, rfl, Option.some.inj hc⟩
  | waiting l deadline => exact .inl ⟨l, rfl, Option.some.inj hc⟩
  | emitting l units errand => exact .inl ⟨l, rfl, Option.some.inj hc⟩
  | returning c' discard =>
    cases discard with
    | true => cases hc
    | false =>
      cases hc
      exact .inr rfl
  | opening o sink => cases hc
  | ended => cases hc

theorem Phase.Continues.borrowed {ph ph' : Phase} (h : ph.Continues ph') {c : Connection}
    (hc : ph'.borrowed? = some c) : ph.borrowed? = some c := by
  obtain ⟨l', hl', rfl⟩ | rfl := Phase.borrowed_cases hc
  · obtain ⟨l, hl, hconnection, -⟩ := h.lease l' hl'
    rw [Phase.borrowed_of_lease hl, hconnection]
  · rw [h.returning c rfl]
    rfl

theorem Phase.Serves.of_borrowed {p : Pool} {id : LeaseId} {loan : Loan} {ph : Phase}
    {c : Connection} (h : ph.Serves p id loan) (hc : ph.borrowed? = some c) : c.Serves p loan := by
  obtain ⟨l, hl, rfl⟩ | rfl := Phase.borrowed_cases hc
  · exact h.of_lease hl
  · exact h

/-- A commit states, of each partition it touches, the offset behind what the lease has absorbed,
and that begins at the committed offset. -/
def Tiles (id : LeaseId) (before offsets : Offsets) (earlier : List Occurrence) : Prop :=
  before = committedAfter earlier ∧
    ∀ p n, offsets.find? p = some n →
      Message.onlyOf p (absorbed id earlier) ≠ [] ∧
        (Message.onlyOf p (absorbed id earlier)).map (·.offset) =
          offsetsFrom (before.committedAt p) (Message.onlyOf p (absorbed id earlier)).length ∧
        n = before.committedAt p + (Message.onlyOf p (absorbed id earlier)).length

namespace World

/-- The reading of every connection starts at the committed offsets of the partitions it selects. -/
structure Tiled (w : World) : Prop where
  borrowed : ∀ id ph c, w.phases.find? id = some ph → ph.borrowed? = some c →
    ∀ p start, startOf id p w.history = some start →
      start = w.env.cluster.committed.committedAt p ∧ c.subscription.selects p = true
  spare : ∀ c, w.Spare c → ∀ p position, c.positions.find? p = some position →
    position = w.env.cluster.committed.committedAt p ∧ c.subscription.selects p = true
  committed : w.env.cluster.committed = committedAfter w.history
  tiles : ∀ id c before offsets earlier,
    .committed id c before offsets :: earlier <:+ w.history → Tiles id before offsets earlier
  covered : ∀ p k, 0 ≤ k → w.history.countP (Occurrence.Covers p k) =
    if k < w.env.cluster.committed.committedAt p then 1 else 0

variable {w w' : World}

theorem tiled_calm (hcalm : Calm w w') (h : Tiled w) : Tiled w' where
  borrowed id ph' c hph' hc := by
    rw [hcalm.history, hcalm.steady.committed]
    obtain ⟨hnone, hno⟩ | ⟨ph, hph, hcont⟩ := hcalm.phases id ph' hph'
    · obtain ⟨l, hl, -⟩ | hreturning := Phase.borrowed_cases hc
      · rw [hl] at hnone
        cases hnone
      · exact absurd hreturning (hno c)
    · exact h.borrowed id ph c hph (hcont.borrowed hc)
  spare c hc p position hposition := by
    rw [hcalm.steady.committed]
    obtain hc | ⟨hnil, -⟩ := hcalm.spare c hc
    · exact h.spare c hc p position hposition
    · rw [hnil] at hposition
      cases hposition
  committed := by
    rw [hcalm.steady.committed, hcalm.history]
    exact h.committed
  tiles := by
    rw [hcalm.history]
    exact h.tiles
  covered := by
    rw [hcalm.history, hcalm.steady.committed]
    exact h.covered

theorem countP_append_of_not {os h : List Occurrence} {p : Partition} {k : Int}
    (hos : ∀ o ∈ os, ∀ id c before offsets, o ≠ .committed id c before offsets) :
    (os ++ h).countP (Occurrence.Covers p k) = h.countP (Occurrence.Covers p k) := by
  have hzero : os.countP (Occurrence.Covers p k) = 0 := by
    refine List.countP_eq_zero.mpr fun o ho => ?_
    cases o with
    | committed id c before offsets => exact absurd rfl (hos _ ho id c before offsets)
    | lent id c => exact Bool.false_ne_true
    | read id cluster before after messages => exact Bool.false_ne_true
    | returned id c => exact Bool.false_ne_true
  rw [List.countP_append, hzero, Nat.zero_add]

theorem committedAfter_append_of_not {os h : List Occurrence}
    (hos : ∀ o ∈ os, ∀ id c before offsets, o ≠ .committed id c before offsets) :
    committedAfter (os ++ h) = committedAfter h := by
  induction os with
  | nil => rfl
  | cons o os ih =>
    have ih := ih fun o' ho' => hos o' (List.mem_cons_of_mem o ho')
    cases o with
    | committed id c before offsets =>
      exact absurd rfl (hos _ List.mem_cons_self id c before offsets)
    | lent id c => exact ih
    | read id cluster before after messages => exact ih
    | returned id c => exact ih

/-- A step of one lease in which nothing is committed. -/
theorem tiled_insert (h : Tiled w) {env : Environment} {p' : Pool} {id : LeaseId} {ph' : Phase}
    (os : List Occurrence) (hcommitted : env.cluster.committed = w.env.cluster.committed)
    (hos : ∀ o ∈ os, ∀ id', id' ≠ id → o.Other id')
    (hno : ∀ o ∈ os, ∀ id c before offsets, o ≠ .committed id c before offsets)
    (hborrowed : ∀ c, ph'.borrowed? = some c → ∀ p start,
      startOf id p (os ++ w.history) = some start →
        start = w.env.cluster.committed.committedAt p ∧ c.subscription.selects p = true)
    (hspare : ∀ c, Spare { w with pool := p', phases := w.phases.insert id ph' } c →
      ∀ p position, c.positions.find? p = some position →
        position = w.env.cluster.committed.committedAt p ∧ c.subscription.selects p = true) :
    Tiled
      { w with
        env := env
        pool := p'
        phases := w.phases.insert id ph'
        history := os ++ w.history } where
  borrowed id' ph c hph hc p start hstart := by
    show start = env.cluster.committed.committedAt p ∧ _
    rw [hcommitted]
    rw [SortedMap.find?_insert] at hph
    split at hph
    · rename_i heq
      cases hph
      exact hborrowed c hc p start (heq ▸ hstart)
    · rename_i hne
      have hother := startOf_append_other (fun o ho => hos o ho id' hne) p w.history
      exact h.borrowed id' ph c hph hc p start (hother ▸ hstart)
  spare c hc := by
    show ∀ p position, _ → position = env.cluster.committed.committedAt p ∧ _
    rw [hcommitted]
    refine hspare c ?_
    cases hc with
    | idle i hi hic => exact .idle i hi hic
    | inquiry x hx hxc => exact .inquiry x hx hxc
    | opening id' o sink hph ho => exact .opening id' o sink hph ho
  committed := by
    rw [committedAfter_append_of_not hno]
    exact hcommitted.trans h.committed
  tiles id' c before offsets earlier hsuffix :=
    h.tiles id' c before offsets earlier
      (suffix_of_append (fun hmem => hno _ hmem id' c before offsets rfl) hsuffix)
  covered p k hk := by
    rw [countP_append_of_not hno]
    show _ = if k < env.cluster.committed.committedAt p then 1 else 0
    rw [hcommitted]
    exact h.covered p k hk

/-- A lease goes on with its connection. -/
theorem tiled_lease (h : Tiled w) {env : Environment} {id : LeaseId} {ph' : Phase}
    (os : List Occurrence) (hcommitted : env.cluster.committed = w.env.cluster.committed)
    (hos : ∀ o ∈ os, ∀ id', id' ≠ id → o.Other id')
    (hno : ∀ o ∈ os, ∀ id c before offsets, o ≠ .committed id c before offsets)
    (hopening : ∀ o sink, ph' ≠ .opening o sink)
    (hborrowed : ∀ c, ph'.borrowed? = some c → ∀ p start,
      startOf id p (os ++ w.history) = some start →
        start = w.env.cluster.committed.committedAt p ∧ c.subscription.selects p = true) :
    Tiled
      { w with
        env := env
        phases := w.phases.insert id ph'
        history := os ++ w.history } :=
  tiled_insert h os hcommitted hos hno hborrowed fun c hc => h.spare c (hc.of_insert hopening)

/-- What a lease reads it reads from the committed offset on. -/
theorem tiled_read (htracked : Tracked w) (h : Tiled w) {id : LeaseId} {l : Lease}
    {after : Connection} {result : Progress (Except IntakeError (List Message))}
    (hph : w.phases.find? id = some (.held l))
    (hpolls : Environment.Polls w.env.cluster l.connection after result) {p : Partition}
    {start : Int} (hstart : startOf id p
      (.read id w.env.cluster l.connection after result.messages :: w.history) = some start) :
    start = w.env.cluster.committed.committedAt p ∧ after.subscription.selects p = true := by
  have hold := h.borrowed id _ l.connection hph rfl p
  have hkeeps := (htracked.lease id _ l hph rfl).keeps p
  obtain ⟨positions, hafter⟩ := hpolls.same
  have hsubscription : after.subscription = l.connection.subscription := by rw [hafter]
  rw [startOf, if_pos rfl] at hstart
  rw [hsubscription]
  cases hbefore : startOf id p w.history with
  | some first =>
    rw [hbefore] at hstart
    exact hold start (hbefore.trans hstart)
  | none =>
    rw [hbefore, Option.none_or] at hstart
    obtain ⟨hselects, -, -⟩ | ⟨-, hpos⟩ := hpolls.reads_partition htracked.consistent p
    · split at hstart
      · exact ⟨(Option.some.inj hstart).symm, hselects⟩
      · cases hstart
    · cases hposition : l.connection.positions.find? p with
      | none =>
        rw [hpos, hposition] at hstart
        cases hstart
      | some position =>
        rw [hposition, hbefore] at hkeeps
        cases hkeeps.isSome_start

/-- What a lease commits of a partition begins at its committed offset, which nobody else moves. -/
theorem committable_tiles (htracked : Tracked w) (h : Tiled w) {id : LeaseId} {l : Lease}
    (hph : w.phases.find? id = some (.emitting l [] .commit)) {p : Partition} {r : OffsetRange}
    (hr : l.ledger.ranges.find? p = some r) :
    l.connection.subscription.selects p = true ∧
      l.connection.positions.find? p = some r.next ∧
      Message.onlyOf p (absorbed id w.history) ≠ [] ∧
      (Message.onlyOf p (absorbed id w.history)).map (·.offset) =
        offsetsFrom (w.env.cluster.committed.committedAt p)
          (Message.onlyOf p (absorbed id w.history)).length ∧
      r.next = w.env.cluster.committed.committedAt p +
        (Message.onlyOf p (absorbed id w.history)).length := by
  have hborrowed := h.borrowed id _ l.connection hph rfl p
  have hkeeps := (htracked.lease id _ l hph rfl).keeps p
  rw [hr] at hkeeps
  generalize l.connection.positions.find? p = position at hkeeps ⊢
  generalize hstart : startOf id p w.history = start at hkeeps
  generalize Message.onlyOf p (absorbed id w.history) = seen at hkeeps ⊢
  cases hkeeps with
  | @range _ first hne hreads =>
    obtain ⟨rfl, hselects⟩ := hborrowed first hstart
    exact ⟨hselects, rfl, hne, hreads.offsets, rfl⟩

/-- A commit moves a partition to the end of the ledger's range, and leaves those without one. -/
theorem committedAt_commit (htracked : Tracked w) {id : LeaseId} {l : Lease} {env : Environment}
    (hph : w.phases.find? id = some (.emitting l [] .commit))
    (hc : env.cluster.committed = w.env.cluster.committed.union l.ledger.committable)
    (p : Partition) : env.cluster.committed.committedAt p =
      ((l.ledger.ranges.find? p).map (·.next)).getD (w.env.cluster.committed.committedAt p) := by
  have hsorted := (htracked.lease id _ l hph rfl).sorted
  rw [hc, Offsets.committedAt, SortedMap.find?_union (Ledger.sorted_committable hsorted),
    Ledger.find?_committable]
  cases l.ledger.ranges.find? p with
  | none => rfl
  | some r => rfl

/-- Whoever else selects a partition sees no change of its committed offset. -/
theorem committedAt_of_apart (hnodup : w.pool.subscription.ownedPartitions.Nodup)
    (hlends : w.pool.lendsPartitions = true) (htracked : Tracked w) (h : Tiled w) {id : LeaseId}
    {l : Lease} {loan loan' : Loan} {env : Environment} {c : Connection} {p : Partition}
    (hph : w.phases.find? id = some (.emitting l [] .commit))
    (hc : env.cluster.committed = w.env.cluster.committed.union l.ledger.committable)
    (hserves : l.connection.Serves w.pool loan) (hserves' : c.Serves w.pool loan')
    (hapart : Apart w.pool loan loan') (hselects : c.subscription.selects p = true) :
    env.cluster.committed.committedAt p = w.env.cluster.committed.committedAt p := by
  rw [committedAt_commit htracked hph hc]
  cases hr : l.ledger.ranges.find? p with
  | none => rfl
  | some r =>
    obtain ⟨hmine, -⟩ := committable_tiles htracked h hph hr
    rw [not_selects_of_apart hapart hnodup hlends hserves hserves' hmine] at hselects
    cases hselects

/-- Where a lease that has committed reads on is committed. -/
theorem position_committed (htracked : Tracked w) (h : Tiled w) {id : LeaseId} {l : Lease}
    {env : Environment} (hph : w.phases.find? id = some (.emitting l [] .commit))
    (hc : env.cluster.committed = w.env.cluster.committed.union l.ledger.committable)
    {p : Partition} {position : Int} (hposition : l.connection.positions.find? p = some position) :
    position = env.cluster.committed.committedAt p ∧
      l.connection.subscription.selects p = true := by
  rw [committedAt_commit htracked hph hc]
  cases hr : l.ledger.ranges.find? p with
  | some r =>
    obtain ⟨hselects, hnext, -⟩ := committable_tiles htracked h hph hr
    rw [hnext] at hposition
    exact ⟨(Option.some.inj hposition).symm, hselects⟩
  | none =>
    have hfirst := ((htracked.lease id _ l hph rfl).keeps p).first
    rw [hr, Option.map_none, Option.none_or, hposition] at hfirst
    exact h.borrowed id _ l.connection hph rfl p position hfirst.symm

/-- A commit covers the offsets from the committed one on that come before the new one. -/
theorem covered_commit (htracked : Tracked w) (h : Tiled w) {id : LeaseId} {l : Lease}
    {env : Environment} (hph : w.phases.find? id = some (.emitting l [] .commit))
    (hc : env.cluster.committed = w.env.cluster.committed.union l.ledger.committable)
    (p : Partition) {k : Int} (hk : 0 ≤ k) :
    (Occurrence.committed id l.connection w.env.cluster.committed l.ledger.committable ::
        w.history).countP (Occurrence.Covers p k) =
      if k < env.cluster.committed.committedAt p then 1 else 0 := by
  rw [List.countP_cons, h.covered p k hk, committedAt_commit htracked hph hc, Occurrence.Covers,
    Ledger.find?_committable]
  cases hr : l.ledger.ranges.find? p with
  | none => rfl
  | some r =>
    obtain ⟨-, -, -, -, hn⟩ := committable_tiles htracked h hph hr
    simp only [Option.map_some, Option.getD_some, Bool.and_eq_true, decide_eq_true_eq]
    by_cases hbefore : k < w.env.cluster.committed.committedAt p
    · rw [if_pos hbefore, if_neg (by omega), if_pos (by omega)]
    · by_cases hafter : k < r.next
      · rw [if_neg hbefore, if_pos (by omega), if_pos hafter]
      · rw [if_neg hbefore, if_neg (by omega), if_neg hafter]

theorem tiled_commit (howned : Owned w.pool w.phases w.inquiries)
    (hnodup : w.pool.subscription.ownedPartitions.Nodup) (hlends : w.pool.lendsPartitions = true)
    (htracked : Tracked w) (h : Tiled w) {id : LeaseId} {l : Lease} {env : Environment}
    (hph : w.phases.find? id = some (.emitting l [] .commit))
    (hc : env.cluster.committed = w.env.cluster.committed.union l.ledger.committable) (now : Nat) :
    Tiled
      { w with
        env := env
        phases := w.phases.insert id (.held (l.startNextCycle now))
        history :=
          .committed id l.connection w.env.cluster.committed l.ledger.committable :: w.history } := by
  obtain hended | ⟨loan, hloan, hserves⟩ := howned.phases id _ hph
  · cases hended
  have hserves : l.connection.Serves w.pool loan := hserves
  refine ⟨fun id' ph c hph' hborrowed p start hstart => ?_, fun c hspare p position hpos => ?_,
    ?_, fun id' c before offsets earlier hsuffix => ?_,
    fun p k => covered_commit htracked h hph hc p⟩
  · show start = env.cluster.committed.committedAt p ∧ _
    rw [SortedMap.find?_insert] at hph'
    split at hph'
    · rename_i heq
      subst heq
      cases hph'
      cases hborrowed
      exact position_committed htracked h hph hc ((if_pos rfl).symm.trans hstart)
    · rename_i hne
      have hstart : startOf id' p w.history = some start := (if_neg (Ne.symm hne)).symm.trans hstart
      obtain ⟨hat, hselects⟩ := h.borrowed id' ph c hph' hborrowed p start hstart
      obtain hended | ⟨loan', hloan', hserves'⟩ := howned.phases id' ph hph'
      · subst hended
        cases hborrowed
      · rw [committedAt_of_apart hnodup hlends htracked h hph hc hserves
          (hserves'.of_borrowed hborrowed) (apart_lease howned hloan hloan' hne) hselects]
        exact ⟨hat, hselects⟩
  · show position = env.cluster.committed.committedAt p ∧ _
    have hspare := Spare.of_insert (by simp) hspare
    obtain ⟨hat, hselects⟩ := h.spare c hspare p position hpos
    obtain ⟨loan', hserves', hapart⟩ := spare_apart howned hph (by simp) hloan hspare
    rw [committedAt_of_apart hnodup hlends htracked h hph hc hserves hserves' hapart hselects]
    exact ⟨hat, hselects⟩
  · show env.cluster.committed = (committedAfter w.history).union l.ledger.committable
    rw [hc, h.committed]
  · obtain heq | hsuffix := List.suffix_cons_iff.mp hsuffix
    · cases heq
      refine ⟨h.committed, fun p n hn => ?_⟩
      rw [Ledger.find?_committable] at hn
      obtain ⟨r, hr, rfl⟩ := Option.map_eq_some_iff.mp hn
      obtain ⟨-, -, hne, hoffsets, hn⟩ := committable_tiles htracked h hph hr
      exact ⟨hne, hoffsets, hn⟩
    · exact h.tiles id' c before offsets earlier hsuffix

theorem absorbs_borrowed {l : Lease} {ms : List Message} {ph' : Phase}
    (h : l.Absorbs ms ph') {c : Connection} (hc : ph'.borrowed? = some c) : c = l.connection := by
  cases h <;> cases hc <;> rfl

/-- A connection that is to be kept comes back at the committed offsets. -/
theorem tiled_abandon (h : Tiled w) {id : LeaseId} {ph : Phase} {l : Lease} {env : Environment}
    {c : Connection} {discard : Bool} (hph : w.phases.find? id = some ph)
    (hl : ph.lease? = some l) (hsteady : w.env.Steady env)
    (ha : l.abandon w.env = (env, c, discard)) :
    Tiled { w with env := env, phases := w.phases.insert id (.returning c discard) } := by
  refine tiled_lease h [] hsteady.committed (by simp) (by simp) (by simp)
    fun c' hc' p start hstart => ?_
  obtain ⟨hat, hselects⟩ :=
    h.borrowed id ph l.connection hph (Phase.borrowed_of_lease hl) p start hstart
  cases discard with
  | true => cases hc'
  | false =>
    cases hc'
    obtain ⟨positions, hc⟩ := l.abandon_connection w.env
    rw [ha] at hc
    obtain rfl : c = _ := hc
    exact ⟨hat, hselects⟩

theorem tiled_checkIn (htracked : Tracked w) (h : Tiled w) {id : LeaseId} {c : Connection}
    {discard : Bool} {env : Environment} (hph : w.phases.find? id = some (.returning c discard))
    (hsteady : w.env.Steady env) (now : Nat) (os : List Occurrence)
    (hos : ∀ o ∈ os, ∀ id', o.Other id')
    (hno : ∀ o ∈ os, ∀ id c before offsets, o ≠ .committed id c before offsets) :
    Tiled
      { w with
        env := env
        pool := (w.pool.takeBack id (some c) discard now).1
        phases := w.phases.insert id .ended
        history := os ++ w.history } := by
  refine tiled_insert h os hsteady.committed (fun o ho id' _ => hos o ho id') hno
    (fun _ hc => by cases hc) fun c' hc' p position hposition => ?_
  obtain hc' | ⟨rfl, hkept⟩ := spare_checkIn hc'
  · exact h.spare c' hc' p position hposition
  · obtain rfl : discard = false := (Bool.or_eq_false_iff.mp hkept).1
    rw [htracked.returning id c hph p] at hposition
    exact h.borrowed id _ c hph rfl p position hposition

theorem tiled_moves (howned : Owned w.pool w.phases w.inquiries)
    (hnodup : w.pool.subscription.ownedPartitions.Nodup) (hlends : w.pool.lendsPartitions = true)
    (htracked : Tracked w) (hmoves : Moves w w') (h : Tiled w) : Tiled w' := by
  cases hmoves with
  | calm hcalm => exact tiled_calm hcalm h
  | @lend id o sink _ c env hph hsteady hy now =>
    refine tiled_lease h [.lent id c] hsteady.committed
      (List.forall_mem_singleton.mpr fun id' hne => hne.symm) (by simp) (by simp)
      fun c' hc' p start hstart => ?_
    cases hc'
    have hstart : c.positions.find? p = some start := (if_pos rfl).symm.trans hstart
    obtain hspare | ⟨hnil, -⟩ := spare_of_yields hph hy
    · exact h.spare c hspare p start hstart
    · rw [hnil] at hstart
      cases hstart
  | @read id l env after result ph' hph hl hsteady hpolls hph' =>
    refine tiled_lease h [.read id w.env.cluster l.connection after result.messages]
      hsteady.committed (List.forall_mem_singleton.mpr fun id' hne => hne.symm) (by simp)
      hph'.not_opening fun c hc p start hstart => ?_
    rw [absorbs_borrowed hph' hc]
    exact tiled_read htracked h hph hpolls hstart
  | @absorb id ph ph' l env hph hx hsteady hph' =>
    refine tiled_lease h [] hsteady.committed (by simp) (by simp) hph'.not_opening
      fun c hc p start hstart => ?_
    rw [absorbs_borrowed hph' hc]
    have hborrowed := Phase.borrowed_of_lease (Phase.lease_of_work hx)
    exact h.borrowed id ph l.connection hph hborrowed p start hstart
  | accept hph hcluster hj =>
    refine tiled_lease h [] (by rw [hcluster]) (by simp) (by simp) (by simp)
      fun c hc p start hstart => ?_
    cases hc
    exact h.borrowed _ _ _ hph rfl p start hstart
  | commit hph hempty hlogs hj hc now =>
    exact tiled_commit howned hnodup hlends htracked h hph hc now
  | refuse hph hlogs hj hc =>
    refine tiled_lease h [] hc (by simp) (by simp) (by simp) fun c hc p start hstart => ?_
    cases hc
    exact h.borrowed _ _ _ hph rfl p start hstart
  | abandon hph hl hsteady ha => exact tiled_abandon h hph hl hsteady ha
  | @checkIn id c discard env hph hsteady now =>
    split
    · exact tiled_checkIn htracked h hph hsteady now [] (by simp) (by simp)
    · exact tiled_checkIn htracked h hph hsteady now [.returned id c]
        (List.forall_mem_singleton.mpr fun _ => trivial) (by simp)

theorem tiled_start (maxPollRecords now : Nat) (s : Subscription) (reader : RecordReader)
    (settings : IntakeSettings) : Tiled (.start maxPollRecords now s reader settings) where
  borrowed id ph c h := by cases h
  spare c hc := by
    cases hc with
    | idle i h => cases h
    | inquiry x h => cases h
    | opening id o sink h => cases h
  committed := rfl
  tiles id c before offsets earlier h := by simp [World.start] at h
  covered p k hk := by
    show 0 = if k < 0 then 1 else 0
    rw [if_neg (by omega)]

/-- A committed offset never decreases. -/
theorem committedAt_le (htracked : Tracked w) (h : Tiled w) (hmoves : Moves w w') (p : Partition) :
    w.env.cluster.committed.committedAt p ≤ w'.env.cluster.committed.committedAt p := by
  have hsame : ∀ {offsets : Offsets}, offsets = w.env.cluster.committed →
      w.env.cluster.committed.committedAt p ≤ offsets.committedAt p :=
    fun heq => Int.le_of_eq (by rw [heq])
  cases hmoves with
  | calm hcalm => exact hsame hcalm.steady.committed
  | lend hph hsteady hy now => exact hsame hsteady.committed
  | read hph hl hsteady hpolls hph' => exact hsame hsteady.committed
  | absorb hph hx hsteady hph' => exact hsame hsteady.committed
  | accept hph hcluster hj => exact hsame (by rw [hcluster])
  | refuse hph hlogs hj hc => exact hsame hc
  | abandon hph hl hsteady ha => exact hsame hsteady.committed
  | checkIn hph hsteady now => exact hsame hsteady.committed
  | @commit id l env hph hempty hlogs hj hc now =>
    show _ ≤ env.cluster.committed.committedAt p
    rw [committedAt_commit htracked hph hc]
    cases hr : l.ledger.ranges.find? p with
    | none => exact Int.le_refl _
    | some r =>
      obtain ⟨-, -, -, -, hn⟩ := committable_tiles htracked h hph hr
      rw [Option.map_some, Option.getD_some, hn]
      omega

/-! ## The journal -/

theorem filterMap_commit_quiet {es : List Event} (h : ∀ e ∈ es, e.isQuiet = true) :
    es.filterMap Event.commit? = [] := by
  refine List.filterMap_eq_nil_iff.mpr fun e he => ?_
  have hquiet := h e he
  cases e with
  | committed c offsets result => cases hquiet
  | connected | polled | rewound | counted | closed | emitted | refused | poolMissing => rfl

theorem commits_steady {env env' : Environment} (h : env.Steady env') :
    env'.journal.filterMap Event.commit? = env.journal.filterMap Event.commit? := by
  obtain ⟨es, hes, hj⟩ := h.journal
  rw [hj, List.filterMap_append, filterMap_commit_quiet hes, List.nil_append]

/-- The commits that succeeded are those that are remembered. -/
def Journaled (w : World) : Prop :=
  w.env.journal.filterMap Event.commit? = w.history.filterMap Occurrence.commit?

theorem journaled_moves (hmoves : Moves w w') (h : Journaled w) : Journaled w' := by
  unfold Journaled at h ⊢
  cases hmoves with
  | calm hcalm => rw [commits_steady hcalm.steady, hcalm.history, h]
  | lend hph hsteady hy now => exact (commits_steady hsteady).trans h
  | read hph hl hsteady hpolls hph' => exact (commits_steady hsteady).trans h
  | absorb hph hx hsteady hph' => exact (commits_steady hsteady).trans h
  | abandon hph hl hsteady ha => exact (commits_steady hsteady).trans h
  | checkIn hph hsteady now =>
    dsimp only
    split <;> exact (commits_steady hsteady).trans h
  | accept hph hcluster hj =>
    show List.filterMap _ _ = _
    rw [hj]
    exact h
  | refuse hph hlogs hj hc =>
    show List.filterMap _ _ = _
    rw [hj]
    exact h
  | @commit id l env hph hempty hlogs hj hc now =>
    show List.filterMap _ _ = _
    rw [hj]
    exact congrArg ((l.connection.id, l.ledger.committable) :: ·) h

/-! ## After every run -/

/-- What holds after every run under explicit ownership. -/
structure Tiling (s : Subscription) (w : World) : Prop extends Sound s w where
  tiled : Tiled w
  journaled : Journaled w

theorem tiling_step {s : Subscription} (hs : s.isExplicit = true) (hwf : s.WellFormed)
    (hstep : Step w w') (h : Tiling s w) : Tiling s w' where
  toSound := sound_step hstep h.toSound
  tiled := by
    have hnodup : w.pool.subscription.ownedPartitions.Nodup := h.subscription ▸ hwf.nodup
    have hlends : w.pool.lendsPartitions = true := by
      rw [Pool.lendsPartitions, h.subscription]
      exact hs
    exact tiled_moves h.owned hnodup hlends h.tracked (moves_of_step hstep) h.tiled
  journaled := journaled_moves (moves_of_step hstep) h.journaled

theorem tiling_start (maxPollRecords now : Nat) (s : Subscription) (reader : RecordReader)
    (settings : IntakeSettings) : Tiling s (.start maxPollRecords now s reader settings) where
  toSound := sound_start ..
  tiled := tiled_start ..
  journaled := rfl

/-- Each successful commit covers the offsets from what was committed before it up to what it
commits, and these are the ones that its lease has absorbed since its last commit.  So the committed
offset of a partition never decreases, and each offset below it is covered by one commit. -/
theorem commits_tile_the_log (maxPollRecords now : Nat) {s : Subscription}
    (hs : s.isExplicit = true) (hwf : s.WellFormed) (reader : RecordReader)
    (settings : IntakeSettings) (as : List Action) :
    let w := (World.start maxPollRecords now s reader settings).run as
    w.env.journal.filterMap Event.commit? = w.history.filterMap Occurrence.commit? ∧
      w.env.cluster.committed = committedAfter w.history ∧
      (∀ id c before offsets earlier,
        .committed id c before offsets :: earlier <:+ w.history → Tiles id before offsets earlier) ∧
      (∀ p k, 0 ≤ k → k < w.env.cluster.committed.committedAt p →
        w.history.countP (Occurrence.Covers p k) = 1) ∧
      ∀ bs p, w.env.cluster.committed.committedAt p ≤
        (w.run bs).env.cluster.committed.committedAt p := by
  intro w
  have h : Tiling s w := run_induction (fun _ _ => tiling_step hs hwf) (tiling_start ..) as
  refine ⟨h.journaled, h.tiled.committed, h.tiled.tiles, fun p k hk hlt => ?_, fun bs p => ?_⟩
  · rw [h.tiled.covered p k hk, if_pos hlt]
  · have hrun := run_induction
      (P := fun w' => Tiling s w' ∧ w.env.cluster.committed.committedAt p ≤
        w'.env.cluster.committed.committedAt p)
      (fun w₁ w₂ hstep hw₁ => ⟨tiling_step hs hwf hstep hw₁.1, Int.le_trans hw₁.2
        (committedAt_le hw₁.1.tracked hw₁.1.tiled (moves_of_step hstep) p)⟩)
      ⟨h, Int.le_refl _⟩ bs
    exact hrun.2

/-- Two cycles of one lease, with a commit each. -/
def commitTwice : World :=
  (World.start 10 0 (.partitions [("t", [0])]) Record.read {}).run
    [.onCluster (.produce ⟨⟨"t", 0⟩, 0, none, some [123, 125], none, []⟩), .request "s", .supply 1,
      .poll 1, .emit 1, .commit 1, .emit 1, .emit 1,
      .onCluster (.produce ⟨⟨"t", 0⟩, 0, none, some [123, 125], none, []⟩),
      .poll 1, .emit 1, .commit 1, .emit 1, .emit 1]

theorem commits_tile_the_log_commitTwice :
    (∃ id c before earlier, commitTwice.history =
        .committed id c before [(⟨"t", 0⟩, 2)] :: earlier ∧
      Tiles id before [(⟨"t", 0⟩, 2)] earlier) ∧
    commitTwice.history.countP (Occurrence.Covers ⟨"t", 0⟩ 1) = 1 := by
  have hhead : commitTwice.history.head?.bind Occurrence.commit? = some (1, [(⟨"t", 0⟩, 2)]) := by
    decide +kernel
  have hcommitted : 1 < commitTwice.env.cluster.committed.committedAt ⟨"t", 0⟩ := by
    decide +kernel
  obtain ⟨o, ho, hcommit⟩ := Option.bind_eq_some_iff.mp hhead
  obtain ⟨earlier, hhistory⟩ := List.head?_eq_some_iff.mp ho
  obtain ⟨id, c, before, rfl, -⟩ := Occurrence.eq_of_commit? hcommit
  have hwf : Subscription.WellFormed (.partitions [("t", [0])]) :=
    ⟨List.pairwise_singleton _ _, by simp⟩
  obtain ⟨-, -, htiles, hcovered, -⟩ := commits_tile_the_log 10 0 rfl hwf Record.read {}
    [.onCluster (.produce ⟨⟨"t", 0⟩, 0, none, some [123, 125], none, []⟩), .request "s", .supply 1,
      .poll 1, .emit 1, .commit 1, .emit 1, .emit 1,
      .onCluster (.produce ⟨⟨"t", 0⟩, 0, none, some [123, 125], none, []⟩),
      .poll 1, .emit 1, .commit 1, .emit 1, .emit 1]
  exact ⟨⟨id, c, before, earlier, hhistory, htiles id c before _ earlier ⟨[], hhistory.symm⟩⟩,
    hcovered ⟨"t", 0⟩ 1 (by decide) hcommitted⟩

end World
end RecordIntake
