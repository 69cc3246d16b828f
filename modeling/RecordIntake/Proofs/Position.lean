import RecordIntake.Proofs.History
import RecordIntake.Proofs.Placement

/-!
Giving a lease up leaves no trace in the positions of its connection.  Whatever was absorbed and not
committed is absorbed again by the next lease on the connection, from its first message on.

Progress is undone in two ways, and here they meet.  A poll that is interrupted midway moves back by
itself, and the ledger, which has not noted it, moves back what earlier polls read.
-/
namespace RecordIntake

open Cluster (Reads)

namespace World

/-- What a lease has absorbed of each partition is the log from where its reading started. -/
def ReadInOrder (w : World) (id : LeaseId) (p : Partition) : Prop :=
  Message.onlyOf p (absorbed id w.history) = [] ∨
    ∃ first, startOf id p w.history = some first ∧
      Reads (w.env.cluster.log p) first (Message.onlyOf p (absorbed id w.history))

/-- Positions keep in step with the history. -/
structure Tracked (w : World) : Prop where
  consistent : w.env.cluster.Consistent
  lease : ∀ id ph l, w.phases.find? id = some ph → ph.lease? = some l →
    InStep w.env.cluster w.history id l
  inOrder : ∀ id p, w.ReadInOrder id p
  returning : ∀ id c, w.phases.find? id = some (.returning c false) →
    ∀ p, c.positions.find? p = startOf id p w.history
  returned : ∀ id c earlier, .returned id c :: earlier <:+ w.history →
    ∀ p, c.positions.find? p = startOf id p earlier

variable {w w' : World}

theorem ReadInOrder.grow {id : LeaseId} {p : Partition} (h : w.ReadInOrder id p)
    {env : Environment} (hgrows : w.env.Grows env) : ReadInOrder { w with env := env } id p := by
  obtain hnone | ⟨first, hstart, hreads⟩ := h
  · exact .inl hnone
  · obtain ⟨more, hmore⟩ := hgrows.log p
    exact .inr ⟨first, hstart, hmore ▸ hreads.grow more⟩

theorem ReadInOrder.other {id : LeaseId} {p : Partition} (h : w.ReadInOrder id p)
    {os : List Occurrence} (hos : ∀ o ∈ os, o.Other id) :
    ReadInOrder { w with history := os ++ w.history } id p := by
  rw [ReadInOrder]
  simp only [startOf_append_other hos, absorbed_append_other hos]
  exact h

theorem tracked_start (maxPollRecords now : Nat) (s : Subscription) (reader : RecordReader)
    (settings : IntakeSettings) : Tracked (.start maxPollRecords now s reader settings) where
  consistent := by
    refine ⟨⟨SortedMap.sorted_nil, fun p i m h => ?_⟩, fun p => ?_⟩
    · simp [World.start, Environment.start, Cluster.empty, Cluster.log] at h
    · simp [World.start, Environment.start, Cluster.empty, Cluster.log, Ledger.greatestOffset]
  lease id ph l h := by cases h
  inOrder id p := .inl rfl
  returning id c h := by cases h
  returned id c earlier h := by simp [World.start] at h

theorem tracked_calm (hcalm : Calm w w') (h : Tracked w) : Tracked w' where
  consistent := hcalm.steady.consistent h.consistent
  lease id ph' l' hph' hl' := by
    rw [hcalm.history]
    obtain ⟨hnone, -⟩ | ⟨ph, hph, hc⟩ := hcalm.phases id ph' hph'
    · rw [hnone] at hl'
      cases hl'
    · obtain ⟨l, hl, hconnection, hranges⟩ := hc.lease l' hl'
      exact ((h.lease id ph l hph hl).congr hconnection hranges).grow hcalm.steady.log
  inOrder id p := by
    have hgrown := (h.inOrder id p).grow hcalm.steady.toGrows
    rw [ReadInOrder, hcalm.history]
    exact hgrown
  returning id c hph' := by
    rw [hcalm.history]
    obtain ⟨-, hno⟩ | ⟨ph, hph, hc⟩ := hcalm.phases id _ hph'
    · exact absurd rfl (hno c)
    · exact h.returning id c (hc.returning c rfl ▸ hph)
  returned := by
    rw [hcalm.history]
    exact h.returned

/-- Lease by lease: a step of one of them says nothing about the others. -/
theorem tracked_insert (h : Tracked w) {env : Environment} {p' : Pool} {id : LeaseId} {ph' : Phase}
    (os : List Occurrence) (hgrows : w.env.Grows env)
    (hos : ∀ o ∈ os, ∀ id', id' ≠ id → o.Other id')
    (hlease : ∀ l, ph'.lease? = some l → InStep env.cluster (os ++ w.history) id l)
    (hinOrder : ∀ p,
      ReadInOrder { w with env := env, history := os ++ w.history } id p)
    (hreturning : ∀ c, ph' = .returning c false →
      ∀ p, c.positions.find? p = startOf id p (os ++ w.history))
    (hreturned : ∀ id' c earlier, .returned id' c :: earlier <:+ os ++ w.history →
      ∀ p, c.positions.find? p = startOf id' p earlier) :
    Tracked
      { w with
        env := env
        pool := p'
        phases := w.phases.insert id ph'
        history := os ++ w.history } := by
  refine ⟨hgrows.consistent h.consistent, fun id' ph l hph hl => ?_, fun id' p => ?_,
    fun id' c hph => ?_, hreturned⟩
  · rw [SortedMap.find?_insert] at hph
    split at hph
    · rename_i heq
      cases hph
      exact heq ▸ hlease l hl
    · rename_i hne
      exact ((h.lease id' ph l hph hl).other fun o ho => hos o ho id' hne).grow hgrows.log
  · by_cases hne : id' = id
    · exact hne ▸ hinOrder p
    · exact ((h.inOrder id' p).grow hgrows).other fun o ho => hos o ho id' hne
  · rw [SortedMap.find?_insert] at hph
    split at hph
    · rename_i heq
      cases hph
      exact heq ▸ hreturning c rfl
    · rename_i hne
      intro p
      rw [startOf_append_other fun o ho => hos o ho id' hne]
      exact h.returning id' c hph p

/-- A step of a lease that is not over, in which nothing comes back. -/
theorem tracked_lease (h : Tracked w) {env : Environment} {id : LeaseId} {ph' : Phase} (l : Lease)
    (os : List Occurrence) (hgrows : w.env.Grows env)
    (hos : ∀ o ∈ os, ∀ id', id' ≠ id → o.Other id')
    (hno : ∀ id' c, .returned id' c ∉ os)
    (hreturning : ∀ c, ph' ≠ .returning c false) (hl : ∀ l', ph'.lease? = some l' →
      l'.connection = l.connection ∧ l'.ledger.ranges = l.ledger.ranges)
    (hin : InStep env.cluster (os ++ w.history) id l) :
    Tracked
      { w with
        env := env
        phases := w.phases.insert id ph'
        history := os ++ w.history } := by
  refine tracked_insert h os hgrows hos (fun l' hl' => ?_) (fun p => (hin.keeps p).reads)
    (fun c hc => absurd hc (hreturning c)) fun id' c earlier hsuffix => ?_
  · obtain ⟨hconnection, hranges⟩ := hl l' hl'
    exact hin.congr hconnection hranges
  · exact h.returned id' c earlier (suffix_of_append (hno id' c) hsuffix)

/-- The ledger moves the connection back to where the reading started. -/
theorem tracked_abandon (h : Tracked w) {id : LeaseId} {ph : Phase} {l : Lease}
    {env : Environment} {c : Connection} {discard : Bool} (hph : w.phases.find? id = some ph)
    (hl : ph.lease? = some l) (hsteady : w.env.Steady env)
    (ha : l.abandon w.env = (env, c, discard)) :
    Tracked { w with env := env, phases := w.phases.insert id (.returning c discard) } := by
  have hin := h.lease id ph l hph hl
  refine tracked_insert h [] hsteady.toGrows (by simp) (fun l' hl' => by cases hl')
    (fun p => (h.inOrder id p).grow hsteady.toGrows) (fun c' hc' p => ?_) h.returned
  cases hc'
  rw [(Lease.abandon_positions hin.sorted ha).2 p]
  exact (hin.keeps p).first

theorem tracked_checkIn (h : Tracked w) {id : LeaseId} {c : Connection} {discard : Bool}
    {env : Environment} {p' : Pool} (hph : w.phases.find? id = some (.returning c discard))
    (hsteady : w.env.Steady env) :
    Tracked
      { w with
        env := env
        pool := p'
        phases := w.phases.insert id .ended
        history := if discard || w.pool.closed then w.history else .returned id c :: w.history } := by
  split
  · exact tracked_insert h [] hsteady.toGrows (by simp) (fun l' hl' => by cases hl')
      (fun p => (h.inOrder id p).grow hsteady.toGrows) (by simp) h.returned
  · rename_i hkept
    have hdiscard : discard = false := by
      cases discard with
      | true => simp at hkept
      | false => rfl
    refine tracked_insert h [.returned id c] hsteady.toGrows
      (List.forall_mem_singleton.mpr fun id' _ => trivial) (fun l' hl' => by cases hl')
      (fun p => ?_) (by simp) fun id' c' earlier hsuffix => ?_
    · exact ((h.inOrder id p).grow hsteady.toGrows).other (by simp [Occurrence.Other])
    · obtain heq | hsuffix := List.suffix_cons_iff.mp hsuffix
      · cases heq
        exact h.returning id c (hdiscard ▸ hph)
      · exact h.returned id' c' earlier hsuffix

theorem tracked_moves (hmoves : Moves w w') (h : Tracked w) : Tracked w' := by
  cases hmoves with
  | calm hcalm => exact tracked_calm hcalm h
  | @lend id o sink _ c env hph hsteady hy now =>
    refine tracked_lease h (Lease.issue o.lease c w.pool.reader w.pool.settings _ now)
      [.lent id c] hsteady.toGrows (List.forall_mem_singleton.mpr fun id' hne => hne.symm)
      (by simp) (by simp) (fun l' hl' => by cases hl'; exact ⟨rfl, rfl⟩) ?_
    exact .of_empty rfl (fun p => if_pos rfl) (if_pos rfl)
  | @read id l env after result ph' hph hl hsteady hpolls hph' =>
    have hin := (h.lease id _ l hph rfl).read h.consistent hpolls
    exact tracked_lease h _ [.read id w.env.cluster l.connection after result.messages]
      hsteady.toGrows (List.forall_mem_singleton.mpr fun id' hne => hne.symm) (by simp)
      (fun c => hph'.not_returning c false) hph'.lease (hin.grow hsteady.log)
  | @absorb id ph ph' l env hph hx hsteady hph' =>
    have hin := h.lease id ph l hph (Phase.lease_of_work hx)
    exact tracked_lease h l [] hsteady.toGrows (by simp) (by simp)
      (fun c => hph'.not_returning c false) hph'.lease (hin.grow hsteady.log)
  | @accept id l e units errand env hph hcluster hj =>
    have hin := h.lease id _ l hph rfl
    refine tracked_lease h l [] (.of_logs (by rw [hcluster])) (by simp) (by simp) (by simp)
      (fun l' hl' => by cases hl'; exact ⟨rfl, rfl⟩) ?_
    rw [hcluster]
    exact hin
  | @commit id l env hph hempty hlogs hj hc now =>
    refine tracked_lease h (l.startNextCycle now)
      [.committed id l.connection w.env.cluster.committed l.ledger.committable]
      (.of_logs hlogs) (List.forall_mem_singleton.mpr fun id' hne => hne.symm) (by simp) (by simp)
      (fun l' hl' => by cases hl'; exact ⟨rfl, rfl⟩) ?_
    exact .of_empty rfl (fun p => if_pos rfl) (if_pos rfl)
  | @refuse id l env e hph hlogs hj hc =>
    have hin := h.lease id _ l hph rfl
    have hgrows : w.env.Grows env := .of_logs hlogs
    exact tracked_lease h l [] hgrows (by simp) (by simp) (by simp)
      (fun l' hl' => by cases hl'; exact ⟨rfl, rfl⟩) (hin.grow hgrows.log)
  | abandon hph hl hsteady ha => exact tracked_abandon h hph hl hsteady ha
  | checkIn hph hsteady now => exact tracked_checkIn h hph hsteady

/-! ## After every run -/

/-- What holds after every run, whatever the pool subscribes to. -/
structure Sound (s : Subscription) (w : World) : Prop where
  subscription : w.pool.subscription = s
  owned : Owned w.pool w.phases w.inquiries
  placed : Placed w
  tracked : Tracked w

theorem sound_start (maxPollRecords now : Nat) (s : Subscription) (reader : RecordReader)
    (settings : IntakeSettings) : Sound s (.start maxPollRecords now s reader settings) where
  subscription := rfl
  owned := .start 0 s reader settings now
  placed := by
    refine ⟨fun c hc => ?_, fun k hk => rfl, fun k c hk => (by cases hk),
      fun id c earlier h => ?_⟩
    · cases hc with
      | idle i h => cases h
      | inquiry x h => cases h
      | opening id o sink h => cases h
    · simp [World.start] at h
  tracked := tracked_start ..

theorem sound_step {s : Subscription} (hstep : Step w w') (h : Sound s w) : Sound s w' where
  subscription := (sameTerms_step hstep).subscription.trans h.subscription
  owned := owned_step hstep h.owned
  placed := placed_moves h.owned (moves_of_step hstep) h.placed
  tracked := tracked_moves (moves_of_step hstep) h.tracked

end World
end RecordIntake
