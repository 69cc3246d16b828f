import RecordIntake.Lease
import RecordIntake.Proofs.Environment

/-!
What each part of a lease's cycle does to its connection, its ledger and its accumulator, and which
calls it makes for that.
-/
namespace RecordIntake

namespace Accumulator

/-- Takes in messages one after the other. -/
def absorbAll (a : Accumulator) (now : Nat) : List Message → Accumulator × List Emission
  | [] => (a, [])
  | m :: ms =>
    let (a, emitted) := a.absorb m now
    let (a, later) := a.absorbAll now ms
    (a, emitted ++ later)

/-- Takes in the messages of a poll, and seals what has waited long enough. -/
def receive (a : Accumulator) (now : Nat) (ms : List Message) : Accumulator × List Emission :=
  let (a, full) := a.absorbAll now ms
  let (a, expired) := a.takeExpired now
  (a, full ++ expired)

end Accumulator

namespace Lease

open Environment (Steady)

variable {l l' : Lease} {env env' : Environment}

/-! ## States -/

@[simp] theorem fault_state (l : Lease) (e : IntakeError) : (l.fault e).state = .faulted := rfl

/-- Asking whether to go on polling changes nothing but the state, and no fault is forgotten. -/
theorem continuePolling_eq (l : Lease) (env : Environment) :
    ∃ state, (l.continuePolling env).1 = { l with state := state } ∧
      (l.state = .faulted → state = .faulted) := by
  unfold continuePolling
  split
  · exact ⟨l.state, rfl, fun h => h⟩
  · exact ⟨l.state, rfl, fun h => h⟩
  · split
    · exact ⟨l.state, rfl, fun h => h⟩
    · split
      · exact ⟨l.state, rfl, fun h => h⟩
      · exact ⟨.readyToCommit, rfl, fun h => by simp_all⟩
  · split
    · exact ⟨l.state, rfl, fun h => h⟩
    · split
      · exact ⟨l.state, rfl, fun h => h⟩
      · exact ⟨.readyToCommit, rfl, fun h => by simp_all⟩

/-! ## The end of a poll -/

theorem absorbAll_eq (l : Lease) (env : Environment) (ms : List Message) :
    ∃ metrics, l.absorbAll env ms =
      ({ env with metrics := metrics },
        { l with
          accumulator := (l.accumulator.absorbAll env.now ms).1
          ledger := l.ledger.recordAll ms },
        (l.accumulator.absorbAll env.now ms).2) := by
  induction ms generalizing l env with
  | nil => exact ⟨env.metrics, rfl⟩
  | cons m ms ih =>
    simp only [absorbAll, Accumulator.absorbAll]
    obtain ⟨metrics, h⟩ := ih
      { l with
        accumulator := (l.accumulator.absorb m env.now).1
        ledger := l.ledger.record m.partition m.offset }
      { env with
        metrics := Accumulator.countAbsorbed l.accumulator.settings m
          (l.accumulator.absorb m env.now).2 env.metrics }
    exact ⟨metrics, by rw [h]; rfl⟩

theorem receive_eq (l : Lease) (env : Environment) (ms : List Message) :
    ∃ metrics, l.receive env ms =
      ({ env with metrics := metrics },
        { l with
          accumulator := (l.accumulator.receive env.now ms).1
          ledger := l.ledger.recordAll ms
          received := l.received + ms.length },
        (l.accumulator.receive env.now ms).2) := by
  obtain ⟨metrics, h⟩ := l.absorbAll_eq env ms
  exact ⟨metrics, by simp only [receive, h]; rfl⟩

theorem takeIn_error (l : Lease) (env : Environment) (e : IntakeError) :
    l.takeIn env (.error e) = (env.note (.polled l.connection.id (.error e)), l.fault e, .error e) :=
  rfl

theorem takeIn_ok (l : Lease) (env : Environment) (ms : List Message) :
    ∃ env', Steady env env' ∧ l.takeIn env (.ok ms) =
      (env',
        { l with
          accumulator := (l.accumulator.receive env.now ms).1
          ledger := l.ledger.recordAll ms
          received := l.received + ms.length },
        .ok (ms.length, (l.accumulator.receive env.now ms).2)) := by
  obtain ⟨metrics, h⟩ := l.receive_eq (env.note (.polled l.connection.id (.ok ms.length))) ms
  refine ⟨{ env.note (.polled l.connection.id (.ok ms.length)) with metrics := metrics },
    (env.steady_note rfl).trans (.of_eq rfl rfl), ?_⟩
  simp only [takeIn, Except.map]
  rw [h]
  rfl

/-! ## Handing units on -/

theorem emitOne_ok {e : Emission} (h : l.emitOne env e = (env', l', .ok ())) :
    l' = l ∧ env'.cluster = env.cluster ∧ env'.journal = .emitted l.sink e :: env.journal := by
  unfold emitOne at h
  split at h
  · rename_i he
    cases h
    exact ⟨rfl, Environment.emit_accepted he⟩
  · cases h

theorem emitOne_error {e : Emission} {fault : IntakeError}
    (h : l.emitOne env e = (env', l', .error fault)) :
    l' = l.fault sinkFailure ∧ Steady env env' := by
  unfold emitOne at h
  split at h
  · cases h
  · rename_i he
    cases h
    exact ⟨rfl, Environment.emit_refused he⟩

/-! ## Committing -/

/-- How a commit can end, when everything was handed on. -/
inductive Commits (l : Lease) (env : Environment) :
    Environment → Lease → Except IntakeError Bool → Prop where
  /-- It is interrupted before the cluster is asked. -/
  | interrupted : Commits l env env (l.fault .interrupted) (.error .interrupted)
  /-- There is nothing to commit. -/
  | empty (h : l.ledger.isEmpty = true) : Commits l env env (l.startNextCycle env.now) (.ok true)
  | done (env' : Environment) (h : l.ledger.isEmpty = false)
    (hlogs : env'.cluster.logs = env.cluster.logs)
    (hj : env'.journal =
      .committed l.connection.id l.ledger.committable (.ok ()) :: env.journal)
    (hc : env'.cluster.committed = env.cluster.committed.union l.ledger.committable) (now : Nat) :
    Commits l env env' (l.startNextCycle now) (.ok true)
  | refused (env' : Environment) {e : IntakeError} {outcome : Except IntakeError Bool}
    (hlogs : env'.cluster.logs = env.cluster.logs)
    (hj : env'.journal =
      .committed l.connection.id l.ledger.committable (.error e) :: env.journal)
    (hc : env'.cluster.committed = env.cluster.committed) (ho : outcome ≠ .ok true) :
    Commits l env env' (l.fault e) outcome

theorem finishCommit_commits (l : Lease) (env : Environment) :
    Commits l env (l.finishCommit env).1 (l.finishCommit env).2.1 (l.finishCommit env).2.2 := by
  unfold finishCommit
  split
  · exact .interrupted
  · split
    · exact .empty ‹_›
    · rename_i hempty
      unfold commitLedger
      split
      · rename_i env₁ h
        obtain ⟨hlogs, hj, hc⟩ := Environment.commit_spec h
        exact .done (env₁.count (.leaseCommits .success)) (Bool.eq_false_iff.mpr hempty)
          hlogs hj hc _
      · rename_i env₁ h
        obtain ⟨hlogs, hj, hc⟩ := Environment.commit_spec h
        exact .refused (env₁.count (.leaseCommits .interrupted)) hlogs hj hc (by simp)
      · rename_i env₁ e _ h
        obtain ⟨hlogs, hj, hc⟩ := Environment.commit_spec h
        exact .refused (env₁.count (.leaseCommits .failed)) hlogs hj hc (by simp)

/-! ## Giving up -/

theorem steady_abandon (l : Lease) (env : Environment) : Steady env (l.abandon env).1 := by
  unfold abandon
  split
  · exact .refl env
  · dsimp only
    split
    · exact .of_eq rfl rfl
    · have hadd : Steady env
          { env with metrics := env.metrics.add .messagesDiscarded l.ledger.count } :=
        .of_eq rfl rfl
      have h := hadd.trans (Environment.steady_rewind _ l.connection l.ledger.rewindPositions)
      split <;> rename_i he <;> rw [he] at h <;> exact h

/-- A connection that is to be kept was moved back to the first offsets of the ledger. -/
theorem abandon_positions {c : Connection} (hl : l.ledger.ranges.Sorted)
    (h : l.abandon env = (env', c, false)) :
    (∃ positions, c = { l.connection with positions := positions }) ∧
      ∀ p, c.positions.find? p =
        ((l.ledger.ranges.find? p).map (·.first)).or (l.connection.positions.find? p) := by
  unfold abandon at h
  split at h
  · rename_i hempty
    simp only [Prod.mk.injEq] at h
    obtain ⟨-, rfl, -⟩ := h
    have hnil : l.ledger.ranges = [] := List.isEmpty_iff.mp hempty
    refine ⟨⟨_, rfl⟩, fun p => ?_⟩
    rw [hnil]
    rfl
  · dsimp only at h
    split at h
    · cases h
    · split at h
      · rename_i env₁ c' he
        cases h
        obtain rfl := Environment.rewind_ok he
        refine ⟨⟨_, rfl⟩, fun p => ?_⟩
        rw [SortedMap.find?_union (Ledger.sorted_rewindPositions hl),
          Ledger.find?_rewindPositions]
      · cases h

theorem abandon_connection (l : Lease) (env : Environment) :
    ∃ positions, (l.abandon env).2.1 = { l.connection with positions := positions } := by
  unfold abandon
  split
  · exact ⟨_, rfl⟩
  · dsimp only
    split
    · exact ⟨_, rfl⟩
    · unfold Environment.rewind
      split <;> rename_i he
      · split at he
        · cases he
        · cases he
          exact ⟨_, rfl⟩
      · split at he
        · cases he
          exact ⟨_, rfl⟩
        · cases he

end Lease
end RecordIntake
