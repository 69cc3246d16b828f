import RecordIntake.Environment
import RecordIntake.Proofs.Ledger

/-!
What the calls to the cluster and to the sinks change, as far as messages, positions and commits are
concerned.  Most calls change nothing of it: they are steady.
-/
namespace RecordIntake

/-- Whether an event says nothing about what a sink accepted or what was to be committed. -/
def Event.isQuiet : Event → Bool
  | .emitted _ _ => false
  | .committed _ _ _ => false
  | _ => true

/-- The messages that a poll ended with. -/
def Progress.messages : Progress (Except IntakeError (List Message)) → List Message
  | .ended (.ok messages) => messages
  | _ => []

namespace Environment

/-- Between the two environments logs only grew. -/
structure Grows (env env' : Environment) : Prop where
  log : ∀ p, ∃ more, env'.cluster.log p = env.cluster.log p ++ more
  consistent : env.cluster.Consistent → env'.cluster.Consistent

/-- Between the two environments logs only grew, nothing was accepted by a sink, and nothing was to
be committed. -/
structure Steady (env env' : Environment) : Prop extends Grows env env' where
  committed : env'.cluster.committed = env.cluster.committed
  journal : ∃ es, (∀ e ∈ es, e.isQuiet = true) ∧ env'.journal = es ++ env.journal

theorem Grows.trans {a b c : Environment} (h : Grows a b) (h' : Grows b c) : Grows a c := by
  refine ⟨fun p => ?_, h'.consistent ∘ h.consistent⟩
  obtain ⟨more, e⟩ := h.log p
  obtain ⟨more', e'⟩ := h'.log p
  exact ⟨more ++ more', by rw [e', e, Array.append_assoc]⟩

theorem Grows.of_logs {env env' : Environment} (hlogs : env'.cluster.logs = env.cluster.logs) :
    Grows env env' := by
  have hlog : ∀ p, env'.cluster.log p = env.cluster.log p := fun p => by
    simp only [Cluster.log, hlogs]
  refine ⟨fun p => ⟨#[], by simp [hlog p]⟩, fun h => ?_⟩
  exact ⟨⟨hlogs ▸ h.sorted, fun p i m hm => h.placed p i m (hlog p ▸ hm)⟩,
    fun p => (hlog p).symm ▸ h.room p⟩

theorem Grows.size_le {env env' : Environment} (h : Grows env env') (p : Partition) :
    (env.cluster.log p).size ≤ (env'.cluster.log p).size := by
  obtain ⟨more, e⟩ := h.log p
  simp [e]

/-- A message stays where it is. -/
theorem Grows.getElem? {env env' : Environment} (h : Grows env env') {p : Partition} {i : Nat}
    (hi : i < (env.cluster.log p).size) :
    (env'.cluster.log p)[i]? = (env.cluster.log p)[i]? := by
  obtain ⟨more, e⟩ := h.log p
  rw [e, Array.getElem?_append_left hi]

theorem Steady.refl (env : Environment) : Steady env env :=
  ⟨.of_logs rfl, rfl, [], by simp, rfl⟩

theorem Steady.trans {a b c : Environment} (h : Steady a b) (h' : Steady b c) : Steady a c := by
  refine ⟨h.toGrows.trans h'.toGrows, h'.committed.trans h.committed, ?_⟩
  obtain ⟨es, hes, e⟩ := h.journal
  obtain ⟨es', hes', e'⟩ := h'.journal
  refine ⟨es' ++ es, fun x hx => ?_, by rw [e', e, List.append_assoc]⟩
  exact (List.mem_append.mp hx).elim (hes' x) (hes x)

/-- Logs and committed offsets are as they were, and so is the journal but for quiet events. -/
theorem Steady.of_logs {env env' : Environment} (hlogs : env'.cluster.logs = env.cluster.logs)
    (hcommitted : env'.cluster.committed = env.cluster.committed)
    (es : List Event) (hes : ∀ e ∈ es, e.isQuiet = true) (hj : env'.journal = es ++ env.journal) :
    Steady env env' :=
  ⟨.of_logs hlogs, hcommitted, es, hes, hj⟩

theorem Steady.of_eq {env env' : Environment} (hcluster : env'.cluster = env.cluster)
    (hj : env'.journal = env.journal) : Steady env env' :=
  .of_logs (by rw [hcluster]) (by rw [hcluster]) [] (by simp) hj

theorem steady_note (env : Environment) {e : Event} (he : e.isQuiet = true) :
    Steady env (env.note e) :=
  .of_logs rfl rfl [e] (by simpa using he) rfl

theorem steady_count (env : Environment) (c : Counter) : Steady env (env.count c) := .of_eq rfl rfl

theorem steady_raise (env : Environment) (s : Signal) : Steady env (env.raise s) := by
  unfold raise
  split
  · exact .refl env
  · exact .of_eq rfl rfl

theorem steady_lower (env : Environment) (s : Signal) : Steady env (env.lower s) := .of_eq rfl rfl

theorem takeFault_eq {env env' : Environment} {call : Call} {e : IntakeError}
    (h : env.takeFault call = some (e, env')) : ∃ faults, env' = { env with faults := faults } := by
  simp only [takeFault, Option.map_eq_some_iff, Prod.mk.injEq] at h
  obtain ⟨x, _, _, rfl⟩ := h
  exact ⟨x.2, rfl⟩

theorem steady_takeFault {env env' : Environment} {call : Call} {e : IntakeError}
    (h : env.takeFault call = some (e, env')) : Steady env env' := by
  obtain ⟨faults, rfl⟩ := takeFault_eq h
  exact .of_eq rfl rfl

theorem connect_cluster (c : Cluster) :
    c.connect.1.logs = c.logs ∧ c.connect.1.committed = c.committed := by
  unfold Cluster.connect
  split <;> exact ⟨rfl, rfl⟩

theorem steady_connect (env : Environment) (signal : Signal) (s : Subscription) :
    Steady env (env.connect signal s).1 :=
  .of_logs (connect_cluster env.cluster).1 (connect_cluster env.cluster).2
    [.connected signal.connection s env.cluster.connect.2] (by simp [Event.isQuiet]) rfl

/-- A connection starts with no positions. -/
theorem connect_ok {env env' : Environment} {signal : Signal} {s : Subscription} {c : Connection}
    (h : env.connect signal s = (env', .ok c)) : c = ⟨signal.connection, signal, s, []⟩ := by
  simp only [connect, Prod.mk.injEq] at h
  cases hr : env.cluster.connect.2 with
  | error e => rw [hr] at h; cases h.2
  | ok u => rw [hr] at h; cases h.2; rfl

theorem steady_disconnect (env : Environment) (c : Connection) (why : ConnectionEvent) :
    Steady env (env.disconnect c why) :=
  .of_logs rfl rfl [.closed c.id] (by simp [Event.isQuiet]) rfl

theorem steady_disconnectAll (env : Environment) (cs : List Connection) (why : ConnectionEvent) :
    Steady env (env.disconnectAll cs why) := by
  induction cs generalizing env with
  | nil => exact .refl env
  | cons c cs ih => exact (steady_disconnect env c why).trans (ih _)

theorem steady_partitionCount (env : Environment) (c : Connection) (topic : String) :
    Steady env (env.partitionCount c topic).1 := by
  unfold partitionCount
  split
  · rename_i e env' h
    exact (steady_takeFault h).trans (steady_note env' rfl)
  · exact steady_note env rfl

theorem steady_rewind (env : Environment) (c : Connection) (positions : Offsets) :
    Steady env (env.rewind c positions).1 := by
  unfold rewind
  split
  · rename_i e env' h
    exact (steady_takeFault h).trans (steady_note env' rfl)
  · exact steady_note env rfl

theorem rewind_ok {env env' : Environment} {c c' : Connection} {positions : Offsets}
    (h : env.rewind c positions = (env', c', .ok ())) :
    c' = { c with positions := c.positions.union positions } := by
  unfold rewind at h
  split at h
  · cases h
  · cases h
    rfl

theorem steady_resumePoll (env : Environment) (c : Connection) (deadline : Option Nat) :
    Steady env (env.resumePoll c deadline).1 := by
  unfold resumePoll
  split
  · exact steady_lower env c.signal
  · split
    · exact .refl env
    · split <;> exact .refl env

/-- A poll that had to wait brings no messages. -/
theorem resumePoll_ok {env env' : Environment} {c : Connection} {deadline : Option Nat}
    {messages : List Message}
    (h : env.resumePoll c deadline = (env', .ended (.ok messages))) : messages = [] := by
  unfold resumePoll at h
  split at h
  · cases h
  · split at h
    · cases h
    · split at h
      · cases h; rfl
      · cases h

/-! ## Polls -/

theorem takeMidwayInterrupt_cluster (c : Cluster) :
    c.takeMidwayInterrupt.2.logs = c.logs ∧ c.takeMidwayInterrupt.2.committed = c.committed := by
  unfold Cluster.takeMidwayInterrupt
  split <;> exact ⟨rfl, rfl⟩

theorem fetch_takeMidwayInterrupt (c : Cluster) (s : Subscription) (positions : Offsets) :
    c.takeMidwayInterrupt.2.fetch s positions = c.fetch s positions := by
  unfold Cluster.takeMidwayInterrupt
  split <;> rfl

theorem steady_startPoll (env : Environment) (c : Connection) (timeout : Nat) :
    Steady env (env.startPoll c timeout).1 := by
  have hmidway : Steady env { env with cluster := env.cluster.takeMidwayInterrupt.2 } :=
    .of_logs (takeMidwayInterrupt_cluster env.cluster).1
      (takeMidwayInterrupt_cluster env.cluster).2 [] (by simp) rfl
  unfold startPoll
  split
  · rename_i e env' h
    exact steady_takeFault h
  · split
    · exact steady_lower env c.signal
    · split
      · exact .refl env
      · dsimp only
        split
        · exact hmidway
        · split <;> exact hmidway

/-- What a poll does to the connection: nothing, or it reads, or it reads and moves back. -/
inductive Polls (c : Cluster) (before : Connection) :
    Connection → Progress (Except IntakeError (List Message)) → Prop where
  | waits (deadline : Option Nat) : Polls c before before (.waiting deadline)
  | fails (e : IntakeError) : Polls c before before (.ended (.error e))
  | undone (e : IntakeError) :
    Polls c before
      { before with
        positions := (c.fetch before.subscription before.positions).2.union
          (Message.firstOffsets (c.fetch before.subscription before.positions).1) }
      (.ended (.error e))
  | finds (h : (c.fetch before.subscription before.positions).1 = []) (deadline : Option Nat) :
    Polls c before
      { before with positions := (c.fetch before.subscription before.positions).2 }
      (.waiting deadline)
  | reads :
    Polls c before
      { before with positions := (c.fetch before.subscription before.positions).2 }
      (.ended (.ok (c.fetch before.subscription before.positions).1))

theorem startPoll_polls (env : Environment) (c : Connection) (timeout : Nat) :
    Polls env.cluster c (env.startPoll c timeout).2.1 (env.startPoll c timeout).2.2 := by
  unfold startPoll
  split
  · exact .fails _
  · split
    · exact .fails _
    · split
      · exact .waits none
      · simp only [fetch_takeMidwayInterrupt]
        split
        · exact .undone _
        · split
          · rename_i h
            simp only [Bool.and_eq_true, List.isEmpty_iff] at h
            exact .finds h.1 _
          · exact .reads

/-- What a poll brings from one partition, and where it leaves the position there.  A poll that was
undone brings nothing and leaves the position where the reading started. -/
theorem Polls.reads_partition {c : Cluster} (hc : c.Consistent) {before after : Connection}
    {result : Progress (Except IntakeError (List Message))} (h : Polls c before after result)
    (p : Partition) :
    (before.subscription.selects p = true ∧
      Cluster.Reads (c.log p) (c.readingStart before.positions p)
        (Message.onlyOf p result.messages) ∧
      after.positions.find? p = some (c.readingStart before.positions p +
        (Message.onlyOf p result.messages).length)) ∨
    (Message.onlyOf p result.messages = [] ∧
      after.positions.find? p = before.positions.find? p) := by
  have hfetch := Cluster.fetch_reads hc before.subscription before.positions p
  cases h with
  | waits => exact .inr ⟨rfl, rfl⟩
  | fails => exact .inr ⟨rfl, rfl⟩
  | reads => exact hfetch
  | finds hnone =>
    rw [hnone] at hfetch
    exact hfetch
  | undone e =>
    obtain ⟨hs, hreads, hpos⟩ | ⟨hnone, hpos⟩ := hfetch
    · refine .inl ⟨hs, .nil _ _, ?_⟩
      have hback := find?_firstOffsets_of_offsets hreads.offsets
      simp only [Progress.messages, Message.onlyOf, List.filter_nil, List.length_nil]
      rw [SortedMap.find?_union (Message.sorted_firstOffsets _), hback, hpos]
      split
      · rename_i hlen
        simp [hlen]
      · simp
    · refine .inr ⟨rfl, ?_⟩
      have hnone' : (Message.onlyOf p (c.fetch before.subscription before.positions).1).map
          (·.offset) = offsetsFrom 0 0 := by
        rw [hnone]
        rfl
      have hback := find?_firstOffsets_of_offsets hnone'
      show SortedMap.find? p (SortedMap.union _ _) = _
      rw [SortedMap.find?_union (Message.sorted_firstOffsets _), hback, hpos]
      rfl

theorem Polls.same {c : Cluster} {before after : Connection}
    {result : Progress (Except IntakeError (List Message))} (h : Polls c before after result) :
    ∃ positions, after = { before with positions := positions } := by
  cases h <;> exact ⟨_, rfl⟩

/-! ## Commits and sinks -/

/-- A commit is entered in the journal; the cluster follows it if it succeeds. -/
theorem commit_spec {env env' : Environment} {c : Connection} {offsets : Offsets}
    {result : Except IntakeError Unit} (h : env.commit c offsets = (env', result)) :
    env'.cluster.logs = env.cluster.logs ∧
      env'.journal = .committed c.id offsets result :: env.journal ∧
      env'.cluster.committed =
        match result with
        | .ok () => env.cluster.committed.union offsets
        | .error _ => env.cluster.committed := by
  unfold commit at h
  split at h
  · rename_i e env₁ hfault
    obtain ⟨faults, rfl⟩ := takeFault_eq hfault
    cases h
    exact ⟨rfl, rfl, rfl⟩
  · split at h
    rename_i cluster result' hcommit
    cases h
    unfold Cluster.commit at hcommit
    dsimp only at hcommit
    split at hcommit
    · cases hcommit
      exact ⟨rfl, rfl, rfl⟩
    · cases hcommit
      exact ⟨rfl, rfl, rfl⟩

theorem emit_accepted {env env' : Environment} {name : String} {e : Emission}
    (h : env.emit name e = (env', true)) :
    env'.cluster = env.cluster ∧ env'.journal = .emitted name e :: env.journal := by
  unfold emit at h
  dsimp only at h
  split at h
  · cases h
  · cases h
    exact ⟨rfl, rfl⟩

theorem emit_refused {env env' : Environment} {name : String} {e : Emission}
    (h : env.emit name e = (env', false)) : Steady env env' := by
  unfold emit at h
  dsimp only at h
  split at h
  · cases h
    exact steady_note env rfl
  · cases h

end Environment
end RecordIntake
