import RecordIntake.Proofs.Conduct
import RecordIntake.Proofs.Delivery

/-!
What the outcome of a cycle says about it.  Until its commit a cycle has committed nothing; its
ledger has noted all that it polled, and every piece of that was accepted by the sink or is still on
its way there.  This is kept on every course, so at its end it only remains to see what the last
call answered.

A lease that a cycle has had is not out any more when the cycle is over: the pool still has it
exactly as long as its cycle has, and no number is given to two leases.
-/
namespace RecordIntake

namespace Account

/-- The sink has accepted every piece of what was polled. -/
structure HandedOver (acc : Account) (reader : RecordReader) (s : BatchSettings) (sink : String) :
    Prop where
  sinks : ∀ u ∈ acc.accepted, u.1 = sink
  pieces : ∃ contents, List.Forall₂ (Emission.MadeOf s) (acc.accepted.map (·.2)) contents ∧
    ∀ m ∈ acc.polled, ∀ y ∈ m.pieces reader, y ∈ contents.flatten

/-- A commit that succeeded reaches beyond every message that was polled.  It states the offset
after the last of them; only after the greatest offset of 64 bits there is none. -/
def Covered (acc : Account) : Prop :=
  ∀ m ∈ acc.polled, m.offset < Ledger.greatestOffset →
    ∃ offsets next, (offsets, .ok ()) ∈ acc.commits ∧ offsets.find? m.partition = some next ∧
      m.offset < next

end Account

/-! ## On the way to a commit -/

/-- The work of a lease, whether or not it has faulted. -/
def Phase.load? : Phase → Option Work
  | .held l | .waiting l _ => some ⟨l, [], .poll⟩
  | .emitting l units errand => some ⟨l, units, errand⟩
  | _ => none

/-- A cycle has noted all that it polled and has handed it on as far as it is not still on its way,
and it has not committed. -/
structure Carries (t : CycleTerms) (x : Work) (acc : Account) : Prop where
  sink : x.lease.sink = t.sink
  ledger : x.lease.ledger = Ledger.empty.recordAll acc.polled
  commits : acc.commits = []
  replies : ∀ r, .committed r ∉ acc.replies
  sinks : ∀ u ∈ acc.accepted, u.1 = t.sink
  pieces : ∃ contents,
    List.Forall₂ (Emission.MadeOf t.settings.batch) (acc.accepted.map (·.2)) contents ∧
      x.HandsOn t.reader t.settings.batch acc.polled contents.flatten

variable {t : CycleTerms} {now : Nat} {s : Stint} {ph : Phase} {l l' : Lease} {acc : Account}
  {units : List Emission} {errand : Errand}

namespace Carries

theorem issue (t : CycleTerms) (id : LeaseId) (c : Connection) (now : Nat) :
    Carries t ⟨.issue id c t.reader t.settings t.sink now, [], .poll⟩ {} where
  sink := rfl
  ledger := rfl
  commits := rfl
  replies _ := List.not_mem_nil
  sinks _ hu := absurd hu List.not_mem_nil
  pieces := ⟨[], .nil, .issue id c t.reader t.settings t.sink now []⟩

/-- The lease has changed in what does not count here. -/
theorem like (h : Carries t ⟨l, units, errand⟩ acc) (hsink : l'.sink = l.sink)
    (hledger : l'.ledger = l.ledger) (haccumulator : l'.accumulator = l.accumulator) :
    Carries t ⟨l', units, errand⟩ acc where
  sink := hsink.trans h.sink
  ledger := hledger.trans h.ledger
  commits := h.commits
  replies := h.replies
  sinks := h.sinks
  pieces := by
    obtain ⟨contents, hmade, hhands⟩ := h.pieces
    refine ⟨contents, hmade, ⟨haccumulator ▸ hhands.reader_eq, haccumulator ▸ hhands.settings_eq,
      fun he => haccumulator ▸ hhands.flushed he, ?_⟩⟩
    show ∃ kept contents, l'.accumulator.Holds kept ∧ _
    rw [haccumulator]
    exact hhands.pieces

/-- A call was answered, and it was no commit. -/
theorem answer {x : Work} (h : Carries t x acc) (k : Nat) {replies : List Reply}
    (hreplies : ∀ r, .committed r ∉ replies) :
    Carries t x (acc.add { polls := k, replies := replies }) where
  sink := h.sink
  ledger := h.ledger.trans (congrArg _ (List.append_nil acc.polled).symm)
  commits := h.commits
  replies r hr := (List.mem_append.mp hr).elim (hreplies r) (h.replies r)
  sinks := h.sinks
  pieces := by
    show ∃ contents, _ ∧ x.HandsOn _ _ (acc.polled ++ []) _
    rw [List.append_nil]
    exact h.pieces

/-- A unit was accepted. -/
theorem accept {e : Emission} (h : Carries t ⟨l, e :: units, errand⟩ acc) :
    Carries t ⟨l, units, errand⟩ (acc.add { accepted := [(l.sink, e)] }) where
  sink := h.sink
  ledger := h.ledger.trans (congrArg _ (List.append_nil acc.polled).symm)
  commits := h.commits
  replies := h.replies
  sinks := List.forall_mem_cons.mpr ⟨h.sink, h.sinks⟩
  pieces := by
    obtain ⟨contents, hmade, hhands⟩ := h.pieces
    obtain ⟨content, hcontent, hhands⟩ := hhands.accept
    refine ⟨content :: contents, .cons hcontent hmade, ?_⟩
    show Work.HandsOn _ _ _ (acc.polled ++ []) _
    rw [List.append_nil]
    exact hhands

/-- Messages came in, and what is due is on its way. -/
theorem take (h : Carries t ⟨l, [], .poll⟩ acc) (k : Nat) {ms : List Message}
    (hsink : l'.sink = l.sink) (hledger : l'.ledger = l.ledger.recordAll ms)
    (htakes : ∀ kept, l.accumulator.Holds kept → ∃ kept' contents,
      l.accumulator.Takes kept (ms.flatMap (·.pieces t.reader)) (l'.accumulator, units) kept'
        contents)
    (hflushed : errand = .commit → l'.accumulator.pending = []) :
    Carries t ⟨l', units, errand⟩ (acc.add { polls := k, polled := ms }) where
  sink := hsink.trans h.sink
  ledger := by
    show l'.ledger = Ledger.empty.recordAll (acc.polled ++ ms)
    rw [hledger, Ledger.recordAll_append]
    exact congrArg (·.recordAll ms) h.ledger
  commits := h.commits
  replies := h.replies
  sinks := h.sinks
  pieces := by
    obtain ⟨contents, hmade, hhands⟩ := h.pieces
    exact ⟨contents, hmade, hhands.take htakes hflushed⟩

/-- A poll brings messages, or none. -/
theorem receive (h : Carries t ⟨l, [], .poll⟩ acc) (k time : Nat) (ms : List Message) :
    Carries t ⟨l.taking time ms, l.due time ms, .poll⟩ (acc.add { polls := k, polled := ms }) := by
  obtain ⟨_, _, hhands⟩ := h.pieces
  have hreader : l.accumulator.reader = t.reader := hhands.reader_eq
  exact h.take k rfl rfl (fun kept hkept => hreader ▸ Accumulator.receive_takes hkept time ms) nofun

/-- A commit begins, and everything is on its way. -/
theorem flush (h : Carries t ⟨l, [], .poll⟩ acc) :
    Carries t ⟨l.flush.1, l.flush.2, .commit⟩ acc := by
  have hflushed : Carries t ⟨l.flush.1, l.flush.2, .commit⟩ (acc.add {}) :=
    h.take 0 rfl rfl (fun kept hkept => Accumulator.flushAll_takes hkept) fun _ => rfl
  rwa [Account.add_empty] at hflushed

end Carries

/-- Wherever a cycle is, it has kept to this. -/
theorem Course.carries (h : Course t now s ph acc) : ∀ x, ph.load? = some x → Carries t x acc := by
  induction h with
  | begins id c =>
    rintro x ⟨⟩
    exact .issue ..
  | later h hnow ih => exact ih
  | looks h scheduled ih => exact ih
  | goesOn h hnow hroom ih =>
    rintro x ⟨⟩
    exact (ih _ rfl).answer 0 (by simp)
  | stops h state ih =>
    rintro x ⟨⟩
    exact ((ih _ rfl).answer 0 (by simp)).like rfl rfl rfl
  | waits h c deadline hdeadline ih =>
    rintro x ⟨⟩
    exact ((ih _ rfl).answer 1 (by simp)).like rfl rfl rfl
  | brings h c time hlimit hnone ih =>
    rintro x ⟨⟩
    have hpolling : Carries _ ⟨Lease.pollingWith _ c, [], .poll⟩ _ := (ih _ rfl).like rfl rfl rfl
    exact hpolling.receive 1 time _
  | timesOut h hnow time ih =>
    rintro x ⟨⟩
    have hnothing : Carries _ _ (Account.add _ {}) := (ih _ rfl).receive 0 time []
    rwa [Account.add_empty] at hnothing
  | accepts h ih =>
    rintro x ⟨⟩
    exact (ih _ rfl).accept
  | pollEnds h ih =>
    rintro x ⟨⟩
    exact (ih _ rfl).answer 0 (by simp)
  | schedules h ih => exact ih
  | flushes h ih =>
    rintro x ⟨⟩
    exact (ih _ rfl).flush

/-! ## The end of a cycle -/

/-- An outcome says about a cycle what is true. -/
structure Tells (t : CycleTerms) (o : CycleOutcome) (acc : Account) : Prop where
  worked : o = .workPerformed ↔ .committed (.ok true) ∈ acc.replies
  handed : o = .workPerformed → acc.HandedOver t.reader t.settings.batch t.sink
  covered : o = .workPerformed → acc.Covered
  refused : o = .backoff → ∀ offsets, (offsets, .ok ()) ∉ acc.commits
  once : acc.commits.length ≤ 1

theorem tells_nothing (t : CycleTerms) : Tells t .backoff {} where
  worked := ⟨nofun, fun hr => absurd hr List.not_mem_nil⟩
  handed := nofun
  covered := nofun
  refused _ _ := List.not_mem_nil
  once := Nat.zero_le 1

namespace Carries

variable {x : Work} {more : Account}

/-- All commits are those of its end. -/
theorem commits_add (h : Carries t x acc) (more : Account) :
    (acc.add more).commits = more.commits := by
  show more.commits ++ acc.commits = _
  rw [h.commits, List.append_nil]

/-- The cycle backs off, with at most one commit, which failed. -/
theorem tells_backoff (h : Carries t x acc)
    (hcommits : more.commits = [] ∨ ∃ offsets e, more.commits = [(offsets, .error e)])
    (hreplies : .committed (.ok true) ∉ more.replies) : Tells t .backoff (acc.add more) := by
  refine ⟨⟨nofun, fun hr => ?_⟩, nofun, nofun, fun _ offsets hmem => ?_, ?_⟩
  · obtain hr | hr := List.mem_append.mp hr
    · exact absurd hr hreplies
    · exact absurd hr (h.replies _)
  · rw [h.commits_add] at hmem
    obtain hnone | ⟨offsets', e, hone⟩ := hcommits
    · rw [hnone] at hmem
      cases hmem
    · rw [hone] at hmem
      cases List.mem_singleton.mp hmem
  · rw [h.commits_add]
    obtain hnone | ⟨offsets', e, hone⟩ := hcommits
    · rw [hnone]
      exact Nat.zero_le 1
    · rw [hone]
      exact Nat.le_refl 1

/-- The cycle ends with a commit that covers what was polled. -/
theorem tells_workPerformed (h : Carries t ⟨l, [], .commit⟩ acc) (hpolled : more.polled = [])
    (haccepted : more.accepted = []) (hlength : more.commits.length ≤ 1)
    (hreplies : more.replies = [.committed (.ok true)])
    (hcovers : ∀ m ∈ acc.polled, m.offset < Ledger.greatestOffset →
      ∃ next, (l.ledger.committable, .ok ()) ∈ more.commits ∧
        l.ledger.committable.find? m.partition = some next ∧ m.offset < next) :
    Tells t .workPerformed (acc.add more) := by
  have hsame : (acc.add more).polled = acc.polled ∧ (acc.add more).accepted = acc.accepted := by
    show acc.polled ++ more.polled = _ ∧ more.accepted ++ acc.accepted = _
    rw [hpolled, haccepted, List.append_nil]
    exact ⟨rfl, rfl⟩
  refine ⟨⟨fun _ => ?_, fun _ => rfl⟩, fun _ => ⟨?_, ?_⟩, fun _ m hm hlt => ?_, nofun, ?_⟩
  · show _ ∈ more.replies ++ acc.replies
    rw [hreplies]
    exact List.mem_cons_self
  · rw [hsame.2]
    exact h.sinks
  · obtain ⟨contents, hmade, hhands⟩ := h.pieces
    rw [hsame.1, hsame.2]
    exact ⟨contents, hmade, hhands.complete⟩
  · rw [hsame.1] at hm
    rw [h.commits_add]
    obtain ⟨next, hmem, hnext, hlt⟩ := hcovers m hm hlt
    exact ⟨_, next, hmem, hnext, hlt⟩
  · rw [h.commits_add]
    exact hlength

/-- What the ledger has to commit reaches beyond every message. -/
theorem lt_next (h : Carries t x acc) {m : Message} (hm : m ∈ acc.polled)
    (hlt : m.offset < Ledger.greatestOffset) :
    ∃ r, x.lease.ledger.ranges.find? m.partition = some r ∧ m.offset < r.next := by
  rw [h.ledger]
  exact Ledger.lt_next_recordAll Ledger.empty hm hlt

end Carries

/-- Whichever way a cycle ends, its outcome says what is true. -/
theorem Ends.tells {o : CycleOutcome} (h : Ends t o acc) : Tells t o acc := by
  cases h with
  | unscheduled h =>
    have hends : Tells t .backoff (acc.add {}) :=
      (h.carries _ rfl).tells_backoff (.inl rfl) List.not_mem_nil
    rwa [Account.add_empty] at hends
  | pollFails h e => exact (h.carries _ rfl).tells_backoff (.inl rfl) (by simp)
  | interrupted h e => exact (h.carries _ rfl).tells_backoff (.inl rfl) (by simp)
  | @refuses now s l e units errand acc h fault =>
    exact (h.carries _ rfl).tells_backoff (.inl rfl) (by cases errand <;> simp [Reply.failed])
  | unusable h e => exact (h.carries _ rfl).tells_backoff (.inl rfl) (by simp)
  | commitFails h hcommits ho =>
    refine (h.carries _ rfl).tells_backoff ?_ (by simpa using ho.symm)
    exact hcommits.imp_right fun ⟨e, hone⟩ => ⟨_, e, hone⟩
  | @nothingToCommit now l acc h hempty =>
    have hcarries := h.carries _ rfl
    refine hcarries.tells_workPerformed rfl rfl (Nat.zero_le 1) rfl fun m hm hlt => ?_
    obtain ⟨r, hrange, -⟩ := hcarries.lt_next hm hlt
    have hnone : l.ledger.ranges = [] := List.isEmpty_iff.mp hempty
    change l.ledger.ranges.find? m.partition = some r at hrange
    rw [hnone] at hrange
    cases hrange
  | commits h =>
    have hcarries := h.carries _ rfl
    refine hcarries.tells_workPerformed rfl rfl (Nat.le_refl 1) rfl fun m hm hlt => ?_
    obtain ⟨r, hrange, hlt⟩ := hcarries.lt_next hm hlt
    refine ⟨r.next, List.mem_singleton_self _, ?_, hlt⟩
    rw [Ledger.find?_committable, hrange, Option.map_some]

/-! ## Leases that are over -/

/-- A lease with that number has been issued, and it is not out any more. -/
structure Pool.Past (p : Pool) (lease : LeaseId) : Prop where
  issued : lease ≤ p.lastLease
  back : p.outstanding.find? lease = none

namespace World

variable {w w' : World} {id : LeaseId}

/-- A number is not given to a lease again. -/
theorem past_step (hstep : Step w w') (h : Owned w.pool w.phases w.inquiries)
    (hpast : w.pool.Past id) : w'.pool.Past id where
  issued := Nat.le_trans hpast.issued (lastLease_step hstep h)
  back := by
    cases lends_of_step hstep h with
    | same hout hlast => rw [hout, hpast.back]
    | lend hs hout hlast =>
      rw [hout, SortedMap.find?_insert_of_ne (Nat.ne_of_lt (Nat.lt_succ_of_le hpast.issued)),
        hpast.back]
    | back hout hlast hph =>
      rw [hout, SortedMap.find?_erase h.sorted]
      split
      · rfl
      · exact hpast.back

theorem past_run (h : Owned w.pool w.phases w.inquiries) (hpast : w.pool.Past id)
    (as : List Action) : (w.run as).pool.Past id :=
  (run_induction (P := fun w => Owned w.pool w.phases w.inquiries ∧ w.pool.Past id)
    (fun _ _ hstep h => ⟨owned_step hstep h.1, past_step hstep h.1 h.2⟩) ⟨h, hpast⟩ as).2

theorem lastLease_run (h : Owned w.pool w.phases w.inquiries) (as : List Action) :
    w.pool.lastLease ≤ (w.run as).pool.lastLease :=
  (run_induction
    (P := fun w' => Owned w'.pool w'.phases w'.inquiries ∧ w.pool.lastLease ≤ w'.pool.lastLease)
    (fun _ _ hstep h => ⟨owned_step hstep h.1, Nat.le_trans h.2 (lastLease_step hstep h.1)⟩)
    ⟨h, Nat.le_refl _⟩ as).2

end World

namespace Crew

variable {c c' : Crew} {n : Nat} {id : PoolId} {lease : LeaseId} {post post' : Post}

/-- Whoever has a lease after a step had it before, or nobody had. -/
theorem lease_step (hstep : Step c c') (hs : Stocked c) (hpost : c'.posts.find? n = some post')
    (hlease : post'.lease? = some (id, lease)) :
    (∃ post, c.posts.find? n = some post ∧ post.lease? = some (id, lease)) ∨ ¬c.Live id lease := by
  cases hstep with
  | spawn job =>
    obtain ⟨-, rfl⟩ | ⟨-, hold⟩ := SortedMap.of_find?_insert hpost
    · cases job <;> cases hlease
    · exact .inl ⟨post', hold, hlease⟩
  | @turn m post hm hfree =>
    obtain ⟨post₁, -, hfind, -, hgets⟩ := (turned hs hm).leads
    rw [hfind] at hpost
    split at hpost
    · rename_i heq
      cases hpost
      exact (hgets id lease hlease).imp_left fun hl => ⟨post, heq ▸ hm, hl⟩
    · exact .inl ⟨post', hpost, hlease⟩
  | lose hm =>
    obtain ⟨-, rfl⟩ | ⟨-, hold⟩ := SortedMap.of_find?_insert hpost
    · cases hlease
    · exact .inl ⟨post', hold, hlease⟩
  | @evictIdle id' hslot =>
    exact .inl ⟨post', (c.beside_onPool id' .evictIdle).posts ▸ hpost, hlease⟩
  | _ => exact .inl ⟨post', hpost, hlease⟩

/-- The task has the lease, or the lease is over. -/
def Minds (c : Crew) (n : Nat) (id : PoolId) (lease : LeaseId) : Prop :=
  (∃ post, c.posts.find? n = some post ∧ post.lease? = some (id, lease)) ∨
    ∃ p, c.pool? id = some p ∧ p.Past lease

theorem Minds.act (hs : Seated c) (h : c.Minds n id lease) (d : Doing) :
    (c.act d).Minds n id lease := by
  have hstep := act_step c d
  have hs' := seated_step hstep hs
  have hkept := Upkeep.act hs.stocked d
  obtain ⟨post, hpost, hlease⟩ | ⟨p, hp, hpast⟩ := h
  · have hlive := live_of_seat (hs.manned.posts n post hpost).2 hlease
    by_cases hlive' : (c.act d).Live id lease
    · -- Somebody has it, and that is nobody else than before.
      obtain ⟨m, post', hpost', hlease'⟩ := hs'.manned.tended id lease hlive'
      obtain ⟨post₁, hpost₁, hlease₁⟩ | hnot := lease_step hstep hs.stocked hpost' hlease'
      · obtain rfl := hs.manned.apart n m post post₁ _ hpost hpost₁ hlease hlease₁
        exact .inl ⟨post', hpost', hlease'⟩
      · exact absurd hlive hnot
    · obtain ⟨ph, hph, hne⟩ := hlive
      obtain ⟨p, hp⟩ := hs.stocked.pool_of_phase hph
      have howned := hs.stocked.owned hp
      obtain ⟨as, hp'⟩ := hkept.pools id p hp
      refine .inr ⟨_, hp', ⟨?_, ?_⟩⟩
      · obtain hended | ⟨loan, hloan, -⟩ :=
          howned.phases lease ph ((hs.stocked.phases_world hp lease).trans hph)
        · exact absurd hended hne
        · exact Nat.le_trans (howned.issued _ (SortedMap.mem_of_find? hloan))
            (World.lastLease_run howned as)
      · cases hout : ((c.world p).run as).pool.outstanding.find? lease with
        | none => rfl
        | some loan =>
          obtain ⟨ph', hph', hne'⟩ := (hs'.stocked.owned hp').held lease loan hout
          exact absurd ⟨ph', (hs'.stocked.phases_world hp' lease).symm.trans hph', hne'⟩ hlive'
  · obtain ⟨as, hp'⟩ := hkept.pools id p hp
    exact .inr ⟨_, hp', World.past_run (hs.stocked.owned hp) hpast as⟩

theorem Minds.run (hs : Seated c) (h : c.Minds n id lease) (ds : List Doing) :
    (c.run ds).Minds n id lease := by
  induction ds generalizing c with
  | nil => exact h
  | cons d ds ih => exact ih (seated_step (act_step c d) hs) (h.act hs d)

end Crew

/-! ## Every run -/

/-- The outcome of a cycle that is over. -/
def Post.outcome? : Post → Option CycleOutcome
  | .ended o => some o
  | _ => none

namespace Crew

variable {c : Crew} {n : Nat}

def outcome? (c : Crew) (n : Nat) : Option CycleOutcome := (c.posts.find? n).bind Post.outcome?

/-- The lease that a task has, or is about to get. -/
def lease? (c : Crew) (n : Nat) : Option (PoolId × LeaseId) := (c.posts.find? n).bind Post.lease?

theorem outcome?_eq_some {o : CycleOutcome} :
    c.outcome? n = some o ↔ c.posts.find? n = some (.ended o) := by
  refine ⟨fun h => ?_, fun h => by rw [outcome?, h]; rfl⟩
  obtain ⟨post, hpost, houtcome⟩ := Option.bind_eq_some_iff.mp h
  cases post with
  | ended o' =>
    obtain rfl : o' = o := Option.some.inj houtcome
    exact hpost
  | _ => cases houtcome

/-- A cycle that is over has an outcome that says what is true. -/
theorem Conducts.tells {o : CycleOutcome} (h : Conducts t c n acc)
    (hpost : c.posts.find? n = some (.ended o)) : Tells t o acc := by
  obtain ⟨rfl, rfl⟩ | hends := (conducts_some hpost).mp h
  · exact tells_nothing t
  · exact hends.tells

/-- Without a commit that succeeded, no turn of a task changes committed offsets. -/
theorem committed_of_refused {ds before after : List Doing}
    (hrefused : ∀ offsets, (offsets, .ok ()) ∉ (c.account n ds).commits)
    (hds : ds = before ++ .turn n :: after) :
    ((c.run before).act (.turn n)).env.cluster.committed = (c.run before).env.cluster.committed := by
  refine ((c.run before).committed_turn n).resolve_right fun ⟨offsets, hmem⟩ => ?_
  have hturn : Doing.isTurnOf n (.turn n) = true := beq_self_eq_true n
  refine hrefused offsets ?_
  rw [hds, account_append, account, if_pos hturn]
  exact List.mem_append_left _ (List.mem_append_right _ hmem)

/-- Whatever broker, sink, wakeups and other tasks do: a cycle has performed work just if it got a
lease and a commit on it succeeded, and then the sink has accepted all that was polled, and the
commit covers it.  It backs off only if no commit succeeded, and then no turn of it has changed a
committed offset.  Either way it has called for at most one commit, and no lease that it ever had is
still out. -/
theorem outcome_tells_the_truth (maxPollRecords now : Nat) (resolver : Resolver)
    (reader : RecordReader) (settings : IntakeSettings) (sink : String) (ds : List Doing) (n : Nat)
    (o : CycleOutcome) :
    let c₀ := start maxPollRecords now resolver reader settings sink
    let c := c₀.run ds
    let acc := c₀.account n ds
    c.outcome? n = some o →
      (o = .workPerformed ↔ .committed (.ok true) ∈ acc.replies) ∧
      (o = .workPerformed → acc.HandedOver reader settings.batch sink ∧ acc.Covered) ∧
      (o = .backoff → (∀ offsets, (offsets, .ok ()) ∉ acc.commits) ∧
        ∀ before after, ds = before ++ .turn n :: after →
          ((c₀.run before).act (.turn n)).env.cluster.committed =
            (c₀.run before).env.cluster.committed) ∧
      acc.commits.length ≤ 1 ∧
      ∀ before after id lease, ds = before ++ after →
        (c₀.run before).lease? n = some (id, lease) →
          ∃ p, c.pool? id = some p ∧ p.outstanding.find? lease = none := by
  intro c₀ c acc houtcome
  have hpost := outcome?_eq_some.mp houtcome
  have hconducts := conducts_start maxPollRecords now resolver reader settings sink ds n
  have htells := hconducts.tells hpost
  refine ⟨htells.worked, fun ho => ⟨htells.handed ho, htells.covered ho⟩, fun ho => ?_,
    htells.once, fun before after id lease hds hlease => ?_⟩
  · exact ⟨htells.refused ho, fun before after => committed_of_refused (htells.refused ho)⟩
  · have hseated : Seated (c₀.run before) :=
      run_induction (fun _ _ hstep hs => seated_step hstep hs)
        (seated_start maxPollRecords now resolver reader settings sink) before
    have hminds := Minds.run hseated (.inl (Option.bind_eq_some_iff.mp hlease)) after
    rw [← run_append, ← hds] at hminds
    obtain ⟨post, hpost', hlease'⟩ | ⟨p, hp, hpast⟩ := hminds
    · obtain rfl : .ended o = post := Option.some.inj (hpost.symm.trans hpost')
      cases hlease'
    · exact ⟨p, hp, hpast.back⟩

/-- A cycle commits a message.  The commit of the next cycle is refused. -/
def refusedOnce : List Doing :=
  [.onCluster (.produce ⟨⟨"t", 0⟩, 0, none, some [123, 125], none, []⟩), .spawn .cycle] ++
    List.replicate 18 (.turn 0) ++
    [.onCluster (.produce ⟨⟨"t", 0⟩, 0, none, some [123, 125], none, []⟩),
      .onCluster (.failCommits 1), .spawn .cycle] ++ List.replicate 16 (.turn 1)

theorem outcome_tells_the_truth_refusedOnce :
    let c₀ := start 10 0 ⟨.topics ["t"], none⟩ Record.read { lease := { maxRecords := 1 } } "s"
    let c := c₀.run refusedOnce
    c.outcome? 0 = some .workPerformed ∧ (c₀.account 0 refusedOnce).polled.length = 1 ∧
      (c₀.account 0 refusedOnce).Covered ∧
        c.outcome? 1 = some .backoff ∧ (c₀.account 1 refusedOnce).polled.length = 1 ∧
          ∀ offsets, (offsets, .ok ()) ∉ (c₀.account 1 refusedOnce).commits := by
  intro c₀ c
  have hperformed : c.outcome? 0 = some .workPerformed := by decide +kernel
  have hrefused : c.outcome? 1 = some .backoff := by decide +kernel
  obtain ⟨-, hcovered, -⟩ := outcome_tells_the_truth 10 0 ⟨.topics ["t"], none⟩ Record.read
    { lease := { maxRecords := 1 } } "s" refusedOnce 0 .workPerformed hperformed
  obtain ⟨-, -, hnone, -⟩ := outcome_tells_the_truth 10 0 ⟨.topics ["t"], none⟩ Record.read
    { lease := { maxRecords := 1 } } "s" refusedOnce 1 .backoff hrefused
  exact ⟨hperformed, by decide +kernel, (hcovered rfl).2, hrefused, by decide +kernel,
    (hnone rfl).1⟩

end Crew
end RecordIntake
