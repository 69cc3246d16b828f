import RecordIntake.Proofs.Installation
import RecordIntake.Proofs.Interruption

/-!
After the trigger was unscheduled and its leases were interrupted, no cycle stays in a poll.

The leases to be woken are gathered once.  A cycle that has a lease by then, and may still poll, has
it among them; one that gets its lease later finds the trigger unscheduled before it polls.  So each
lease that may still poll is marked: its signal is raised, or its handle is among those still to be
used.  A lease stays marked until it can do nothing any more, for nobody else takes its signal, and
that carries over from the pool when it is alone, because all leases are of one pool.
-/
namespace RecordIntake

/-! ## Leases that are woken -/

namespace World

variable {w w' : World} {id : LeaseId} {handles : List LeaseHandle}

/-- The signal of the lease is raised, or will be when the handles have been used. -/
def Awaited (w : World) (handles : List LeaseHandle) (id : LeaseId) : Prop :=
  ∃ loan, w.pool.outstanding.find? id = some loan ∧
    (w.env.isRaised loan.signal = true ∨ ∃ h ∈ handles, h.signal = loan.signal)

/-- The lease was or will be woken, or can do nothing any more, and no other will have its
number. -/
structure Marked (w : World) (handles : List LeaseHandle) (id : LeaseId) : Prop where
  issued : id ≤ w.pool.lastLease
  marked : Awaited w handles id ∨ Silent w id

theorem Marked.congr (h : Marked w handles id) (hpool : w'.pool = w.pool)
    (hphases : w'.phases = w.phases)
    (hraised : ∀ s, w.env.isRaised s = true → w'.env.isRaised s = true) :
    Marked w' handles id := by
  refine ⟨hpool ▸ h.issued, ?_⟩
  obtain ⟨loan, hloan, hr⟩ | hsilent := h.marked
  · exact .inl ⟨loan, hpool ▸ hloan, hr.imp_left (hraised _)⟩
  · exact .inr (hsilent.congr hphases)

theorem marked_act (a : Action) (hw : Owned w.pool w.phases w.inquiries)
    (h : Marked w handles id) : Marked (w.act a) handles id where
  issued := Nat.le_trans h.issued (lastLease_step (act_step w a) hw)
  marked := by
    obtain ⟨loan, hloan, hraised | hlisted⟩ | hsilent := h.marked
    · obtain ⟨loan', hloan', hr⟩ | hsilent := woken_act a hw ⟨loan, hloan, hraised⟩
      · exact .inl ⟨loan', hloan', .inl hr⟩
      · exact .inr hsilent
    · obtain hout | hsilent := out_step (act_step w a) hw hloan
      · exact .inl ⟨loan, hout, .inr hlisted⟩
      · exact .inr hsilent
    · exact .inr (silent_step (act_step w a) h.issued hsilent)

/-- When a handle has been used it need not be any more. -/
theorem Marked.woken {handle : LeaseHandle} (h : Marked w (handle :: handles) id)
    (hraised : w.env.isRaised handle.signal = true) : Marked w handles id := by
  refine ⟨h.issued, h.marked.imp_left ?_⟩
  rintro ⟨loan, hloan, hr | ⟨h', hmem, hsignal⟩⟩
  · exact ⟨loan, hloan, .inl hr⟩
  · obtain rfl | hmem := List.mem_cons.mp hmem
    · exact ⟨loan, hloan, .inl (hsignal ▸ hraised)⟩
    · exact ⟨loan, hloan, .inr ⟨h', hmem, hsignal⟩⟩

/-- The handles of all leases that are out mark them all. -/
theorem marked_activeLeases (hw : Owned w.pool w.phases w.inquiries) {ph : Phase}
    (hph : w.phases.find? id = some ph) (hne : ph ≠ .ended) :
    Marked w w.pool.activeLeases id := by
  obtain hended | ⟨loan, hloan, -⟩ := hw.phases id ph hph
  · exact absurd hended hne
  · have hmem := SortedMap.mem_of_find? hloan
    exact ⟨hw.issued _ hmem, .inl ⟨loan, hloan, .inr ⟨⟨id, loan.signal⟩,
      List.mem_map.mpr ⟨_, hmem, rfl⟩, rfl⟩⟩⟩

/-- When all handles have been used, a lease that is not silent has its signal raised. -/
theorem Marked.raised (h : Marked w [] id) (hw : Owned w.pool w.phases w.inquiries) {ph : Phase}
    {l : Lease} (hph : w.phases.find? id = some ph) (hl : ph.lease? = some l)
    (hs : ph.isSilent = false) : w.env.isRaised l.connection.signal = true := by
  obtain ⟨loan, hloan, hraised | ⟨h', hmem, -⟩⟩ | hsilent := h.marked
  · rw [signal_of_lease hw hph hl] at hloan
    cases hloan
    exact hraised
  · cases hmem
  · rw [hsilent.eq hph] at hs
    cases hs

/-- A lease whose signal is raised polls no more, nor does one that has failed. -/
theorem continuePolling_false {l : Lease} {env : Environment}
    (h : env.isRaised l.connection.signal = true ∨ l.state = .faulted) :
    (l.continuePolling env).2 = false := by
  refine Bool.eq_false_iff.mpr fun hmore => ?_
  obtain ⟨-, hfault, hraised⟩ := continuePolling_true hmore
  obtain hr | hf := h
  · rw [hr] at hraised
    cases hraised
  · exact hfault hf

end World

/-! ## Cycles that may poll -/

/-- Whether a cycle is in a poll, or may start one before it looks at the schedule again. -/
def Stint.mayPoll : Stint → Bool
  | .weighing | .starting | .polling => true
  | _ => false

theorem Stint.mayPoll_next {s : Stint} {reply : Option Reply}
    (h : (s.next false reply).mayPoll = true) : s.mayPoll = true := by
  cases s with
  | weighing => rfl
  | starting => rfl
  | polling => rfl
  | committing | handing =>
    simp only [next] at h
    split at h <;> cases h
  | _ => cases h

/-- Who started polls, once for each. -/
def startersIn (h : List Milestone) : List Nat := h.filterMap Milestone.poller?

/-- Whether a task is given a turn. -/
def Doing.isTurnOf (n : Nat) : Doing → Bool
  | .turn m => m == n
  | _ => false

/-- How many turns a task is given. -/
def turnsOf (n : Nat) (ds : List Doing) : Nat := ds.countP (Doing.isTurnOf n)

namespace Crew

variable {r : Resolver} {c c' : Crew} {n k : Nat} {post : Post} {id id' : PoolId}
  {lease : LeaseId} {handles : List LeaseHandle}

theorem scheduled_step (hstep : Step c c') (hs : Stocked c) (h : c.trigger.scheduled = false) :
    c'.trigger.scheduled = false := by
  cases hstep with
  | turn hpost hfree => exact (turned hs hpost).scheduled h
  | unschedule => rfl
  | @evictIdle id hslot => exact (c.beside_onPool id .evictIdle).scheduled.trans h
  | _ => exact h

/-- Somebody else was sent to a post. -/
theorem leased_of_insert {post' : Post} (hne : ∀ id lease s, post' ≠ .leased id lease s) {s : Stint}
    (hfind : (c.posts.insert k post').find? n = some (.leased id lease s)) :
    c.posts.find? n = some (.leased id lease s) := by
  obtain ⟨-, heq⟩ | ⟨-, hfind⟩ := SortedMap.of_find?_insert hfind
  · exact absurd heq.symm (hne id lease s)
  · exact hfind

/-- After the trigger was unscheduled, no cycle comes where it may poll that was not there. -/
theorem mayPoll_step (hstep : Step c c') (hs : Stocked c) (h : c.trigger.scheduled = false)
    {s : Stint} (hpost : c'.posts.find? n = some (.leased id lease s)) (hmay : s.mayPoll = true) :
    ∃ s', c.posts.find? n = some (.leased id lease s') ∧ s'.mayPoll = true := by
  cases hstep with
  | spawn job => exact ⟨s, leased_of_insert (by cases job <;> rintro id lease s ⟨⟩) hpost, hmay⟩
  | @turn m post hm hfree =>
    obtain ⟨post', hleads, hfind, -⟩ := (turned hs hm).leads
    rw [hfind] at hpost
    split at hpost
    · rename_i heq
      cases hpost
      cases hleads with
      | opens => cases hmay
      | attends id lease s =>
        rw [h] at hmay
        exact ⟨s, heq ▸ hm, Stint.mayPoll_next hmay⟩
      | other hr hne => exact absurd rfl (hne id lease s)
    · exact ⟨s, hpost, hmay⟩
  | lose hm => exact ⟨s, leased_of_insert (by exact nofun) hpost, hmay⟩
  | @evictIdle id' hslot => exact ⟨s, (c.beside_onPool id' .evictIdle).posts ▸ hpost, hmay⟩
  | _ => exact ⟨s, hpost, hmay⟩

/-! ## Leases that are marked -/

/-- The lease was or will be woken, or can do nothing any more. -/
def Marked (c : Crew) (handles : List LeaseHandle) (id : PoolId) (lease : LeaseId) : Prop :=
  ∃ p, c.pool? id = some p ∧ World.Marked (c.world p) handles lease

/-- A pool and its leases are as they were, and no signal was taken. -/
structure Spares (c c' : Crew) (id : PoolId) : Prop where
  pool : c'.pool? id = c.pool? id
  phases : c'.phasesOf id = c.phasesOf id
  raised : ∀ s, c.env.isRaised s = true → c'.env.isRaised s = true

theorem Spares.of_eq (hpools : c'.trigger.pools = c.trigger.pools) (hphases : c'.phases = c.phases)
    (hraised : c'.env.raised = c.env.raised) (id : PoolId) : Spares c c' id where
  pool := by rw [pool?, hpools, pool?]
  phases := by rw [phasesOf, hphases, phasesOf]
  raised s h := (Environment.isRaised_congr hraised s).trans h

theorem Spares.wake (c : Crew) (handle : LeaseHandle) (id : PoolId) :
    Spares c { c with env := handle.wake c.env } id := by
  refine ⟨rfl, rfl, fun s h => ?_⟩
  rw [Environment.isRaised_wake, h, Bool.true_or]

namespace Marked

theorem spares (h : c.Marked handles id lease) (hs : Stocked c) (hspares : Spares c c' id) :
    c'.Marked handles id lease := by
  obtain ⟨p, hp, hm⟩ := h
  refine ⟨p, hspares.pool.trans hp, hm.congr rfl ?_ hspares.raised⟩
  obtain rfl := (hs.pools id p hp).1
  exact hspares.phases

/-- What happens to the pool of a lease leaves it marked. -/
theorem onPool (h : c.Marked handles id lease) (hs : Stocked c) (a : Action) :
    (c.onPool id a).Marked handles id lease := by
  obtain ⟨p, hp, hm⟩ := h
  have hid := hs.id_act hp a
  refine ⟨((c.world p).act a).pool, ?_, (World.marked_act a (hs.owned hp) hm).congr rfl ?_ ?_⟩
  · rw [onPool_some hp, pool?_withWorld, hid, if_pos rfl]
  · show (c.onPool id a).phasesOf ((c.world p).act a).pool.id = _
    rw [onPool_some hp, phasesOf_withWorld, if_pos rfl]
  · rw [onPool_some hp]
    exact fun _ hr => hr

/-- So does the closing of any pool, which takes no signal. -/
theorem close (h : c.Marked handles id lease) (hs : Stocked c) (id' : PoolId) :
    (c.onPool id' .close).Marked handles id lease := by
  by_cases heq : id' = id
  · subst heq
    exact h.onPool hs .close
  · cases hp : c.pool? id' with
    | none => rwa [onPool_none hp]
    | some p =>
      have hne : id ≠ ((c.world p).act .close).pool.id := by
        rw [hs.id_act hp]
        exact Ne.symm heq
      rw [onPool_some hp]
      refine h.spares hs ⟨?_, ?_, fun s hr => ?_⟩
      · rw [pool?_withWorld, if_neg hne]
      · rw [phasesOf_withWorld, if_neg hne]
      · exact (Environment.isRaised_congr (Environment.raised_disconnectAll ..) s).trans hr

theorem onPool? (h : c.Marked handles id lease) (hs : Stocked c) (a : Option Action) :
    (c.onPool? id a).Marked handles id lease := by
  cases a with
  | none => exact h
  | some a => exact h.onPool hs a

/-- A lease does not notice what happens to tasks, and what is remembered or counted. -/
theorem of_eq (h : c.Marked handles id lease) (hs : Stocked c)
    (hpools : c'.trigger.pools = c.trigger.pools) (hphases : c'.phases = c.phases)
    (hraised : c'.env.raised = c.env.raised) : c'.Marked handles id lease :=
  h.spares hs (.of_eq hpools hphases hraised id)

/-- Another pool is asked for counts. -/
theorem ask (h : c.Marked handles id lease) (hs : Stocked c) (hne : id ≠ id') {topics : List String}
    {counts : SortedMap String Nat} : (c.ask n id' counts topics).Marked handles id lease := by
  cases topics with
  | nil =>
    simp only [Crew.ask]
    split <;> exact h.of_eq hs rfl rfl rfl
  | cons topic topics =>
    simp only [Crew.ask]
    split
    · exact h.of_eq hs rfl rfl rfl
    · rename_i p hp
      have hid := (hs.owned_partitionCount hp topic).1
      have hraised := p.raised_partitionCount c.env topic
      have hpool : ∀ p' : Pool, p'.id = id' →
          (c.trigger.withPool p').pools.find? id = c.pool? id := by
        rintro p' rfl
        exact SortedMap.find?_insert_of_ne hne ..
      split <;> rename_i he <;> rw [he] at hid hraised
      · exact h.spares hs ⟨hpool _ hid, rfl, fun s =>
          (Environment.isRaised_congr hraised s).trans⟩
      · exact h.spares hs ⟨hpool _ hid, rfl, fun s =>
          (Environment.isRaised_congr hraised s).trans⟩

/-- Whatever task has its turn, a lease of the pool that was installed stays marked. -/
theorem turn (h : c.Marked handles id lease) (hs : Seated c) (ho : Orderly r c)
    (hpost : c.posts.find? n = some post) (hid : id ∈ installedIn c.history) :
    (c.turn n post).Marked handles id lease := by
  have hst := hs.stocked
  have hproper := ho.posts n post hpost
  have hsole : ∀ id', id' ∈ installedIn c.history → id = id' :=
    fun id' hid' => ho.chronicle.eq_of_installed hid hid'
  have hclosed : ∀ id', Stocked (c.onPool id' .close) := fun id' => hst.onPool id' rfl
  cases post with
  | arriving =>
    simp only [Crew.turn, arrive]
    split <;> exact h.of_eq hst rfl rfl rfl
  | looking =>
    simp only [Crew.turn, look]
    split
    · exact h.of_eq hst rfl rfl rfl
    · refine h.spares hst ⟨?_, rfl, fun _ hr => hr⟩
      obtain ⟨p, hp, -⟩ := h
      exact SortedMap.find?_insert_of_ne (Nat.ne_of_lt (hst.lt hp)) ..
  | asking id' topics counts =>
    have hne : id ≠ id' := by
      rintro rfl
      exact (ho.owned hpost rfl).absent hid
    exact h.ask hs.stocked hne
  | rejecting id' => exact (h.close hst id').of_eq (hclosed id') rfl rfl rfl
  | installing id' => exact h.of_eq hst rfl rfl rfl
  | placing id' =>
    simp only [Crew.turn, place]
    split <;> exact h.of_eq hst rfl rfl rfl
  | dismissing id' existing =>
    cases existing with
    | none => exact (h.close hst id').of_eq (hclosed id') rfl rfl rfl
    | some id₁ => exact (h.close hst id').of_eq (hclosed id') rfl rfl rfl
  | obtaining id' =>
    obtain rfl := hsole id' hproper
    have hdone := h.onPool hst (.request c.trigger.sink)
    have hst' := hst.onPool id (a := .request c.trigger.sink) rfl
    simp only [Crew.turn, obtain]
    split <;> exact hdone.of_eq hst' rfl rfl rfl
  | opening id' lease' =>
    obtain rfl := hsole id' hproper
    have hdone := h.onPool hst (.supply lease')
    have hst' := hst.onPool id (a := .supply lease') rfl
    simp only [Crew.turn, openLease]
    split <;> exact hdone.of_eq hst' rfl rfl rfl
  | leased id' lease' s =>
    obtain rfl := hsole id' hproper
    have hdone := h.onPool? hst (c.actOn id lease' s)
    have hst' := hst.onPool? id lease' s
    simp only [Crew.turn, attend]
    split <;> exact hdone.of_eq hst' rfl rfl rfl
  | closing => exact h.of_eq hst rfl rfl rfl
  | taking =>
    simp only [Crew.turn, take]
    split <;> exact h.of_eq hst rfl rfl rfl
  | shutting id' => exact (h.close hst id').of_eq (hclosed id') rfl rfl rfl
  | rousing grace =>
    simp only [Crew.turn, rouse]
    split <;> exact h.of_eq hst rfl rfl rfl
  | sparing id' deadline next =>
    simp only [Crew.turn, spare]
    split
    · exact h
    · split <;> exact h.of_eq hst rfl rfl rfl
  | gathering id' => exact h.of_eq hst rfl rfl rfl
  | waking handles' =>
    cases handles' with
    | nil => exact h
    | cons handle handles' =>
      have hwoken := h.spares hst (.wake c handle id)
      exact hwoken.of_eq (hst.congr rfl rfl rfl) rfl rfl rfl
  | ended o => exact h
  | closed => exact h

/-- Whatever happens, a lease of the pool that was installed stays marked. -/
theorem step (hstep : Step c c') (h : c.Marked handles id lease) (hs : Seated c)
    (ho : Orderly r c) (hid : id ∈ installedIn c.history) : c'.Marked handles id lease := by
  have hst := hs.stocked
  cases hstep with
  | stay => exact h
  | spawn job => exact h.of_eq hst rfl rfl rfl
  | turn hpost hfree => exact h.turn hs ho hpost hid
  | lose hpost => exact h.of_eq hst rfl rfl rfl
  | unschedule => exact h.of_eq hst rfl rfl rfl
  | environs hr => exact h.of_eq hst rfl rfl hr
  | wake handle => exact h.spares hst (.wake c handle id)
  | @evictIdle id' hslot =>
    obtain rfl := ho.chronicle.eq_of_installed hid (ho.slot id' hslot)
    exact h.onPool hst .evictIdle

end Marked

/-- Every lease with which a cycle may still poll is marked. -/
def MarksAll (c : Crew) (handles : List LeaseHandle) : Prop :=
  ∀ n id lease s, c.posts.find? n = some (.leased id lease s) → s.mayPoll = true →
    c.Marked handles id lease

theorem MarksAll.step (hstep : Step c c') (h : c.MarksAll handles) (hs : Seated c)
    (ho : Orderly r c) (hun : c.trigger.scheduled = false) : c'.MarksAll handles := by
  intro n id lease s hpost hmay
  obtain ⟨s', hpost', hmay'⟩ := mayPoll_step hstep hs.stocked hun hpost hmay
  exact (h n id lease s' hpost' hmay').step hstep hs ho (ho.posts n _ hpost')

theorem MarksAll.woken {handle : LeaseHandle} (h : c.MarksAll (handle :: handles))
    (hraised : c.env.isRaised handle.signal = true) : c.MarksAll handles := by
  intro n id lease s hpost hmay
  obtain ⟨p, hp, hm⟩ := h n id lease s hpost hmay
  exact ⟨p, hp, hm.woken hraised⟩

/-! ## A call that interrupts leases -/

/-- A task stays at its post until it has its turn, or loses its query. -/
theorem post_step (hstep : Step c c') (hs : Seated c) (hpost : c.posts.find? n = some post) :
    c'.posts.find? n = some post ∨ c' = c.turn n post ∨
      ∃ id topics counts, post = .asking id topics counts := by
  cases hstep with
  | spawn job =>
    have hne : n ≠ c.nextTask := Nat.ne_of_lt (hs.manned.posts n post hpost).1
    exact .inl ((SortedMap.find?_insert_of_ne hne ..).trans hpost)
  | @turn m post' hm hfree =>
    by_cases heq : n = m
    · subst heq
      obtain rfl : post = post' := Option.some.inj (hpost.symm.trans hm)
      exact .inr (.inl rfl)
    · obtain ⟨_, _, hfind, _⟩ := (turned hs.stocked hm).leads
      exact .inl ((hfind n).trans ((if_neg heq).trans hpost))
  | @lose m id topics counts hm =>
    by_cases heq : n = m
    · subst heq
      exact .inr (.inr ⟨id, topics, counts, Option.some.inj (hpost.symm.trans hm)⟩)
    · exact .inl ((SortedMap.find?_insert_of_ne heq ..).trans hpost)
  | @evictIdle id hslot => exact .inl ((c.beside_onPool id .evictIdle).posts ▸ hpost)
  | _ => exact .inl hpost

/-- The task is there to interrupt leases, and when it has gathered them it misses none that may
still poll. -/
def Rouses (c : Crew) : Post → Prop
  | .rousing _ | .sparing _ _ _ | .gathering _ => True
  | .waking handles => c.MarksAll handles
  | _ => False

theorem Rouses.rouses (h : c.Rouses post) : post.rouses = true := by
  cases post with
  | rousing grace => rfl
  | sparing id deadline next => rfl
  | gathering id => rfl
  | waking handles => rfl
  | _ => cases h

/-- A call to interrupt leases is on its way, of a trigger that was unscheduled. -/
structure Underway (c : Crew) (n : Nat) : Prop where
  scheduled : c.trigger.scheduled = false
  post : ∃ post, c.posts.find? n = some post ∧ c.Rouses post

/-- All leases that a cycle may poll with are among those that are gathered. -/
theorem marksAll_gather (hs : Seated c) (ho : Orderly r c)
    (hpost : c.posts.find? n = some (.gathering id)) :
    c.MarksAll (((c.pool? id).map Pool.activeLeases).getD []) := by
  intro m id' lease s hm hmay
  obtain rfl := ho.chronicle.eq_of_installed (ho.posts m _ hm) (ho.posts n _ hpost)
  obtain ⟨ph, hph, hfits⟩ := (hs.manned.posts m _ hm).2
  obtain ⟨p, hp⟩ := hs.stocked.pool_of_phase hph
  have hworld := (hs.stocked.phases_world hp lease).trans hph
  rw [hp]
  exact ⟨p, hp, World.marked_activeLeases (hs.stocked.owned hp) hworld hfits.ne_ended⟩

theorem Underway.step (hstep : Step c c') (h : c.Underway n) (hs : Seated c) (ho : Orderly r c)
    (hopen : c.trigger.slot = none → installedIn c.history = []) : c'.Underway n := by
  obtain ⟨hun, post, hpost, hr⟩ := h
  have hmarks : ∀ handles, c.MarksAll handles → c'.MarksAll handles :=
    fun _ h => h.step hstep hs ho hun
  refine ⟨scheduled_step hstep hs.stocked hun, ?_⟩
  obtain hsame | rfl | ⟨id, topics, counts, rfl⟩ := post_step hstep hs hpost
  · refine ⟨post, hsame, ?_⟩
    cases post with
    | waking handles => exact hmarks handles hr
    | rousing grace => trivial
    | sparing id deadline next => trivial
    | gathering id => trivial
    | _ => cases hr
  · obtain ⟨post', hleads, hfind, -⟩ := (turned hs.stocked hpost).leads
    refine ⟨post', (hfind n).trans (if_pos rfl), ?_⟩
    cases hleads with
    | missing grace hslot =>
      -- Without a pool nobody has a lease.
      refine hmarks [] fun m id lease s hm _ => ?_
      have hid : id ∈ installedIn c.history := ho.posts m _ hm
      rw [hopen hslot] at hid
      cases hid
    | gathers id => exact hmarks _ (marksAll_gather hs ho hpost)
    | wakes handle handles =>
      refine (hmarks _ hr).woken ?_
      show (handle.wake c.env).isRaised handle.signal = true
      rw [Environment.isRaised_wake, decide_eq_true rfl, Bool.or_true]
    | woken => exact hmarks [] hr
    | rouses => trivial
    | spares => trivial
    | spared => trivial
    | opens => cases hr
    | attends => cases hr
    | other hrouses =>
      rw [hr.rouses] at hrouses
      cases hrouses
  · cases hr

/-! ## As long as the trigger is not closed -/

/-- Nobody has called to close the trigger. -/
structure Open (c : Crew) : Prop where
  posts : ∀ n post, c.posts.find? n = some post → post.closes = false
  history : ∀ n, .shut n ∉ c.history

namespace Open

/-- The slot is empty only if it was never filled. -/
theorem nothing_installed (h : Open c) (ho : Orderly r c) (hslot : c.trigger.slot = none) :
    installedIn c.history = [] := by
  by_contra hne
  obtain ⟨-, ⟨m, hm⟩ | ⟨m, id, hm⟩⟩ := ho.emptied hslot hne
  · exact h.history m hm
  · cases h.posts m _ hm

theorem proceed (h : Open c) (n : Nat) (hclosed : post.closes = false) :
    Open (c.proceed n post) := by
  refine ⟨fun m post' hm => ?_, h.history⟩
  obtain ⟨-, rfl⟩ | ⟨-, hm⟩ := SortedMap.of_find?_insert hm
  · exact hclosed
  · exact h.posts m post' hm

theorem turn (h : Open c) (hs : Stocked c) (hpost : c.posts.find? n = some post) :
    Open (c.turn n post) := by
  have hclosed := h.posts n post hpost
  obtain ⟨post', hleads, hfind, -⟩ := (turned hs hpost).leads
  obtain ⟨ms, hhistory, -, hshut⟩ := c.history_turn n post
  refine ⟨fun m post₁ hm => ?_, fun m hm => ?_⟩
  · rw [hfind] at hm
    split at hm
    · cases hm
      cases hleads with
      | other _ _ hcloses =>
        refine Bool.eq_false_iff.mpr fun hc => ?_
        rw [hcloses hc] at hclosed
        cases hclosed
      | _ => rfl
    · exact h.posts m post₁ hm
  · rw [hhistory] at hm
    obtain hm | hm := List.mem_append.mp hm
    · rw [hshut m hm] at hclosed
      cases hclosed
    · exact h.history m hm

theorem act (h : Open c) (hs : Stocked c) {d : Doing} (hd : d ≠ .spawn .close) :
    Open (c.act d) := by
  cases d with
  | spawn job =>
    have hclosed : job.post.closes = false := by
      cases job with
      | close => exact absurd rfl hd
      | _ => rfl
    have hspawned := h.proceed c.nextTask hclosed
    exact ⟨hspawned.posts, hspawned.history⟩
  | turn n =>
    simp only [Crew.act]
    split
    · split
      · exact h
      · exact h.turn hs ‹_›
    · exact h
  | lose n =>
    simp only [Crew.act]
    split
    · exact h.proceed n rfl
    · exact h
  | evictIdle =>
    simp only [Crew.act]
    split
    · rename_i id hslot
      have hbeside := c.beside_onPool id .evictIdle
      exact ⟨hbeside.posts ▸ h.posts, hbeside.history ▸ h.history⟩
    · exact h
  | _ => exact ⟨h.posts, h.history⟩

end Open

/-! ## After the last wakeup -/

/-- The trigger was unscheduled, and every lease that may still poll was woken. -/
structure Quelled (c : Crew) : Prop where
  scheduled : c.trigger.scheduled = false
  marks : c.MarksAll []

theorem Underway.quelled (h : c.Underway n) (hpost : c.posts.find? n = some (.waking [])) :
    Quelled c := by
  obtain ⟨hun, post, hpost', hr⟩ := h
  obtain rfl : .waking [] = post := Option.some.inj (hpost.symm.trans hpost')
  exact ⟨hun, hr⟩

namespace Quelled

theorem step (hstep : Step c c') (h : Quelled c) (hs : Seated c) (ho : Orderly r c) :
    Quelled c' :=
  ⟨scheduled_step hstep hs.stocked h.scheduled, h.marks.step hstep hs ho h.scheduled⟩

/-- A lease that may still poll, and can still do anything, has a wakeup pending. -/
theorem raised (h : Quelled c) (hs : Seated c) {s : Stint}
    (hpost : c.posts.find? n = some (.leased id lease s)) (hmay : s.mayPoll = true) {ph : Phase}
    {l : Lease} (hph : c.phase? id lease = some ph) (hl : ph.lease? = some l)
    (hsilent : ph.isSilent = false) : c.env.isRaised l.connection.signal = true := by
  obtain ⟨p, hp, hm⟩ := h.marks n id lease s hpost hmay
  exact hm.raised (hs.stocked.owned hp) ((hs.stocked.phases_world hp lease).trans hph) hl hsilent

/-- A poll that waits ends with an error as soon as its cycle has a turn. -/
theorem waiting_fails (h : Quelled c) (hs : Seated c)
    (hpost : c.posts.find? n = some (.leased id lease .polling)) {l : Lease} {deadline : Option Nat}
    (hph : c.phase? id lease = some (.waiting l deadline)) :
    c.reply id (.resume lease) = some (.polled (.error .interrupted)) := by
  have hraised := h.raised hs hpost rfl hph rfl rfl
  obtain ⟨p, hp⟩ := hs.stocked.pool_of_phase hph
  have hworld := (hs.stocked.phases_world hp lease).trans hph
  have hraised : (c.world p).env.isRaised l.connection.signal = true := hraised
  rw [reply_some hp]
  simp only [World.reply, hworld, Environment.resumePoll, if_pos hraised]
  rfl

/-- So does a poll that is started. -/
theorem starting_fails (h : Quelled c) (hs : Seated c)
    (hpost : c.posts.find? n = some (.leased id lease .starting)) :
    ∃ l, c.phase? id lease = some (.held l) ∧ c.env.isRaised l.connection.signal = true ∧
      ∃ e, c.reply id (.poll lease) = some (.polled (.error e)) := by
  obtain ⟨ph, hph, hfits⟩ := (hs.manned.posts n _ hpost).2
  cases hfits with
  | @starting l hl =>
    have hraised := h.raised hs hpost rfl hph rfl (decide_eq_false hl)
    obtain ⟨p, hp⟩ := hs.stocked.pool_of_phase hph
    have hworld := (hs.stocked.phases_world hp lease).trans hph
    refine ⟨l, hph, hraised, ?_⟩
    have hraised : (c.world p).env.isRaised l.connection.signal = true := hraised
    rw [reply_some hp]
    simp only [World.reply, hworld, if_neg hl, Environment.startPoll]
    cases (c.world p).env.takeFault .poll with
    | some fault => exact ⟨_, rfl⟩
    | none =>
      dsimp only
      rw [if_pos hraised]
      exact ⟨_, rfl⟩

/-- A cycle that asks whether another poll is worthwhile is told that it is not. -/
theorem weighing_stops (h : Quelled c) (hs : Seated c)
    (hpost : c.posts.find? n = some (.leased id lease .weighing)) :
    c.reply id (.continuePolling lease) = some (.continued false) := by
  obtain ⟨ph, hph, hfits⟩ := (hs.manned.posts n _ hpost).2
  cases hfits with
  | weighing l =>
    obtain ⟨p, hp⟩ := hs.stocked.pool_of_phase hph
    have hworld := (hs.stocked.phases_world hp lease).trans hph
    have hstops : c.env.isRaised l.connection.signal = true ∨ l.state = .faulted := by
      by_cases hl : l.state = .faulted
      · exact .inr hl
      · exact .inl (h.raised hs hpost rfl hph rfl (decide_eq_false hl))
    rw [reply_some hp]
    simp only [World.reply, hworld]
    exact congrArg (fun b => some (Reply.continued b)) (World.continuePolling_false hstops)

end Quelled

/-! ## Polls that go on -/

/-- How many polls a task has started, with the one that it starts in its next turn. -/
def pollsDue (c : Crew) (n : Nat) : Nat :=
  (startersIn c.history).count n + if (c.posts.find? n).any Post.startsPoll = true then 1 else 0

/-- How many turns a task at a post needs at most until its poll is over. -/
def pollTurnsAt (c : Crew) : Post → Nat
  | .leased _ _ .starting => 1
  | .leased id lease .polling =>
    match c.phase? id lease with
    | some (.emitting _ units _) => units.length + 1
    | _ => 1
  | _ => 0

def pollTurns (c : Crew) (n : Nat) : Nat := ((c.posts.find? n).map c.pollTurnsAt).getD 0

theorem pollTurns_of_post (hpost : c.posts.find? n = some post) :
    c.pollTurns n = c.pollTurnsAt post := by
  rw [pollTurns, hpost]
  rfl

theorem pollsDue_of_post (hpost : c.posts.find? n = some post) :
    c.pollsDue n = (startersIn c.history).count n + if post.startsPoll = true then 1 else 0 := by
  rw [pollsDue, hpost]
  rfl

/-- A task has no turn, so that the poll of a cycle is where it was. -/
structure Aside (c c' : Crew) (n : Nat) : Prop where
  post : ∀ id lease s, c'.posts.find? n = some (.leased id lease s) →
    c.posts.find? n = some (.leased id lease s) ∧ c'.phase? id lease = c.phase? id lease
  polls : (startersIn c'.history).count n = (startersIn c.history).count n

namespace Aside

theorem pollTurns_le (h : Aside c c' n) : c'.pollTurns n ≤ c.pollTurns n := by
  cases hpost : c'.posts.find? n with
  | none =>
    rw [pollTurns, hpost]
    exact Nat.zero_le _
  | some post =>
    rw [pollTurns_of_post hpost]
    cases post with
    | leased id lease s =>
      obtain ⟨hpost', hph⟩ := h.post id lease s hpost
      rw [pollTurns_of_post hpost']
      cases s with
      | polling =>
        refine Nat.le_of_eq ?_
        simp only [pollTurnsAt, hph]
      | _ => exact Nat.le_refl _
    | _ => exact Nat.zero_le _

theorem pollsDue_le (h : Aside c c' n) : c'.pollsDue n ≤ c.pollsDue n := by
  cases hpost : c'.posts.find? n with
  | none =>
    rw [pollsDue, hpost, h.polls]
    exact Nat.le_add_right _ _
  | some post =>
    rw [pollsDue_of_post hpost, h.polls]
    cases post with
    | leased id lease s =>
      exact Nat.le_of_eq (pollsDue_of_post (h.post id lease s hpost).1).symm
    | _ => exact Nat.le_add_right _ _

/-- Others may do anything. -/
theorem turn (hs : Seated c) {m : Nat} (hne : n ≠ m) (hpost : c.posts.find? m = some post) :
    Aside c (c.turn m post) n := by
  have ht := turned hs.stocked hpost
  obtain ⟨post', -, hfind, -⟩ := ht.leads
  obtain ⟨ms, hhistory, hpolls, -⟩ := c.history_turn m post
  refine ⟨fun id lease s hn => ?_, ?_⟩
  · rw [hfind, if_neg hne] at hn
    have hlive := live_of_seat (hs.manned.posts n _ hn).2 rfl
    exact ⟨hn, ht.others id lease hlive fun hlease =>
      hne (hs.manned.apart n m _ post _ hn hpost rfl hlease)⟩
  · rw [hhistory, startersIn, List.filterMap_append, List.count_append, hpolls]
    split
    · rw [List.count_singleton, if_neg (by simpa using hne.symm), Nat.zero_add]
      rfl
    · rw [List.count_nil, Nat.zero_add]
      rfl

end Aside

namespace Quelled

/-- What a poll does that is not over after a turn of its cycle: it has handed on one more unit. -/
theorem poll_goes_on (h : Quelled c) (hs : Seated c) (hpost : c.posts.find? n = some post)
    {s : Stint} (hpost' : (c.turn n post).posts.find? n = some (.leased id lease s))
    (hs' : s = .starting ∨ s = .polling) :
    s = .polling ∧ post = .leased id lease .polling ∧ ∃ l l' e units errand errand',
      c.phase? id lease = some (.emitting l (e :: units) errand) ∧
        (c.turn n post).phase? id lease = some (.emitting l' units errand') := by
  obtain ⟨post', hleads, hfind, -⟩ := (turned hs.stocked hpost).leads
  obtain rfl : post' = .leased id lease s :=
    Option.some.inj (((if_pos rfl).symm.trans (hfind n).symm).trans hpost')
  cases hleads with
  | opens => obtain hs' | hs' := hs' <;> cases hs'
  | other _ hne => exact absurd rfl (hne id lease s)
  | attends id lease s₀ =>
    rw [h.scheduled] at hs' ⊢
    have hmay : (s₀.next false ((c.actOn id lease s₀).bind (c.reply id))).mayPoll = true := by
      obtain hs' | hs' := hs' <;> rw [hs'] <;> rfl
    have hmay := Stint.mayPoll_next hmay
    cases s₀ with
    | weighing =>
      have hreply : (c.actOn id lease .weighing).bind (c.reply id) = some (.continued false) :=
        h.weighing_stops hs hpost
      rw [hreply] at hs'
      obtain hs' | hs' := hs' <;> cases hs'
    | starting =>
      obtain ⟨l, -, -, e, hreply⟩ := h.starting_fails hs hpost
      have hreply : (c.actOn id lease .starting).bind (c.reply id) = some (.polled (.error e)) :=
        hreply
      rw [hreply] at hs'
      obtain hs' | hs' := hs' <;> cases hs'
    | polling =>
      obtain ⟨ph, hph, hfits⟩ := (hs.manned.posts n _ hpost).2
      have hact : c.actOn id lease .polling =
          some (if ph.isWaiting = true then .resume lease else .emit lease) := by
        rw [actOn, hph]
        rfl
      cases hfits with
      | waiting l deadline =>
        have hact : c.actOn id lease .polling = some (.resume lease) := hact
        rw [hact, Option.bind_some, h.waiting_fails hs hpost hph] at hs'
        obtain hs' | hs' := hs' <;> cases hs'
      | receiving l units =>
        have hact : c.actOn id lease .polling = some (.emit lease) := hact
        obtain ⟨p, hp⟩ := hs.stocked.pool_of_phase hph
        have hworld := (hs.stocked.phases_world hp lease).trans hph
        have hphase : (c.turn n (.leased id lease .polling)).phase? id lease =
            ((c.world p).act (.emit lease)).phases.find? lease := by
          show (c.onPool? id (c.actOn id lease .polling)).phase? id lease = _
          rw [hact]
          exact (hs.stocked.phase?_onPool hp _ id lease).trans (if_pos rfl)
        rw [hact, Option.bind_some, reply_some hp] at hs' ⊢
        cases units with
        | nil =>
          have hreply : (c.world p).reply (.emit lease) = some (.polled (.ok ())) := by
            simp only [World.reply, hworld]
          rw [hreply] at hs'
          obtain hs' | hs' := hs' <;> cases hs'
        | cons e units =>
          obtain ⟨hreply, hph'⟩ | ⟨fault, l', hreply, -⟩ := World.fits_emitOne hworld
          · rw [hreply]
            exact ⟨rfl, rfl, l, l, e, units, .poll, .poll, hph, hphase.trans hph'⟩
          · rw [hreply] at hs'
            obtain hs' | hs' := hs' <;> cases hs'
    | _ => cases hmay

/-- A turn brings a poll closer to its end, and starts no other. -/
theorem turn (h : Quelled c) (hs : Seated c) (hpost : c.posts.find? n = some post) :
    (c.turn n post).pollTurns n ≤ c.pollTurns n - 1 ∧
      (c.turn n post).pollsDue n ≤ c.pollsDue n := by
  obtain ⟨post', -, hfind, -⟩ := (turned hs.stocked hpost).leads
  obtain ⟨ms, hhistory, hpolls, -⟩ := c.history_turn n post
  have hpost' : (c.turn n post).posts.find? n = some post' := (hfind n).trans (if_pos rfl)
  have hstarters : (startersIn (c.turn n post).history).count n = c.pollsDue n := by
    rw [pollsDue_of_post hpost, hhistory, startersIn, List.filterMap_append, List.count_append,
      hpolls, Nat.add_comm]
    congr 1
    split
    · exact List.count_singleton_self
    · rfl
  rw [pollTurns_of_post hpost', pollTurns_of_post hpost, pollsDue_of_post hpost', hstarters]
  cases post' with
  | leased id lease s =>
    cases s with
    | starting =>
      obtain ⟨heq, -⟩ := h.poll_goes_on hs hpost hpost' (.inl rfl)
      cases heq
    | polling =>
      obtain ⟨-, rfl, l, l', e, units, errand, errand', hph, hph'⟩ :=
        h.poll_goes_on hs hpost hpost' (.inr rfl)
      refine ⟨?_, Nat.le_refl _⟩
      simp only [pollTurnsAt, hph, hph']
      exact Nat.le_refl _
    | _ => exact ⟨Nat.zero_le _, Nat.le_refl _⟩
  | _ => exact ⟨Nat.zero_le _, Nat.le_refl _⟩

end Quelled

/-! ## Every run -/

theorem aside_act (hs : Seated c) {d : Doing} (hd : d.isTurnOf n = false) :
    Aside c (c.act d) n := by
  cases d with
  | spawn job =>
    refine ⟨fun id lease s hn => ⟨leased_of_insert ?_ hn, rfl⟩, rfl⟩
    cases job <;> rintro id lease s ⟨⟩
  | turn m =>
    have hne : n ≠ m := by
      rintro rfl
      exact absurd hd (by simp [Doing.isTurnOf])
    simp only [Crew.act]
    split
    · split
      · exact ⟨fun _ _ _ hn => ⟨hn, rfl⟩, rfl⟩
      · exact .turn hs hne ‹_›
    · exact ⟨fun _ _ _ hn => ⟨hn, rfl⟩, rfl⟩
  | lose m =>
    simp only [Crew.act]
    split
    · refine ⟨fun id lease s hn => ⟨leased_of_insert ?_ hn, rfl⟩, rfl⟩
      rintro id lease s ⟨⟩
    · exact ⟨fun _ _ _ hn => ⟨hn, rfl⟩, rfl⟩
  | evictIdle =>
    simp only [Crew.act]
    split
    · rename_i id hslot
      have hbeside := c.beside_onPool id .evictIdle
      refine ⟨fun id' lease s hn => ⟨hbeside.posts ▸ hn, hs.stocked.phase?_evictIdle id id' lease⟩,
        ?_⟩
      rw [hbeside.history]
    · exact ⟨fun _ _ _ hn => ⟨hn, rfl⟩, rfl⟩
  | _ => exact ⟨fun _ _ _ hn => ⟨hn, rfl⟩, rfl⟩

namespace Quelled

theorem act (h : Quelled c) (hs : Seated c) (n : Nat) (d : Doing) :
    (c.act d).pollTurns n ≤ c.pollTurns n - (if d.isTurnOf n = true then 1 else 0) ∧
      (c.act d).pollsDue n ≤ c.pollsDue n := by
  cases hd : d.isTurnOf n with
  | false => exact ⟨(aside_act hs hd).pollTurns_le, (aside_act hs hd).pollsDue_le⟩
  | true =>
    obtain ⟨m, rfl⟩ : ∃ m, d = .turn m := by
      cases d with
      | turn m => exact ⟨m, rfl⟩
      | _ => cases hd
    obtain rfl : m = n := beq_iff_eq.mp hd
    simp only [Crew.act]
    split
    · rename_i post hpost
      split
      · rename_i hwaits
        -- A task that has to wait for the slot has no lease.
        refine ⟨?_, Nat.le_refl _⟩
        rw [pollTurns_of_post hpost]
        cases post with
        | leased id lease s => cases hwaits
        | _ => exact Nat.zero_le _
      · exact h.turn hs hpost
    · rename_i hpost
      refine ⟨?_, Nat.le_refl _⟩
      rw [pollTurns, hpost]
      exact Nat.zero_le _

theorem run (h : Quelled c) (hs : Seated c) (ho : Orderly r c) (n : Nat) (ds : List Doing) :
    (c.run ds).pollTurns n ≤ c.pollTurns n - turnsOf n ds ∧
      (c.run ds).pollsDue n ≤ c.pollsDue n := by
  induction ds generalizing c with
  | nil => exact ⟨Nat.le_refl _, Nat.le_refl _⟩
  | cons d ds ih =>
    have hstep := act_step c d
    obtain ⟨hturns, hdue⟩ := h.act hs n d
    obtain ⟨hturns', hdue'⟩ := ih (h.step hstep hs ho) (seated_step hstep hs) (ho.step hstep hs)
    refine ⟨Nat.le_trans hturns' ?_, Nat.le_trans hdue' hdue⟩
    have hcount : turnsOf n (d :: ds) =
        turnsOf n ds + if d.isTurnOf n = true then 1 else 0 := List.countP_cons
    rw [hcount, Nat.add_comm, ← Nat.sub_sub]
    exact Nat.sub_le_sub_right hturns _

theorem run_quelled (h : Quelled c) (hs : Seated c) (ho : Orderly r c) (ds : List Doing) :
    Quelled (c.run ds) :=
  (run_induction (P := fun c => Quelled c ∧ Seated c ∧ Orderly r c)
    (fun _ _ hstep ⟨h, hs, ho⟩ => ⟨h.step hstep hs ho, seated_step hstep hs, ho.step hstep hs⟩)
    ⟨h, hs, ho⟩ ds).1

end Quelled

/-- As long as nobody calls to close the trigger, a call to interrupt leases misses none. -/
theorem underway_run (h : c.Underway n) (hs : Seated c) (ho : Orderly r c) (hopen : Open c)
    (ds : List Doing) (hds : ∀ d ∈ ds, d ≠ .spawn .close) : (c.run ds).Underway n := by
  induction ds generalizing c with
  | nil => exact h
  | cons d ds ih =>
    obtain ⟨hd, hds⟩ := List.forall_mem_cons.mp hds
    have hstep := act_step c d
    exact ih (h.step hstep hs ho fun hslot => hopen.nothing_installed ho hslot)
      (seated_step hstep hs) (ho.step hstep hs) (hopen.act hs.stocked hd) hds

theorem open_start (maxPollRecords now : Nat) (resolver : Resolver) (reader : RecordReader)
    (settings : IntakeSettings) (sink : String) :
    Open (start maxPollRecords now resolver reader settings sink) := by
  refine ⟨fun n post hpost => ?_, fun n hn => ?_⟩
  · cases hpost
  · cases hn

theorem open_run (hs : Seated c) (hopen : Open c) (ds : List Doing)
    (hds : ∀ d ∈ ds, d ≠ .spawn .close) : Open (c.run ds) := by
  induction ds generalizing c with
  | nil => exact hopen
  | cons d ds ih =>
    obtain ⟨hd, hds⟩ := List.forall_mem_cons.mp hds
    exact ih (seated_step (act_step c d) hs) (hopen.act hs.stocked hd) hds

/-- A lease whose poll waits is that of a cycle. -/
theorem polling_of_waiting (hs : Seated c) {l : Lease} {deadline : Option Nat}
    (hph : c.phase? id lease = some (.waiting l deadline)) :
    ∃ n, c.posts.find? n = some (.leased id lease .polling) := by
  obtain ⟨n, post, hpost, hlease⟩ := hs.manned.tended id lease ⟨_, hph, nofun⟩
  have hseat := (hs.manned.posts n post hpost).2
  cases post with
  | opening id' lease' =>
    cases hlease
    obtain ⟨o, sink, hopening⟩ := hseat
    rw [hph] at hopening
    cases hopening
  | leased id' lease' s =>
    cases hlease
    obtain ⟨ph, hph', hfits⟩ := hseat
    rw [hph] at hph'
    cases hph'
    cases hfits
    exact ⟨n, hpost⟩
  | _ => cases hlease

/-- A trigger that is not being closed is unscheduled, and its leases are interrupted.  When the
last wakeup has been sent, whatever happens from then on: a poll that waits has a wakeup pending,
for which it fails as soon as it goes on, and a poll that does not wait has its messages; a poll
that is about to be started fails at once.  No cycle starts another poll but one that was about to,
and a poll is over when its cycle has had as many turns as it has units to hand on, and one more. -/
theorem forced_shutdown_ends_polls (maxPollRecords now : Nat) (resolver : Resolver)
    (reader : RecordReader) (settings : IntakeSettings) (sink : String)
    (before during : List Doing) (grace : Nat)
    (hopen : ∀ d ∈ before ++ during, d ≠ .spawn .close) :
    let c₀ := (start maxPollRecords now resolver reader settings sink).run before
    let c₁ := (c₀.act (.spawn (.interrupt grace))).run during
    c₀.trigger.scheduled = false → c₁.posts.find? c₀.nextTask = some (.waking []) →
    ∀ later, let c := c₁.run later
      (∀ id lease l deadline, c.phase? id lease = some (.waiting l deadline) →
        c.env.isRaised l.connection.signal = true ∧
          c.reply id (.resume lease) = some (.polled (.error .interrupted))) ∧
      (∀ n id lease, c.posts.find? n = some (.leased id lease .polling) →
        (∃ l deadline, c.phase? id lease = some (.waiting l deadline)) ∨
          ∃ l units, c.phase? id lease = some (.emitting l units .poll)) ∧
      (∀ n id lease, c.posts.find? n = some (.leased id lease .starting) →
        ∃ l, c.phase? id lease = some (.held l) ∧ c.env.isRaised l.connection.signal = true ∧
          ∃ e, c.reply id (.poll lease) = some (.polled (.error e))) ∧
      ∀ n, (startersIn c.history).count n ≤ (startersIn c₁.history).count n +
          (if (c₁.posts.find? n).any Post.startsPoll = true then 1 else 0) ∧
        c.pollTurns n ≤ c₁.pollTurns n - turnsOf n later := by
  intro c₀ c₁ hun hpost later c
  obtain ⟨hopen₀, hopen₁⟩ := List.forall_mem_append.mp hopen
  have hstart := seated_start maxPollRecords now resolver reader settings sink
  obtain ⟨hs₀, ho₀⟩ := orderly_run hstart
    (orderly_start maxPollRecords now resolver reader settings sink) before
  have hspawn := act_step c₀ (.spawn (.interrupt grace))
  have hs := seated_step hspawn hs₀
  have ho := ho₀.step hspawn hs₀
  obtain ⟨hs₁, ho₁⟩ := orderly_run hs ho during
  have hquelled : Quelled c₁ := by
    have hunderway : (c₀.act (.spawn (.interrupt grace))).Underway c₀.nextTask :=
      ⟨hun, .rousing grace, SortedMap.find?_insert_self .., trivial⟩
    have hopen₀ := open_run hstart
      (open_start maxPollRecords now resolver reader settings sink) before hopen₀
    exact (underway_run hunderway hs ho (hopen₀.act hs₀.stocked nofun) during hopen₁).quelled hpost
  obtain ⟨hs', -⟩ := orderly_run hs₁ ho₁ later
  have h := hquelled.run_quelled hs₁ ho₁ later
  refine ⟨fun id lease l deadline hph => ?_, fun n id lease hn => ?_,
    fun n id lease hn => h.starting_fails hs' hn, fun n => ?_⟩
  · obtain ⟨n, hn⟩ := polling_of_waiting hs' hph
    exact ⟨h.raised hs' hn rfl hph rfl rfl, h.waiting_fails hs' hn hph⟩
  · obtain ⟨ph, hph, hfits⟩ := (hs'.manned.posts n _ hn).2
    cases hfits with
    | waiting l deadline => exact .inl ⟨l, deadline, hph⟩
    | receiving l units => exact .inr ⟨l, units, hph⟩
  · obtain ⟨hturns, hdue⟩ := hquelled.run hs₁ ho₁ n later
    exact ⟨Nat.le_trans (Nat.le_add_right _ _) hdue, hturns⟩

/-- A cycle is in a poll that ignores its timeout when the trigger is unscheduled. -/
def blockedCycle : List Doing :=
  [.onCluster (.blockPolls true), .spawn .cycle, .turn 0, .turn 0, .turn 0, .turn 0, .turn 0,
    .turn 0, .turn 0, .turn 0, .turn 0, .unschedule]

/-- It gets out of it with its next turn, when it was woken. -/
theorem forced_shutdown_ends_polls_blockedCycle :
    let c₀ := (start 10 0 ⟨.topics ["t"], none⟩ Record.read {} "s").run blockedCycle
    let c₁ := (c₀.act (.spawn (.interrupt 0))).run [.turn 1, .turn 1, .turn 1, .turn 1]
    c₀.posts.find? 0 = some (.leased 0 1 .polling) ∧
      c₁.posts.find? 1 = some (.waking []) ∧ c₁.pollTurns 0 = 1 ∧
        ∀ later, (c₁.run later).pollTurns 0 ≤ 1 - turnsOf 0 later := by
  intro c₀ c₁
  have hturns : c₁.pollTurns 0 = 1 := by decide +kernel
  refine ⟨rfl, rfl, hturns, fun later => ?_⟩
  have hopen : ∀ d ∈ blockedCycle ++ [.turn 1, .turn 1, .turn 1, .turn 1], d ≠ .spawn .close := by
    simp [blockedCycle]
  obtain ⟨-, -, -, hall⟩ := forced_shutdown_ends_polls 10 0 ⟨.topics ["t"], none⟩ Record.read {} "s"
    blockedCycle [.turn 1, .turn 1, .turn 1, .turn 1] 0 hopen (by decide +kernel) rfl later
  exact hturns ▸ (hall 0).2

end Crew
end RecordIntake
