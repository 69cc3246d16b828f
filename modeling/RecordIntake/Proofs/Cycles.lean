import RecordIntake.Proofs.Turns

/-!
A step of a cycle, which nothing interrupts, is a run of turns of its task.  So whatever the cycles
of a trigger come to when they take their steps in any order, a crew comes to as well, and it can
stop where they cannot.
-/
namespace RecordIntake

/-- The stint of a cycle that hands on the units of a poll or a commit. -/
def Errand.stint : Errand → Stint
  | .poll => .polling
  | .commit => .handing

theorem Lease.id_emitAll (l : Lease) (env : Environment) (units : List Emission) :
    (l.emitAll env units).2.1.id = l.id := by
  induction units generalizing l env with
  | nil => rfl
  | cons e units ih =>
    have hid := l.id_emitOne env e
    unfold emitAll
    split
    · rename_i env' l' he
      rw [he] at hid
      exact (ih l' env').trans hid
    · rename_i he
      rw [he] at hid
      exact hid

namespace Crew

variable {c c' : Crew} {n : Nat} {post : Post} {id : PoolId} {lease : LeaseId} {p : Pool}

/-! ## With a lease -/

/-- A task is at a stint with its lease. -/
structure Busy (c : Crew) (n : Nat) (id : PoolId) (lease : LeaseId) (s : Stint) (ph : Phase) :
    Prop where
  stocked : Stocked c
  unlocked : c.isLocked = false
  post : c.posts.find? n = some (.leased id lease s)
  phase : c.phase? id lease = some ph

/-- What a turn does when the task goes on with its lease. -/
theorem attend_eq (c : Crew) (n : Nat) (id : PoolId) (lease : LeaseId) {s : Stint}
    (hs : ∀ o, s ≠ .returning o) :
    ∃ history, c.attend n id lease s =
      { (c.onPool? id (c.actOn id lease s)).proceed n (.leased id lease
          (s.next c.trigger.scheduled ((c.actOn id lease s).bind (c.reply id)))) with
        history := history } := by
  unfold attend
  dsimp only
  split
  · exact ⟨_, rfl⟩
  · exact absurd rfl (hs _)
  · exact ⟨_, rfl⟩

theorem onPool_checkIn (hs : Stocked c) (hp : c.pool? id = some p) {connection : Connection}
    {discard : Bool} (hph : c.phase? id lease = some (.returning connection discard)) :
    (c.onPool id (.checkIn lease)).env = (p.checkIn c.env lease (some connection) discard).1 ∧
      (c.onPool id (.checkIn lease)).trigger =
        c.trigger.withPool (p.checkIn c.env lease (some connection) discard).2 := by
  have hworld := (hs.phases_world hp lease).trans hph
  have hact : (c.world p).act (.checkIn lease) =
      (c.world p).checkIn lease connection discard := by
    simp only [World.act, hworld]
  have hat := (c.world p).at_checkIn lease connection discard
  rw [onPool_some hp, hact]
  exact ⟨hat.env, congrArg c.trigger.withPool hat.pool⟩

namespace Busy

variable {s : Stint} {ph ph' : Phase} {a : Action} {env : Environment} {reply : Option Reply}

theorem actOn_eq (h : Busy c n id lease s ph) :
    c.actOn id lease s = s.action? lease ph.isWaiting := by
  rw [actOn, h.phase]
  rfl

/-- The task has had a turn, and goes on with its lease. -/
theorem next {c₁ : Crew} {s' : Stint} {history : List Milestone} (h : Busy c n id lease s ph)
    (hstocked : Stocked c') (hposts : c₁.posts = c.posts)
    (hphase : c₁.phase? id lease = some ph')
    (heq : c' = { c₁.proceed n (.leased id lease s') with history := history }) :
    Busy c' n id lease s' ph' := by
  have hposts' : c'.posts = c.posts.insert n (.leased id lease s') := by
    rw [heq, ← hposts]
    rfl
  refine ⟨hstocked, unlocked_of_posts h.unlocked hposts' rfl, ?_, ?_⟩
  · rw [hposts']
    exact SortedMap.find?_insert_self ..
  · rw [heq]
    exact hphase

/-- A turn is an action on the lease, which leaves the pool as it is. -/
theorem act (h : Busy c n id lease s ph) (ha : s.action? lease ph.isWaiting = some a)
    (hs : ∀ o, s ≠ .returning o)
    (hact : ∀ w : World, w.env = c.env → w.phases.find? lease = some ph →
      (w.act a).At lease env w.pool ph' ∧ w.reply a = reply) :
    ∃ c', Turns n c c' ∧ Busy c' n id lease (s.next c.trigger.scheduled reply) ph' ∧
      c'.env = env ∧ c'.trigger = c.trigger := by
  obtain ⟨p, hp⟩ := h.stocked.pool_of_phase h.phase
  obtain ⟨hat, hreply⟩ := hact (c.world p) rfl ((h.stocked.phases_world hp lease).trans h.phase)
  have hon : c.actOn id lease s = some a := h.actOn_eq.trans ha
  have hphase : (c.onPool id a).phase? id lease = some ph' :=
    ((h.stocked.phase?_onPool hp a id lease).trans (if_pos rfl)).trans hat.phase
  have henv : (c.onPool id a).env = env := by
    rw [onPool_some hp]
    exact hat.env
  have htrigger : (c.onPool id a).trigger = c.trigger := by
    rw [onPool_some hp]
    show c.trigger.withPool ((c.world p).act a).pool = c.trigger
    have hpool : ((c.world p).act a).pool = p := hat.pool
    obtain rfl := (h.stocked.pools id p hp).1
    rw [hpool, Trigger.withPool]
    exact congrArg (fun pools => { c.trigger with pools := pools }) (SortedMap.insert_of_find? hp)
  obtain ⟨history, heq⟩ := c.attend_eq n id lease hs
  rw [hon, Option.bind_some, reply_some hp, hreply] at heq
  refine ⟨c.attend n id lease s, turns_free h.post rfl,
    h.next (h.stocked.attend n id lease s) (c.beside_onPool id a).posts hphase heq, ?_, ?_⟩
  · rw [heq]
    exact henv
  · rw [heq]
    exact htrigger

/-- A turn is a look at the trigger. -/
theorem look (h : Busy c n id lease s ph) (ha : s.action? lease ph.isWaiting = none) :
    ∃ c', Turns n c c' ∧ Busy c' n id lease (s.next c.trigger.scheduled none) ph ∧
      c'.env = c.env ∧ c'.trigger = c.trigger := by
  have hs : ∀ o, s ≠ .returning o := by
    rintro o rfl
    cases ha
  have hon : c.actOn id lease s = none := h.actOn_eq.trans ha
  obtain ⟨history, heq⟩ := c.attend_eq n id lease hs
  rw [hon, Option.bind_none] at heq
  refine ⟨c.attend n id lease s, turns_free h.post rfl,
    h.next (h.stocked.attend n id lease s) rfl h.phase heq, ?_, ?_⟩
  · rw [heq]
    rfl
  · rw [heq]
    rfl

/-- The lease is given up, and given back. -/
theorem surrender {l : Lease} {o : CycleOutcome}
    (h : Busy c n id l.id (.leaving o) (.held l)) :
    Arrives c n (c.trigger.surrender c.env id l o) := by
  obtain ⟨c₁, hturns, hbusy, henv, htrigger⟩ := h.act rfl (by rintro o ⟨⟩) fun w hw hph => by
    have hact : w.act (.abandon l.id) = w.abandon l.id l := by
      simp only [World.act, hph, Option.bind_some, Phase.lease?]
    rw [hact]
    unfold World.abandon
    rw [hw]
    exact ⟨World.at_setPhase .., rfl⟩
  refine (hturns.trans (turns_free hbusy.post rfl)).arrives ?_
  obtain ⟨p, hp⟩ := hbusy.stocked.pool_of_phase hbusy.phase
  have hp' : c.trigger.pools.find? id = some p := htrigger ▸ hp
  obtain ⟨henv', htrigger'⟩ := onPool_checkIn hbusy.stocked hp hbusy.phase
  rw [henv] at henv'
  rw [htrigger, henv] at htrigger'
  unfold Trigger.surrender
  rw [hp']
  refine arrives_proceed hbusy.unlocked ?_ rfl rfl ?_ htrigger'
  · exact congrArg (SortedMap.insert n _ ·) (c₁.beside_onPool id (.checkIn l.id)).posts
  · exact congrArg (Environment.count · (.cycles o)) henv'

/-- Units are handed on one with each turn, until one of them is refused. -/
theorem emitAll {l : Lease} {units : List Emission} (errand : Errand)
    (h : Busy c n id lease errand.stint (.emitting l units errand)) :
    ∃ c', Turns n c c' ∧ c'.env = (l.emitAll c.env units).1 ∧ c'.trigger = c.trigger ∧
      Busy c' n id lease
        (match (l.emitAll c.env units).2.2 with
          | .ok () => errand.stint
          | .error _ => .leaving .backoff)
        (World.emitted (l.emitAll c.env units).2.1 errand (l.emitAll c.env units).2.2) := by
  induction units generalizing c l with
  | nil => exact ⟨c, .refl n c, rfl, rfl, h⟩
  | cons e units ih =>
    have ha : errand.stint.action? lease (Phase.emitting l (e :: units) errand).isWaiting =
        some (.emit lease) := by cases errand <;> rfl
    have hs : ∀ o, errand.stint ≠ .returning o := by cases errand <;> rintro o ⟨⟩
    unfold Lease.emitAll
    cases hone : l.emitOne c.env e with
    | mk env rest =>
      obtain ⟨l', result⟩ := rest
      cases result with
      | ok u =>
        obtain ⟨c₁, hturns, hbusy, henv, htrigger⟩ := h.act ha hs fun w hw hph => by
          simp only [World.act, World.reply, hph, World.emit, hw, hone]
          exact ⟨World.at_setPhase .., rfl⟩
        have hnext : errand.stint.next c.trigger.scheduled none = errand.stint := by
          cases errand <;> rfl
        rw [hnext] at hbusy
        obtain ⟨c₂, hturns', henv', htrigger', hbusy'⟩ := ih hbusy
        rw [henv] at henv' hbusy'
        exact ⟨c₂, hturns.trans hturns', henv', htrigger'.trans htrigger, hbusy'⟩
      | error fault =>
        obtain ⟨c₁, hturns, hbusy, henv, htrigger⟩ := h.act ha hs fun w hw hph => by
          simp only [World.act, World.reply, hph, World.emit, hw, hone]
          exact ⟨World.at_setPhase .., rfl⟩
        have hnext : errand.stint.next c.trigger.scheduled (some (.failed fault errand)) =
            .leaving .backoff := by cases errand <;> rfl
        rw [hnext] at hbusy
        exact ⟨c₁, hturns, henv, htrigger, hbusy⟩

theorem holds {l : Lease} (h : Busy c n id l.id .checking (.held l)) :
    Arrives c n (c.env, c.trigger, .holding id l) := by
  refine ⟨c, .refl n c, h.unlocked, rfl, rfl, h.post, fun id' lease' hl => ?_⟩
  cases hl
  exact h.phase

theorem waits {l : Lease} {deadline : Option Nat}
    (h : Busy c n id l.id .polling (.waiting l deadline)) :
    Arrives c n (c.env, c.trigger, .polling id l deadline) := by
  refine ⟨c, .refl n c, h.unlocked, rfl, rfl, h.post, fun id' lease' hl => ?_⟩
  cases hl
  exact h.phase

/-- A poll is over on the connection. -/
theorem endPoll {l : Lease} {result : Except IntakeError (List Message)}
    (h : Busy c n id l.id s ph) (ha : s.action? l.id ph.isWaiting = some a)
    (hs : s = .starting ∨ s = .polling)
    (hact : ∀ w : World, w.env = c.env → w.phases.find? l.id = some ph →
      (∃ w₁ : World, w₁.env = env ∧ w₁.pool = w.pool ∧ w.act a = w₁.endPoll l.id l result) ∧
        w.reply a = Reply.ofPoll (.ended result)) :
    Arrives c n (c.trigger.afterPoll id (l.proceed env (.ended result))) := by
  have hreturning : ∀ o, s ≠ .returning o := by obtain rfl | rfl := hs <;> rintro o ⟨⟩
  cases result with
  | error e =>
    have hact' : ∀ w : World, w.env = c.env → w.phases.find? l.id = some ph →
        (w.act a).At l.id (env.note (.polled l.connection.id (.error e))) w.pool
          (.held (l.fault e)) ∧ w.reply a = some (.polled (.error e)) := by
      intro w hw hph
      obtain ⟨⟨w₁, rfl, hpool, heq⟩, hreply⟩ := hact w hw hph
      rw [heq, ← hpool]
      exact ⟨World.at_setPhase .., hreply⟩
    obtain ⟨c₁, hturns, hbusy, henv, htrigger⟩ := h.act ha hreturning hact'
    have hnext : s.next c.trigger.scheduled (some (.polled (.error e))) = .leaving .backoff := by
      obtain rfl | rfl := hs <;> rfl
    rw [hnext] at hbusy
    have hdone := surrender (l := l.fault e) hbusy
    rw [henv, htrigger] at hdone
    exact hturns.arrives hdone
  | ok ms =>
    obtain ⟨env₀, -, hin⟩ := l.takeIn_ok env ms
    have hid := l.id_takeIn env (.ok ms)
    cases htake : l.takeIn env (.ok ms) with
    | mk env₁ rest =>
      obtain ⟨l₁, outcome⟩ := rest
      rw [htake] at hin hid
      cases outcome with
      | error e => cases hin
      | ok taken =>
        obtain ⟨count, units⟩ := taken
        have hact' : ∀ w : World, w.env = c.env → w.phases.find? l.id = some ph →
            (w.act a).At l.id env₁ w.pool (.emitting l₁ units .poll) ∧ w.reply a = none := by
          intro w hw hph
          obtain ⟨⟨w₁, rfl, hpool, heq⟩, hreply⟩ := hact w hw hph
          rw [heq, ← hpool, World.endPoll, htake]
          exact ⟨World.at_setPhase .., hreply⟩
        obtain ⟨c₁, hturns, hbusy, henv, htrigger⟩ := h.act ha hreturning hact'
        have hnext : s.next c.trigger.scheduled none = .polling := by
          obtain rfl | rfl := hs <;> rfl
        rw [hnext] at hbusy
        obtain ⟨c₂, hturns', henv', htrigger', hbusy'⟩ := emitAll .poll hbusy
        have hid' := l₁.id_emitAll c₁.env units
        rw [henv] at henv' hbusy' hid'
        simp only [Lease.proceed, Lease.endPoll, htake]
        refine (hturns.trans hturns').arrives ?_
        rw [← htrigger, ← htrigger']
        cases hall : l₁.emitAll env₁ units with
        | mk env₂ rest =>
          obtain ⟨l₂, outcome⟩ := rest
          rw [hall] at henv' hbusy' hid'
          have hid₂ : l.id = l₂.id := hid.symm.trans hid'.symm
          rw [hid₂] at hbusy'
          obtain rfl : c₂.env = env₂ := henv'
          cases outcome with
          | error e => exact surrender hbusy'
          | ok u =>
            have hbusy' : Busy c₂ n id l₂.id .polling (.emitting l₂ [] .poll) := hbusy'
            have ha : Stint.polling.action? l₂.id (Phase.emitting l₂ [] .poll).isWaiting =
                some (.emit l₂.id) := rfl
            obtain ⟨c₃, hturns, hbusy, henv, htrigger⟩ := hbusy'.act ha (by rintro o ⟨⟩) fun w hw hph => by
              simp only [World.act, World.reply, hph, World.emit]
              exact ⟨⟨hw, rfl, SortedMap.find?_insert_self ..⟩, rfl⟩
            have hdone := holds (l := l₂) hbusy
            rw [henv, htrigger] at hdone
            exact hturns.arrives hdone

theorem startPoll {l : Lease} (h : Busy c n id l.id .starting (.held l)) :
    Arrives c n (c.trigger.afterPoll id (l.startPoll c.env)) := by
  unfold Lease.startPoll
  split
  · rename_i hl
    obtain ⟨c₁, hturns, hbusy, henv, htrigger⟩ := h.act rfl (by rintro o ⟨⟩) fun w hw hph => by
      simp only [World.act, World.reply, hph, World.poll, if_pos hl]
      exact ⟨⟨hw, rfl, hph⟩, rfl⟩
    have hdone := surrender (l := l) hbusy
    rw [henv, htrigger] at hdone
    exact hturns.arrives hdone
  · rename_i hl
    cases hstart : c.env.startPoll l.connection l.settings.pollTimeout with
    | mk env rest =>
      obtain ⟨connection, progress⟩ := rest
      cases progress with
      | waiting deadline =>
        obtain ⟨c₁, hturns, hbusy, henv, htrigger⟩ := h.act rfl (by rintro o ⟨⟩) fun w hw hph => by
          simp only [World.act, World.reply, hph, World.poll, if_neg hl, hw, hstart]
          exact ⟨World.at_setPhase .., rfl⟩
        have hdone := waits (l := { l with state := .polling, connection := connection }) hbusy
        rw [henv, htrigger] at hdone
        exact hturns.arrives hdone
      | ended result =>
        refine h.endPoll (l := { l with state := .polling, connection := connection }) rfl
          (.inl rfl) fun w hw hph => ?_
        simp only [World.act, World.reply, hph, World.poll, if_neg hl, hw, hstart]
        exact ⟨⟨({ w with env := env } : World).remember (.read l.id c.env.cluster l.connection
          connection (Progress.ended result).messages), rfl, rfl, rfl⟩, trivial⟩

theorem resumePoll {l : Lease} {deadline : Option Nat}
    (h : Busy c n id l.id .polling (.waiting l deadline)) :
    Arrives c n (c.trigger.afterPoll id (l.resumePoll c.env deadline)) := by
  have ha : Stint.polling.action? l.id (Phase.waiting l deadline).isWaiting =
      some (.resume l.id) := rfl
  unfold Lease.resumePoll
  cases hcall : c.env.resumePoll l.connection deadline with
  | mk env progress =>
    cases progress with
    | waiting deadline' =>
      obtain ⟨c₁, hturns, hbusy, henv, htrigger⟩ := h.act ha (by rintro o ⟨⟩) fun w hw hph => by
        simp only [World.act, World.reply, hph, World.resume, hw, hcall]
        exact ⟨World.at_setPhase .., rfl⟩
      have hdone := waits (l := l) hbusy
      rw [henv, htrigger] at hdone
      exact hturns.arrives hdone
    | ended result =>
      refine h.endPoll ha (.inr rfl) fun w hw hph => ?_
      simp only [World.act, World.reply, hph, World.resume, hw, hcall]
      exact ⟨⟨{ w with env := env }, rfl, rfl, rfl⟩, trivial⟩

/-- What comes after a commit. -/
theorem afterCommit {l : Lease} {result : Except IntakeError Bool}
    (h : Busy c n id l.id (Stint.handing.next c.trigger.scheduled (some (.committed result)))
      (.held l)) :
    Arrives c n (match (c.env, l, result) with
      | (env, l, .ok true) => c.trigger.surrender env id l .workPerformed
      | (env, l, .ok false) => c.trigger.surrender env id l .backoff
      | (env, l, .error _) => c.trigger.surrender env id l .backoff) := by
  cases result with
  | error e => exact surrender h
  | ok b => cases b <;> exact surrender h

theorem commit {l : Lease} (h : Busy c n id l.id .committing (.held l)) :
    Arrives c n (match l.commit c.env with
      | (env, l, .ok true) => c.trigger.surrender env id l .workPerformed
      | (env, l, .ok false) => c.trigger.surrender env id l .backoff
      | (env, l, .error _) => c.trigger.surrender env id l .backoff) := by
  unfold Lease.commit
  by_cases hl : l.state = .faulted
  · obtain ⟨c₁, hturns, hbusy, henv, htrigger⟩ := h.act rfl (by rintro o ⟨⟩) fun w hw hph => by
      simp only [World.act, World.reply, hph, World.commit, if_pos hl]
      exact ⟨⟨hw, rfl, hph⟩, rfl⟩
    have hdone := surrender (l := l) hbusy
    rw [henv, htrigger] at hdone
    rw [if_pos hl]
    exact hturns.arrives hdone
  · obtain ⟨c₁, hturns, hbusy, henv, htrigger⟩ := h.act rfl (by rintro o ⟨⟩) fun w hw hph => by
      simp only [World.act, World.reply, hph, World.commit, if_neg hl]
      exact ⟨⟨hw, rfl, SortedMap.find?_insert_self ..⟩, rfl⟩
    obtain ⟨c₂, hturns', henv', htrigger', hbusy'⟩ := emitAll .commit hbusy
    have hid : (l.flush.1.emitAll c₁.env l.flush.2).2.1.id = l.id := l.flush.1.id_emitAll ..
    rw [henv] at henv' hbusy' hid
    rw [if_neg hl]
    refine (hturns.trans hturns').arrives ?_
    rw [← htrigger, ← htrigger']
    dsimp only
    cases hall : l.flush.1.emitAll c.env l.flush.2 with
    | mk env₂ rest =>
      obtain ⟨l₂, outcome⟩ := rest
      rw [hall] at henv' hbusy' hid
      have hid : l₂.id = l.id := hid
      rw [← hid] at hbusy'
      obtain rfl : c₂.env = env₂ := henv'
      cases outcome with
      | error e => exact surrender hbusy'
      | ok u =>
        have hbusy' : Busy c₂ n id l₂.id .handing (.emitting l₂ [] .commit) := hbusy'
        obtain ⟨c₃, hturns, hbusy, henv, htrigger⟩ := hbusy'.act rfl (by rintro o ⟨⟩) fun w hw hph => by
          have hdone := World.at_finishCommit w l₂.id l₂
          rw [hw] at hdone
          simp only [World.act, World.reply, hph, World.emit, hw]
          exact ⟨hdone, rfl⟩
        have hid₃ := l₂.id_finishCommit c₂.env
        rw [← hid₃, ← htrigger] at hbusy
        refine hturns.arrives ?_
        have hdone := afterCommit hbusy
        rw [henv, htrigger] at hdone
        exact hdone

/-- A cycle polls once more, or commits, or gives up. -/
theorem pollOrCommit {l : Lease} (h : Busy c n id l.id .checking (.held l)) :
    Arrives c n (c.trigger.pollOrCommit c.env id l) := by
  obtain ⟨c₁, hturns, hbusy, henv, htrigger⟩ := h.look rfl
  unfold Trigger.pollOrCommit
  refine hturns.arrives ?_
  cases hscheduled : c.trigger.scheduled with
  | false =>
    rw [hscheduled] at hbusy
    obtain ⟨c₂, hturns', hbusy', henv', htrigger'⟩ := hbusy.look rfl
    rw [htrigger, hscheduled] at hbusy'
    have hdone := surrender (l := l) hbusy'
    rw [henv', htrigger', henv, htrigger] at hdone
    exact hturns'.arrives hdone
  | true =>
    rw [hscheduled] at hbusy
    cases hmore : l.continuePolling c.env with
    | mk l' more =>
      have hid : l'.id = l.id := by
        obtain ⟨state, heq, -⟩ := l.continuePolling_eq c.env
        rw [hmore] at heq
        rw [show l' = _ from heq]
      obtain ⟨c₂, hturns', hbusy', henv', htrigger'⟩ := hbusy.act rfl (by rintro o ⟨⟩) fun w hw hph => by
        rw [henv] at hw
        simp only [World.act, World.reply, hph, World.continuePolling, hw, hmore]
        exact ⟨⟨hw, rfl, SortedMap.find?_insert_self ..⟩, rfl⟩
      rw [← hid] at hbusy'
      rw [htrigger] at htrigger'
      refine hturns'.arrives ?_
      rw [← henv', ← htrigger']
      cases more with
      | true => exact startPoll hbusy'
      | false =>
        obtain ⟨c₃, hturns, hbusy, henv, htrigger⟩ := hbusy'.look rfl
        rw [htrigger', hscheduled] at hbusy
        rw [← henv, ← htrigger]
        exact hturns.arrives (commit hbusy)

end Busy

/-- Whatever a cycle does in one step, its task does in turns, when nobody has the slot. -/
theorem arrives_step (hs : Stocked c) (hfree : c.isLocked = false) {s : Stage} (h : c.Stands n s) :
    Arrives c n (c.trigger.step c.env s) := by
  cases s with
  | beginning => exact arrives_begin h.post hfree
  | asking id topics counts => exact arrives_ask h.post hfree
  | installing id => exact arrives_install h.post hfree
  | obtaining id => exact arrives_obtain hs h.post hfree
  | opening id o => exact arrives_openLease hs h.post (h.phase id o.lease rfl) hfree
  | holding id l => exact Busy.pollOrCommit ⟨hs, hfree, h.post, h.phase id l.id rfl⟩
  | polling id l deadline => exact Busy.resumePoll ⟨hs, hfree, h.post, h.phase id l.id rfl⟩
  | ended o => exact ⟨c, .refl n c, hfree, rfl, rfl, h⟩

/-! ## Others -/

theorem sink_turn (c : Crew) (n : Nat) (post : Post) :
    (c.turn n post).trigger.sink = c.trigger.sink := by
  cases post with
  | arriving =>
    simp only [turn, arrive]
    split <;> rfl
  | looking =>
    simp only [turn, look]
    split <;> rfl
  | asking id topics counts =>
    cases topics with
    | nil =>
      simp only [turn, ask]
      split <;> rfl
    | cons topic topics =>
      simp only [turn, ask]
      split
      · rfl
      · split <;> rfl
  | rejecting id => exact (c.beside_onPool id .close).sink
  | installing id => rfl
  | placing id =>
    simp only [turn, place]
    split <;> rfl
  | dismissing id existing => cases existing <;> exact (c.beside_onPool id .close).sink
  | obtaining id =>
    simp only [turn, obtain]
    split <;> exact (c.beside_onPool id (.request c.trigger.sink)).sink
  | opening id lease =>
    simp only [turn, openLease]
    split <;> exact (c.beside_onPool id (.supply lease)).sink
  | leased id lease s =>
    have hsame := (c.beside_onPool? id (c.actOn id lease s)).sink
    cases s <;> exact hsame
  | closing => rfl
  | taking =>
    simp only [turn, take]
    split <;> rfl
  | shutting id => exact (c.beside_onPool id .close).sink
  | rousing grace =>
    simp only [turn, rouse]
    split <;> rfl
  | sparing id deadline next =>
    simp only [turn, spare]
    split
    · rfl
    · split <;> rfl
  | gathering id => rfl
  | waking handles => cases handles <;> rfl
  | ended o => rfl
  | closed => rfl

variable {m : Nat} {s : Stage}

/-- Other cycles stay where they are. -/
theorem Stands.turn (h : c.Stands m s) (hs : Seated c) (hne : m ≠ n)
    (hpost : c.posts.find? n = some post) : (c.turn n post).Stands m s := by
  have ht := turned hs.stocked hpost
  obtain ⟨_, _, hfind, _⟩ := ht.leads
  refine ⟨(hfind m).trans ((if_neg hne).trans h.post), fun id lease hl => ?_⟩
  have hlive := live_of_seat (hs.manned.posts m _ h.post).2 hl
  rw [ht.others id lease hlive fun heq => hne (hs.manned.apart m n _ post _ h.post hpost hl heq),
    sink_turn]
  exact h.phase id lease hl

theorem Stands.turns (h : c.Stands m s) (hs : Seated c) (hne : m ≠ n) (ht : Turns n c c') :
    c'.Stands m s := by
  obtain ⟨k, rfl⟩ := ht
  induction k generalizing c with
  | zero => exact h
  | succ k ih =>
    refine ih ?_ (seated_step (act_step c (.turn n)) hs)
    simp only [act]
    split
    · split
      · exact h
      · exact h.turn hs hne ‹_›
    · exact h

theorem Stands.spawn (h : c.Stands m s) (hs : Seated c) (job : Job) : (c.spawn job).Stands m s := by
  have hne : m ≠ c.nextTask := Nat.ne_of_lt (hs.manned.posts m _ h.post).1
  exact ⟨(SortedMap.find?_insert_of_ne hne ..).trans h.post, h.phase⟩

/-! ## Steps and calls -/

/-- Whatever a cycle does in one step, its task does in turns, if nobody has the slot; and the other
cycles stay where they are. -/
theorem step_is_turns (hs : Seated c) (hfree : c.isLocked = false) (h : c.Stands n s) :
    ∃ c', Turns n c c' ∧ c'.env = (c.trigger.step c.env s).1 ∧
      c'.trigger = (c.trigger.step c.env s).2.1 ∧ c'.Stands n (c.trigger.step c.env s).2.2 ∧
        c'.isLocked = false ∧ ∀ m s', m ≠ n → c.Stands m s' → c'.Stands m s' := by
  obtain ⟨c', ht, hfree', henv, htrigger, hstands⟩ := arrives_step hs.stocked hfree h
  exact ⟨c', ht, henv, htrigger, hstands, hfree', fun m s' hne h' => h'.turns hs hne ht⟩

/-- A new task leaves the cycles where they are. -/
theorem Stands.beside (h : c.Stands m s) (hs : Seated c) {job : Job}
    (ht : Turns c.nextTask (c.spawn job) c') : c'.Stands m s :=
  (h.spawn hs job).turns (seated_step (act_step c (.spawn job)) hs)
    (Nat.ne_of_lt (hs.manned.posts m _ h.post).1) ht

/-- A call to close the trigger is a run of turns, too. -/
theorem close_is_turns (hs : Seated c) (hfree : c.isLocked = false) :
    ∃ c', Turns c.nextTask (c.spawn .close) c' ∧ c'.env = (c.trigger.close c.env).1 ∧
      c'.trigger = (c.trigger.close c.env).2 ∧ .shut c.nextTask ∈ c'.history ∧
        c'.isLocked = false ∧ ∀ m s', c.Stands m s' → c'.Stands m s' := by
  have hclosing : (c.spawn .close).posts.find? c.nextTask = some .closing :=
    SortedMap.find?_insert_self ..
  let c₂ := (c.spawn .close).turn c.nextTask .closing
  have htaking : c₂.posts.find? c.nextTask = some .taking := SortedMap.find?_insert_self ..
  have hposts₂ : c₂.posts = c.posts.insert c.nextTask .taking := SortedMap.insert_insert ..
  have hfree₂ : c₂.isLocked = false := unlocked_of_posts hfree hposts₂ rfl
  have hturns : Turns c.nextTask (c.spawn .close) (c₂.turn c.nextTask .taking) :=
    (turns_free hclosing rfl).trans (turns_turn htaking fun _ => hfree₂)
  unfold Trigger.close
  dsimp only [Trigger.unschedule]
  cases hslot : c.trigger.slot with
  | none =>
    have htake : c₂.turn c.nextTask .taking = c₂.shut c.nextTask := by
      simp only [turn, take]
      rw [show c₂.trigger.slot = none from hslot]
    rw [htake] at hturns
    have hposts : (c₂.shut c.nextTask).posts = c₂.posts.insert c.nextTask .closed := rfl
    exact ⟨c₂.shut c.nextTask, hturns, rfl,
      congrArg (fun slot => { c.trigger.unschedule with slot := slot }) hslot,
      List.mem_cons_self .., unlocked_of_posts hfree₂ hposts rfl,
      fun m s' h' => h'.beside hs hturns⟩
  | some id =>
    let c₃ := { c₂ with trigger := { c₂.trigger with slot := none } }.proceed c.nextTask
      (.shutting id)
    have htake : c₂.turn c.nextTask .taking = c₃ := by
      simp only [turn, take]
      rw [show c₂.trigger.slot = some id from hslot]
    have hshutting : c₃.posts.find? c.nextTask = some (.shutting id) :=
      SortedMap.find?_insert_self ..
    rw [htake] at hturns
    have hturns := hturns.trans (turns_free hshutting rfl)
    have hclosed := c₃.closePool_eq id
    refine ⟨_, hturns, hclosed.1, hclosed.2, List.mem_cons_self .., ?_,
      fun m s' h' => h'.beside hs hturns⟩
    have hposts : (c₃.turn c.nextTask (.shutting id)).posts =
        c₂.posts.insert c.nextTask .closed := by
      show (c₃.onPool id .close).posts.insert c.nextTask .closed = _
      rw [(c₃.beside_onPool id .close).posts]
      exact SortedMap.insert_insert ..
    exact unlocked_of_posts hfree₂ hposts rfl

/-- Handles are used one after the other. -/
theorem wake_is_turns {handles : List LeaseHandle} (hfree : c.isLocked = false)
    (hpost : c.posts.find? n = some (.waking handles)) :
    ∃ c', Turns n c c' ∧ c'.env = handles.foldl (fun env h => h.wake env) c.env ∧
      c'.trigger = c.trigger ∧ c'.posts.find? n = some (.waking []) ∧ c'.isLocked = false := by
  induction handles generalizing c with
  | nil => exact ⟨c, .refl n c, rfl, rfl, hpost, hfree⟩
  | cons h handles ih =>
    have hturn := turns_free hpost rfl
    have hfree₁ : (c.turn n (.waking (h :: handles))).isLocked = false :=
      unlocked_of_posts hfree (show _ = c.posts.insert n (.waking handles) from rfl) rfl
    have hpost₁ : (c.turn n (.waking (h :: handles))).posts.find? n = some (.waking handles) :=
      SortedMap.find?_insert_self ..
    obtain ⟨c', ht, hrest⟩ := ih hfree₁ hpost₁
    exact ⟨c', hturn.trans ht, hrest⟩

/-- And so is a call that wakes all leases of the pool, when no time is left for them to end. -/
theorem wakeLeases_is_turns (hs : Seated c) (hfree : c.isLocked = false)
    (hp : c.trigger.currentPool? = some p) :
    ∃ c', Turns c.nextTask (c.spawn (.interrupt 0)) c' ∧ c'.env = Trigger.wakeLeases p c.env ∧
      c'.trigger = c.trigger ∧ c'.posts.find? c.nextTask = some (.waking []) ∧
        c'.isLocked = false ∧ ∀ m s', c.Stands m s' → c'.Stands m s' := by
  unfold Trigger.currentPool? at hp
  obtain ⟨id, hslot, hp⟩ := Option.bind_eq_some_iff.mp hp
  have hp : c.pool? id = some p := hp
  let n := c.nextTask
  let c₁ := c.spawn (.interrupt 0)
  have hrousing : c₁.posts.find? n = some (.rousing 0) := SortedMap.find?_insert_self ..
  have hposts₁ : c₁.posts = c.posts.insert n (.rousing 0) := rfl
  have hfree₁ : c₁.isLocked = false := unlocked_of_posts hfree hposts₁ rfl
  let c₂ := c₁.proceed n (.sparing id c.env.now c.env.now)
  have hrouse : c₁.turn n (.rousing 0) = c₂ := by
    simp only [turn, rouse]
    rw [show c₁.trigger.slot = some id from hslot]
    rfl
  have hsparing : c₂.posts.find? n = some (.sparing id c.env.now c.env.now) :=
    SortedMap.find?_insert_self ..
  let c₃ := c₂.proceed n (.gathering id)
  have hspare : c₂.turn n (.sparing id c.env.now c.env.now) = c₃ := by
    have hdue : ¬c₂.env.now < c.env.now := Nat.lt_irrefl c.env.now
    simp only [turn, spare]
    rw [if_neg hdue, if_neg]
    rw [decide_eq_false hdue, Bool.and_false]
    exact Bool.false_ne_true
  have hgathering : c₃.posts.find? n = some (.gathering id) := SortedMap.find?_insert_self ..
  let c₄ := c₃.proceed n (.waking p.activeLeases)
  have hgather : c₃.turn n (.gathering id) = c₄ := by
    simp only [turn, gather]
    rw [show c₃.pool? id = some p from hp]
    rfl
  have hwaking : c₄.posts.find? n = some (.waking p.activeLeases) :=
    SortedMap.find?_insert_self ..
  have hfree₄ : c₄.isLocked = false := by
    have hposts₂ : c₂.posts = c₁.posts.insert n (.sparing id c.env.now c.env.now) := rfl
    have hposts₃ : c₃.posts = c₂.posts.insert n (.gathering id) := rfl
    have hposts₄ : c₄.posts = c₃.posts.insert n (.waking p.activeLeases) := rfl
    exact unlocked_of_posts (unlocked_of_posts (unlocked_of_posts hfree₁ hposts₂ rfl) hposts₃ rfl)
      hposts₄ rfl
  have hturns : Turns n c₁ c₄ :=
    ((hrouse ▸ turns_turn hrousing fun _ => hfree₁).trans (hspare ▸ turns_free hsparing rfl)).trans
      (hgather ▸ turns_free hgathering rfl)
  obtain ⟨c', ht, henv, htrigger, hpost, hfree'⟩ := wake_is_turns hfree₄ hwaking
  have hturns := hturns.trans ht
  exact ⟨c', hturns, henv, htrigger, hpost, hfree', fun m s' h' => h'.beside hs hturns⟩

end Crew
end RecordIntake
