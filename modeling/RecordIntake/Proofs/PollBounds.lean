import Mathlib.Algebra.Order.Floor.Div
import RecordIntake.Proofs.Conduct

/-!
How often a cycle polls, and how much it absorbs.  No single quantity goes down with every poll: a
poll that brings messages uses up room, and one that brings none uses up time.  So the polls are
counted against both.  There are no more of them than messages and timeouts together, and as many
timeouts have passed since the lease began as there were polls that brought nothing; while a poll
waits, its own timeout has passed when its deadline comes.
-/
namespace RecordIntake

namespace LeaseSettings

/-- The number of timeouts that fit in before polling stops, rounded up. -/
def idlePolls (s : LeaseSettings) : Nat := s.maxUncommittedTime ⌈/⌉ s.pollTimeout

theorem lt_idlePolls {s : LeaseSettings} {idle : Nat} (hpos : 0 < s.pollTimeout)
    (h : idle * s.pollTimeout < s.maxUncommittedTime) : idle < s.idlePolls := by
  refine Nat.lt_of_not_le fun hle => ?_
  have hfits := (ceilDiv_le_iff_le_mul hpos).mp hle
  rw [Nat.mul_comm] at hfits
  exact Nat.not_lt.mpr hfits h

end LeaseSettings

/-- When a poll that waits is over, unless polls are blocked. -/
def Phase.deadline? : Phase → Option Nat
  | .waiting _ deadline => deadline
  | _ => none

theorem Phase.eq_waiting {ph : Phase} {time : Nat} (h : ph.deadline? = some time) :
    ∃ l, ph = .waiting l (some time) := by
  cases ph with
  | waiting l deadline => exact ⟨l, congrArg (Phase.waiting l) h⟩
  | _ => cases h

/-- Adding what is no poll changes nothing about polls. -/
theorem Account.add_unpolled (a : Account) {b : Account} (hpolls : b.polls = 0)
    (hpolled : b.polled = []) : (a.add b).polls = a.polls ∧ (a.add b).polled = a.polled := by
  simp only [add, hpolls, hpolled, Nat.add_zero, List.append_nil, and_self]

/-- Up to a time, each poll brought a message or took its timeout. -/
structure Running (t : CycleTerms) (time : Nat) (l : Lease) (acc : Account) : Prop where
  settings : l.settings = t.settings.lease
  received : l.received = acc.polled.length
  pace : ∃ idle, acc.polls ≤ acc.polled.length + idle ∧
    idle * t.settings.lease.pollTimeout + l.deadline ≤ time + t.settings.lease.maxUncommittedTime

/-- The polls of a cycle and their messages stay within their bounds. -/
structure Bounded (t : CycleTerms) (acc : Account) : Prop where
  polls : acc.polls ≤ t.settings.lease.maxRecords + t.settings.lease.idlePolls
  polled : acc.polled.length ≤ t.settings.lease.maxRecords - 1 + t.limit
  nothing : t.settings.lease.maxRecords = 0 → acc.polls = 0 ∧ acc.polled = []

structure Paced (t : CycleTerms) (now : Nat) (s : Stint) (ph : Phase) (acc : Account) : Prop where
  bounded : Bounded t acc
  /-- A poll that waits is counted as if its time were over. -/
  waiting : ∀ l time, ph = .waiting l (some time) →
    Running t time l acc ∧ time ≤ now + t.settings.lease.pollTimeout
  running : ∀ l, ph.lease? = some l → ph.isWaiting = false → Running t now l acc
  /-- There is time and room for one more poll. -/
  starting : s = .starting → acc.polled.length < t.settings.lease.maxRecords ∧
    acc.polls < t.settings.lease.maxRecords + t.settings.lease.idlePolls

variable {t : CycleTerms} {now : Nat} {s : Stint} {ph : Phase} {l : Lease} {acc : Account}

namespace Running

theorem later {time time' : Nat} (h : Running t time l acc) (htime : time ≤ time') :
    Running t time' l acc where
  settings := h.settings
  received := h.received
  pace := by
    obtain ⟨idle, hpolls, hpace⟩ := h.pace
    exact ⟨idle, hpolls, Nat.le_trans hpace (Nat.add_le_add_right htime _)⟩

/-- The lease has changed in what does not count. -/
theorem like (h : Running t now l acc) {l' : Lease} (hsettings : l'.settings = l.settings)
    (hreceived : l'.received = l.received) (hdeadline : l'.deadline = l.deadline) :
    Running t now l' acc where
  settings := hsettings.trans h.settings
  received := hreceived.trans h.received
  pace := hdeadline ▸ h.pace

/-- Something else than a poll was accounted for. -/
theorem add (h : Running t now l acc) {more : Account} (hpolls : more.polls = 0)
    (hpolled : more.polled = []) : Running t now l (acc.add more) := by
  obtain ⟨hpolls, hpolled⟩ := Account.add_unpolled acc hpolls hpolled
  refine ⟨h.settings, ?_, ?_⟩
  · rw [hpolled]
    exact h.received
  · rw [hpolls, hpolled]
    exact h.pace

/-- A poll was started; when its time is over it has used that up. -/
theorem wait (h : Running t now l acc) (c : Connection) :
    Running t (now + l.settings.pollTimeout) (l.pollingWith c) (acc.add { polls := 1 }) where
  settings := h.settings
  received := h.received.trans (congrArg List.length (List.append_nil _).symm)
  pace := by
    obtain ⟨idle, hpolls, hpace⟩ := h.pace
    refine ⟨idle + 1, ?_, ?_⟩
    · show acc.polls + 1 ≤ (acc.polled ++ []).length + (idle + 1)
      rw [List.append_nil]
      omega
    · show (idle + 1) * t.settings.lease.pollTimeout + l.deadline ≤ _
      rw [h.settings, Nat.succ_mul]
      omega

/-- A poll has brought messages. -/
theorem bring (h : Running t now l acc) (c : Connection) (time : Nat) {ms : List Message}
    (hms : ms ≠ []) :
    Running t now ((l.pollingWith c).taking time ms) (acc.add { polls := 1, polled := ms }) where
  settings := h.settings
  received := by
    show l.received + ms.length = (acc.polled ++ ms).length
    rw [h.received, List.length_append]
  pace := by
    obtain ⟨idle, hpolls, hpace⟩ := h.pace
    have hsome : 0 < ms.length := List.length_pos_iff.mpr hms
    refine ⟨idle, ?_, hpace⟩
    show acc.polls + 1 ≤ (acc.polled ++ ms).length + idle
    rw [List.length_append]
    omega

/-- As long as there is time and room, one more poll is within the bounds. -/
theorem room (hpos : 0 < t.settings.lease.pollTimeout) (h : Running t now l acc)
    (hnow : now < l.deadline) (hroom : l.received < l.settings.maxRecords) :
    acc.polled.length < t.settings.lease.maxRecords ∧
      acc.polls < t.settings.lease.maxRecords + t.settings.lease.idlePolls := by
  obtain ⟨idle, hpolls, hpace⟩ := h.pace
  rw [h.received, h.settings] at hroom
  have hidle : idle < t.settings.lease.idlePolls := LeaseSettings.lt_idlePolls hpos (by omega)
  exact ⟨hroom, by omega⟩

end Running

theorem bounded_empty (t : CycleTerms) : Bounded t {} :=
  ⟨Nat.zero_le _, Nat.zero_le _, fun _ => ⟨rfl, rfl⟩⟩

namespace Bounded

theorem add (h : Bounded t acc) {more : Account} (hpolls : more.polls = 0)
    (hpolled : more.polled = []) : Bounded t (acc.add more) := by
  obtain ⟨hpolls, hpolled⟩ := Account.add_unpolled acc hpolls hpolled
  refine ⟨?_, ?_, ?_⟩
  · rw [hpolls]
    exact h.polls
  · rw [hpolled]
    exact h.polled
  · rw [hpolls, hpolled]
    exact h.nothing

/-- One more poll was started, and has brought no more than it may. -/
theorem poll (hroom : acc.polled.length < t.settings.lease.maxRecords ∧
      acc.polls < t.settings.lease.maxRecords + t.settings.lease.idlePolls)
    {more : Account} (hpolls : more.polls = 1) (hpolled : more.polled.length ≤ t.limit) :
    Bounded t (acc.add more) := by
  obtain ⟨hroom, hmore⟩ := hroom
  refine ⟨?_, ?_, fun hnone => ?_⟩
  · show acc.polls + more.polls ≤ _
    rw [hpolls]
    exact hmore
  · show (acc.polled ++ more.polled).length ≤ _
    rw [List.length_append]
    omega
  · omega

end Bounded

/-- A cycle that is not in a poll that waits, and not about to start one. -/
theorem Paced.next (hph : ph.lease? = some l) (hbounded : Bounded t acc)
    (hrunning : Running t now l acc) (hwaits : ph.isWaiting = false) (hs : s ≠ .starting) :
    Paced t now s ph acc where
  bounded := hbounded
  waiting l' time h := by
    rw [h] at hwaits
    cases hwaits
  running l' hl' _ := by
    obtain rfl : l = l' := Option.some.inj (hph.symm.trans hl')
    exact hrunning
  starting h := absurd h hs

/-! ## Every course -/

theorem running_issue (t : CycleTerms) (id : LeaseId) (c : Connection) (now : Nat) :
    Running t now (.issue id c t.reader t.settings t.sink now) {} := by
  refine ⟨rfl, rfl, 0, Nat.le_refl _, ?_⟩
  rw [Nat.zero_mul, Nat.zero_add]
  exact Nat.le_refl _

/-- Wherever a cycle is, it has kept to the pace. -/
theorem Course.paced (hpos : 0 < t.settings.lease.pollTimeout) (h : Course t now s ph acc) :
    Paced t now s ph acc := by
  induction h with
  | begins id c => exact .next rfl (bounded_empty t) (running_issue ..) rfl nofun
  | later h hnow ih =>
    refine ⟨ih.bounded, fun l time hph => ?_, fun l hl hwaits => (ih.running l hl hwaits).later hnow,
      ih.starting⟩
    obtain ⟨hrunning, htime⟩ := ih.waiting l time hph
    exact ⟨hrunning, Nat.le_trans htime (Nat.add_le_add_right hnow _)⟩
  | looks h scheduled ih =>
    exact .next rfl ih.bounded (ih.running _ rfl rfl) rfl (by cases scheduled <;> nofun)
  | goesOn h hnow hroom ih =>
    have hrunning := ih.running _ rfl rfl
    refine ⟨ih.bounded.add rfl rfl, fun l time hph => ?_, fun l hl _ => ?_, fun _ => ?_⟩
    · cases hph
    · cases hl
      exact hrunning.add rfl rfl
    · exact (hrunning.add rfl rfl).room hpos hnow hroom
  | stops h state ih =>
    exact .next rfl (ih.bounded.add rfl rfl)
      (((ih.running _ rfl rfl).add rfl rfl).like rfl rfl rfl) rfl nofun
  | waits h c deadline hdeadline ih =>
    have hrunning := ih.running _ rfl rfl
    refine ⟨.poll (ih.starting rfl) rfl (Nat.zero_le t.limit), fun l' time hph => ?_,
      fun l' hl' hwaits => Bool.noConfusion hwaits, nofun⟩
    cases hph
    rw [hdeadline time rfl, ← hrunning.settings]
    exact ⟨hrunning.wait c, Nat.le_refl _⟩
  | brings h c time hlimit hnone ih =>
    have hrunning := ih.running _ rfl rfl
    refine .next rfl (.poll (ih.starting rfl) rfl hlimit) (hrunning.bring c time fun hms => ?_) rfl
      nofun
    have htimeout := hnone hms
    rw [hrunning.settings] at htimeout
    exact Nat.ne_of_gt hpos htimeout
  | timesOut h hnow time ih =>
    have hrunning := ((ih.waiting _ _ rfl).1).later hnow
    exact .next rfl ih.bounded (hrunning.like rfl rfl rfl) rfl nofun
  | accepts h ih =>
    have hrunning := ih.running _ rfl rfl
    refine ⟨ih.bounded.add rfl rfl, fun l' time hph => ?_, fun l' hl' _ => ?_, fun hs => ?_⟩
    · cases hph
    · cases hl'
      exact hrunning.add rfl rfl
    · obtain ⟨hpolls, hpolled⟩ := Account.add_unpolled _ (b := { accepted := [_] }) rfl rfl
      rw [hpolls, hpolled]
      exact ih.starting hs
  | pollEnds h ih =>
    exact .next rfl (ih.bounded.add rfl rfl) ((ih.running _ rfl rfl).add rfl rfl) rfl nofun
  | schedules h ih => exact .next rfl ih.bounded (ih.running _ rfl rfl) rfl nofun
  | flushes h ih =>
    exact .next rfl ih.bounded ((ih.running _ rfl rfl).like rfl rfl rfl) rfl nofun

/-- So has one that has come to its outcome. -/
theorem Ends.bounded (hpos : 0 < t.settings.lease.pollTimeout) {o : CycleOutcome}
    (h : Ends t o acc) : Bounded t acc := by
  cases h with
  | unscheduled h => exact (h.paced hpos).bounded
  | pollFails h e => exact .poll ((h.paced hpos).starting rfl) rfl (Nat.zero_le t.limit)
  | interrupted h e => exact (h.paced hpos).bounded.add rfl rfl
  | refuses h fault => exact (h.paced hpos).bounded.add rfl rfl
  | unusable h e => exact (h.paced hpos).bounded.add rfl rfl
  | commitFails h hcommits ho => exact (h.paced hpos).bounded.add rfl rfl
  | nothingToCommit h hempty => exact (h.paced hpos).bounded.add rfl rfl
  | commits h => exact (h.paced hpos).bounded.add rfl rfl

/-! ## Polls that wait -/

/-- A poll whose time is over does not go on waiting. -/
theorem World.resume_overdue {w : World} {id : LeaseId} {time : Nat}
    (hph : w.phases.find? id = some (.waiting l (some time))) (htime : time ≤ w.env.now)
    (l' : Lease) (deadline : Option Nat) :
    (w.act (.resume id)).phases.find? id ≠ some (.waiting l' deadline) := by
  have hended : ∃ result, (w.env.resumePoll l.connection (some time)).2 = .ended result := by
    unfold Environment.resumePoll
    split
    · exact ⟨_, rfl⟩
    · dsimp only
      rw [if_pos htime]
      exact ⟨_, rfl⟩
  obtain ⟨result, hended⟩ := hended
  simp only [act, hph]
  unfold resume
  split <;> rename_i he <;> rw [he] at hended
  · cases hended
  · unfold endPoll
    split <;> simp [setPhase, SortedMap.find?_insert_self]

namespace Crew

variable {c : Crew} {n : Nat}

theorem Conducts.bounded (hpos : 0 < t.settings.lease.pollTimeout) (h : Conducts t c n acc) :
    Bounded t acc := by
  cases hpost : c.posts.find? n with
  | none =>
    obtain rfl := (conducts_none hpost).mp h
    exact bounded_empty t
  | some post =>
    have haccounts := (conducts_some hpost).mp h
    cases post with
    | opening id lease =>
      obtain ⟨rfl, -⟩ := haccounts
      exact bounded_empty t
    | leased id lease s =>
      obtain ⟨ph, -, hheads⟩ := haccounts
      cases hheads with
      | on h => exact (h.paced hpos).bounded
      | out h => exact h.bounded hpos
      | back h => exact h.bounded hpos
    | ended o =>
      obtain ⟨rfl, -⟩ | h := haccounts
      · exact bounded_empty t
      · exact h.bounded hpos
    | _ =>
      obtain rfl := haccounts.of_idle rfl
      exact bounded_empty t

/-- A poll that waits does so no longer than its timeout, and is over with the next turn then. -/
theorem Conducts.overdue (hs : Seated c) (hpos : 0 < t.settings.lease.pollTimeout)
    (h : Conducts t c n acc) {id : PoolId} {lease : LeaseId} {time : Nat}
    (hpost : c.posts.find? n = some (.leased id lease .polling))
    (hph : c.phase? id lease = some (.waiting l (some time))) :
    time ≤ c.env.now + t.settings.lease.pollTimeout ∧
      (time ≤ c.env.now → ∀ l' deadline,
        (c.act (.turn n)).phase? id lease ≠ some (.waiting l' deadline)) := by
  obtain ⟨ph, hph', hheads⟩ := (conducts_some hpost).mp h
  obtain rfl : .waiting l (some time) = ph := Option.some.inj (hph.symm.trans hph')
  refine ⟨?_, fun htime l' deadline => ?_⟩
  · cases hheads with
    | on h => exact ((h.paced hpos).waiting l time rfl).2
  · obtain ⟨p, hp⟩ := hs.stocked.pool_of_phase hph
    have hworld := (hs.stocked.phases_world hp lease).trans hph
    have hact : c.actOn id lease .polling = some (.resume lease) := by
      rw [actOn, hph]
      rfl
    rw [act_turn_leased hpost, phase?_attend, hact]
    show (c.onPool id (.resume lease)).phase? id lease ≠ _
    rw [hs.stocked.phase?_onPool hp, if_pos rfl]
    exact World.resume_overdue hworld htime l' deadline

/-- Whatever is produced and whoever else is at work, the polls of one cycle are at most as many as
the messages that it may absorb and the timeouts that its time has room for, and it absorbs less
than it may before its last poll, and then what one poll brings.  No poll waits longer than the
timeout, unless polls are blocked. -/
theorem polls_bounded (maxPollRecords now : Nat) (resolver : Resolver) (reader : RecordReader)
    (settings : IntakeSettings) (sink : String) (ds : List Doing) (n : Nat)
    (hpos : 0 < settings.lease.pollTimeout) :
    let c := (start maxPollRecords now resolver reader settings sink).run ds
    let acc := (start maxPollRecords now resolver reader settings sink).account n ds
    acc.polls ≤ settings.lease.maxRecords +
        settings.lease.maxUncommittedTime ⌈/⌉ settings.lease.pollTimeout ∧
      (1 ≤ settings.lease.maxRecords →
        acc.polled.length ≤ settings.lease.maxRecords - 1 + maxPollRecords) ∧
      (settings.lease.maxRecords = 0 → acc.polled = []) ∧
      ∀ id lease l time, c.posts.find? n = some (.leased id lease .polling) →
        c.phase? id lease = some (.waiting l (some time)) →
          time ≤ c.env.now + settings.lease.pollTimeout ∧
            (time ≤ c.env.now → ∀ l' deadline,
              (c.act (.turn n)).phase? id lease ≠ some (.waiting l' deadline)) := by
  intro c acc
  have hconducts := conducts_start maxPollRecords now resolver reader settings sink ds n
  have hseated : Seated c :=
    run_induction (fun _ _ hstep hs => seated_step hstep hs)
      (seated_start maxPollRecords now resolver reader settings sink) ds
  have hbounded := hconducts.bounded hpos
  exact ⟨hbounded.polls, fun _ => hbounded.polled, fun hnone => (hbounded.nothing hnone).2,
    fun id lease l time hpost hph => hconducts.overdue hseated hpos hpost hph⟩

/-- A cycle polls a message, then nothing for the length of a timeout, and then waits for as long
again. -/
def drawnOutCycle : List Doing :=
  [.onCluster (.produce ⟨⟨"t", 0⟩, 0, none, some [123, 125], none, []⟩), .spawn .cycle] ++
    List.replicate 13 (.turn 0) ++ [.advance 100] ++ List.replicate 5 (.turn 0) ++ [.advance 100]

/-- It has room and time for four polls, and makes three.  The last is over with the next turn. -/
theorem polls_bounded_drawnOut :
    let c₀ := start 10 0 ⟨.topics ["t"], none⟩ Record.read
      { lease := { maxUncommittedTime := 200, maxRecords := 2 } } "s"
    let c := c₀.run drawnOutCycle
    let acc := c₀.account 0 drawnOutCycle
    acc.polls = 3 ∧ acc.polled.length = 1 ∧ acc.polls ≤ 2 + 200 ⌈/⌉ 100 ∧
      acc.polled.length ≤ 2 - 1 + 10 ∧
        ∃ l, c.phase? 0 1 = some (.waiting l (some 200)) ∧
          ∀ l' deadline, (c.act (.turn 0)).phase? 0 1 ≠ some (.waiting l' deadline) := by
  obtain ⟨hpolls, hpolled, -, hwaits⟩ := polls_bounded 10 0 ⟨.topics ["t"], none⟩ Record.read
    { lease := { maxUncommittedTime := 200, maxRecords := 2 } } "s" drawnOutCycle 0 (by decide)
  dsimp only at hpolls hpolled hwaits ⊢
  generalize hturns : (start 10 0 ⟨.topics ["t"], none⟩ Record.read
    { lease := { maxUncommittedTime := 200, maxRecords := 2 } } "s").account 0 drawnOutCycle = acc
    at hpolls hpolled ⊢
  have hthree : acc.polls = 3 ∧ acc.polled.length = 1 := by
    rw [← hturns]
    decide +kernel
  refine ⟨hthree.1, hthree.2, hpolls, hpolled (by decide), ?_⟩
  generalize hrun : (start 10 0 ⟨.topics ["t"], none⟩ Record.read
    { lease := { maxUncommittedTime := 200, maxRecords := 2 } } "s").run drawnOutCycle = c
    at hwaits ⊢
  have hone : Seated c ∧ c.nextTask = 1 := by
    rw [← hrun]
    exact ⟨run_induction (fun _ _ hstep hs => seated_step hstep hs) (seated_start ..) _,
      by decide +kernel⟩
  have hnow : 200 ≤ c.env.now := by
    rw [← hrun]
    decide +kernel
  have hdeadline : (c.phase? 0 1).bind Phase.deadline? = some 200 := by
    rw [← hrun]
    decide +kernel
  obtain ⟨ph, hph, hwaiting⟩ := Option.bind_eq_some_iff.mp hdeadline
  obtain ⟨l, rfl⟩ := Phase.eq_waiting hwaiting
  -- There is no other task that could be the one that waits.
  obtain ⟨n, hpost⟩ := polling_of_waiting hone.1 hph
  obtain rfl : n = 0 := Nat.lt_one_iff.mp (hone.2 ▸ (hone.1.manned.posts n _ hpost).1)
  exact ⟨l, hph, (hwaits 0 1 l 200 hpost hph).2 hnow⟩

end Crew
end RecordIntake
