import Mathlib.Data.List.Induction
import RecordIntake.Proofs.Course
import RecordIntake.Proofs.Handling
import RecordIntake.Proofs.Interruption

/-!
Polling stays stopped.  Of the reasons why a lease is told to stop, only a fault and the use of all
time or room are kept in its state, and a poll forgets the latter.  But the deadline and the number
of messages change only one way until the next commit that succeeds, so the lease would be told to
stop again.  A signal is not kept at all.  It stays raised until the lease takes it, and then the
lease has failed.  So there is always one of three reasons, `Halted`, and each step leaves one of
them.

Calls can be given up before they are over, as well as leases.
-/
namespace RecordIntake
namespace Lease

variable {l l' : Lease} {env env' : Environment} {n : Nat}

/-- The time or the room is used up that the lease has before it must commit. -/
def IsSpent (l : Lease) (env : Environment) : Prop :=
  l.deadline ≤ env.now ∨ l.settings.maxRecords ≤ l.received

theorem not_isSpent_iff :
    ¬l.IsSpent env ↔ env.now < l.deadline ∧ l.received < l.settings.maxRecords := by
  rw [IsSpent, not_or, Nat.not_le, Nat.not_le]

/-- A lease is told to go on polling if and only if nothing speaks against it. -/
theorem continuePolling_eq_true_iff :
    (l.continuePolling env).2 = true ↔ l.state ≠ .faulted ∧ l.state ≠ .readyToCommit ∧
      env.isRaised l.connection.signal = false ∧ ¬l.IsSpent env := by
  rw [not_isSpent_iff]
  unfold continuePolling
  cases l.state with
  | faulted | readyToCommit => simp
  | idle | polling =>
    cases env.isRaised l.connection.signal with
    | true => simp
    | false =>
      by_cases hmore : env.now < l.deadline ∧ l.received < l.settings.maxRecords
      · simp [hmore]
      · simp [hmore]

/-- What becomes of a lease in a step in which it receives `n` messages and does not commit.  It
gets ready to commit only if it must. -/
structure Continues (l : Lease) (n : Nat) (env : Environment) (l' : Lease) : Prop where
  settings : l'.settings = l.settings
  deadline : l'.deadline = l.deadline
  received : l'.received = l.received + n
  ready : l'.state = .readyToCommit → l.state = .readyToCommit ∨ l'.IsSpent env

theorem Continues.isSpent (hc : l.Continues n env' l') (hnow : env.now ≤ env'.now)
    (h : l.IsSpent env) : l'.IsSpent env' := by
  rw [IsSpent, hc.settings, hc.deadline, hc.received]
  obtain hlate | hfull := h
  · exact .inl (Nat.le_trans hlate hnow)
  · exact .inr (Nat.le_trans hfull (Nat.le_add_right _ _))

theorem Continues.refl (l : Lease) (env : Environment) : l.Continues 0 env l :=
  ⟨rfl, rfl, rfl, .inl⟩

theorem continues_fault (l : Lease) (env : Environment) (e : IntakeError) :
    l.Continues 0 env (l.fault e) :=
  ⟨rfl, rfl, rfl, nofun⟩

theorem continues_continuePolling (l : Lease) (env : Environment) :
    l.Continues 0 env (l.continuePolling env).1 := by
  have hready (h : ¬(env.now < l.deadline ∧ l.received < l.settings.maxRecords)) :
      l.Continues 0 env { l with state := .readyToCommit } :=
    ⟨rfl, rfl, rfl, fun _ => .inr (not_imp_comm.mp not_isSpent_iff.mp h)⟩
  unfold continuePolling
  cases l.state with
  | faulted | readyToCommit => exact .refl l env
  | idle | polling =>
    cases env.isRaised l.connection.signal with
    | true => exact .refl l env
    | false =>
      dsimp only
      rw [if_neg Bool.false_ne_true]
      split
      · exact .refl l env
      · exact hready (by simp_all)

/-- A commit that does not succeed leaves the lease faulted. -/
theorem finishCommit_cases (l : Lease) (env : Environment) :
    (l.finishCommit env).2.2 = .ok true ∧
        (l.finishCommit env).2.1 = l.startNextCycle (l.finishCommit env).1.now ∨
      (l.finishCommit env).2.2 ≠ .ok true ∧ ∃ e, (l.finishCommit env).2.1 = l.fault e := by
  unfold finishCommit
  split
  · exact .inr ⟨nofun, _, rfl⟩
  · split
    · exact .inl ⟨rfl, rfl⟩
    · unfold commitLedger
      split
      · exact .inl ⟨rfl, rfl⟩
      · exact .inr ⟨nofun, _, rfl⟩
      · exact .inr ⟨by simp, _, rfl⟩

end Lease

/-- The messages that a lease in this phase receives in an action on it. -/
def Phase.brought (ph : Phase) (env : Environment) : Action → List Message
  | .poll _ =>
    match ph with
    | .held l =>
      if l.state = .faulted then []
      else (env.startPoll l.connection l.settings.pollTimeout).2.2.messages
    | _ => []
  | .resume _ =>
    match ph with
    | .waiting l deadline => (env.resumePoll l.connection deadline).2.messages
    | _ => []
  | _ => []

/-- What becomes of a lease when an action on it is taken. -/
inductive Fares (w : World) (ph : Phase) (l : Lease) (a : Action) : Phase → Prop where
  | goesOn {ph' : Phase} {l' : Lease} (hl : ph'.lease? = some l')
    (hc : l.Continues (ph.brought w.env a).length (w.act a).env l')
    (hr : w.reply a ≠ some (.committed (.ok true))) : Fares w ph l a ph'
  | commits {ph' : Phase} (hl : ph'.lease? = some (l.startNextCycle (w.act a).env.now))
    (hr : w.reply a = some (.committed (.ok true))) : Fares w ph l a ph'
  | givenUp (c : Connection) (discard : Bool) : Fares w ph l a (.returning c discard)

namespace World

variable {w w' : World} {id : LeaseId} {ph : Phase} {l : Lease} {a : Action}

theorem fares_idle (hph : w.phases.find? id = some ph) (hl : ph.lease? = some l)
    (hact : w.act a = w) (hb : ph.brought w.env a = [])
    (hr : w.reply a ≠ some (.committed (.ok true))) :
    ∃ ph', (w.act a).phases.find? id = some ph' ∧ Fares w ph l a ph' := by
  refine ⟨ph, hact.symm ▸ hph, .goesOn hl ?_ hr⟩
  rw [hb]
  exact .refl l _

theorem ofPoll_ne_committed (p : Progress (Except IntakeError (List Message))) :
    Reply.ofPoll p ≠ some (.committed (.ok true)) := by
  cases p with
  | waiting deadline => nofun
  | ended result => cases result <;> nofun

theorem reply_poll_ne_committed (w : World) (id : LeaseId) :
    w.reply (.poll id) ≠ some (.committed (.ok true)) := by
  simp only [reply]
  split
  · split
    · intro h
      cases h
    · exact ofPoll_ne_committed _
  · intro h
    cases h

theorem fares_abandon (hph : w.phases.find? id = some ph) (hl : ph.lease? = some l) :
    ∃ ph', (w.act (.abandon id)).phases.find? id = some ph' ∧ Fares w ph l (.abandon id) ph' := by
  simp only [act, hph, Option.bind_some, hl]
  exact ⟨_, SortedMap.find?_insert_self .., .givenUp _ _⟩

/-- However the call on the connection of a lease ends, the messages that it brings are counted. -/
theorem fares_afterPoll (w : World) (id : LeaseId) (l : Lease)
    (p : Progress (Except IntakeError (List Message))) :
    ∃ ph' l', (w.afterPoll id l p).phases.find? id = some ph' ∧ ph'.lease? = some l' ∧
      ∀ env, l.Continues p.messages.length env l' := by
  cases p with
  | waiting deadline =>
    exact ⟨.waiting l deadline, l, SortedMap.find?_insert_self .., rfl, fun env => .refl l env⟩
  | ended result =>
    cases result with
    | error e =>
      exact ⟨.held (l.fault e), l.fault e, SortedMap.find?_insert_self .., rfl,
        fun env => l.continues_fault env e⟩
    | ok ms =>
      exact ⟨_, l.taking w.env.now ms, w.phase_endPoll_ok id l ms, rfl,
        fun env => ⟨rfl, rfl, rfl, .inl⟩⟩

theorem fares_poll (hph : w.phases.find? id = some (.held l)) :
    ∃ ph', (w.act (.poll id)).phases.find? id = some ph' ∧
      Fares w (.held l) l (.poll id) ph' := by
  have hact : w.act (.poll id) = w.poll id l := by simp only [act, hph]
  by_cases hl : l.state = .faulted
  · refine fares_idle hph rfl ?_ (if_pos hl) ?_
    · rw [hact, poll, if_pos hl]
    · simp [reply, hph, hl]
  · cases hstart : w.env.startPoll l.connection l.settings.pollTimeout with
    | mk env rest =>
      obtain ⟨c, p⟩ := rest
      have hbrought : (Phase.held l).brought w.env (.poll id) = p.messages := by
        simp only [Phase.brought, if_neg hl, hstart]
      obtain ⟨ph', l', hph', hl', hc⟩ := fares_afterPoll
        (remember { w with env := env } (.read id w.env.cluster l.connection c p.messages)) id
        (l.pollingWith c) p
      rw [← poll_eq hl hstart, ← hact] at hph'
      have hafter := hc (w.act (.poll id)).env
      refine ⟨ph', hph', .goesOn hl' ?_ (reply_poll_ne_committed w id)⟩
      rw [hbrought]
      refine ⟨hafter.settings, hafter.deadline, hafter.received, fun h => ?_⟩
      exact .inr ((hafter.ready h).resolve_left LeaseState.noConfusion)

theorem fares_resume {deadline : Option Nat} (hph : w.phases.find? id = some (.waiting l deadline)) :
    ∃ ph', (w.act (.resume id)).phases.find? id = some ph' ∧
      Fares w (.waiting l deadline) l (.resume id) ph' := by
  have hact : w.act (.resume id) = w.resume id l deadline := by simp only [act, hph]
  cases hresume : w.env.resumePoll l.connection deadline with
  | mk env p =>
    have hbrought : (Phase.waiting l deadline).brought w.env (.resume id) = p.messages := by
      simp only [Phase.brought, hresume]
    obtain ⟨ph', l', hph', hl', hc⟩ := fares_afterPoll { w with env := env } id l p
    have heq : w.resume id l deadline = afterPoll { w with env := env } id l p := by
      rw [resume, hresume]
      cases p <;> rfl
    rw [← heq, ← hact] at hph'
    refine ⟨ph', hph', .goesOn hl' (hbrought ▸ hc _) ?_⟩
    simp only [reply, hph]
    exact ofPoll_ne_committed _

theorem fares_emit {units : List Emission} {errand : Errand}
    (hph : w.phases.find? id = some (.emitting l units errand)) :
    ∃ ph', (w.act (.emit id)).phases.find? id = some ph' ∧
      Fares w (.emitting l units errand) l (.emit id) ph' := by
  have hact : w.act (.emit id) = w.emit id l units errand := by simp only [act, hph]
  cases units with
  | cons u units =>
    cases hone : l.emitOne w.env u with
    | mk env rest =>
      obtain ⟨l', outcome⟩ := rest
      have hreply : w.reply (.emit id) ≠ some (.committed (.ok true)) := by
        simp only [reply, hph, hone]
        cases outcome with
        | ok _ =>
          intro h
          cases h
        | error fault =>
          intro h
          cases errand <;> cases h
      cases outcome with
      | ok _ =>
        obtain ⟨rfl, -⟩ := Lease.emitOne_ok hone
        refine ⟨.emitting l' units errand, ?_, .goesOn rfl (.refl l' _) hreply⟩
        rw [hact, emit, hone]
        exact SortedMap.find?_insert_self ..
      | error fault =>
        obtain ⟨rfl, -⟩ := Lease.emitOne_error hone
        refine ⟨.held _, ?_, .goesOn rfl (l.continues_fault _ Lease.sinkFailure) hreply⟩
        rw [hact, emit, hone]
        exact SortedMap.find?_insert_self ..
  | nil =>
    cases errand with
    | poll =>
      refine ⟨.held l, ?_, .goesOn rfl (.refl l _) ?_⟩
      · rw [hact]
        exact SortedMap.find?_insert_self ..
      · simp [reply, hph]
    | commit =>
      have hreply : w.reply (.emit id) = some (.committed (l.finishCommit w.env).2.2) := by
        simp only [reply, hph]
      have hat := at_finishCommit w id l
      rw [show w.finishCommit id l = w.act (.emit id) from hact.symm] at hat
      obtain ⟨hok, hl⟩ | ⟨hnot, e, hl⟩ := l.finishCommit_cases w.env
      · refine ⟨_, hat.phase, .commits ?_ (hok ▸ hreply)⟩
        rw [hl, hat.env]
        rfl
      · refine ⟨_, hat.phase, .goesOn (hl ▸ rfl) (l.continues_fault _ e) ?_⟩
        rw [hreply]
        exact fun h => hnot (Reply.committed.inj (Option.some.inj h))

theorem fares_held (ha : a.lease? = some id) (hph : w.phases.find? id = some (.held l)) :
    ∃ ph', (w.act a).phases.find? id = some ph' ∧ Fares w (.held l) l a ph' := by
  cases a with
  | continuePolling id =>
    cases ha
    have hcontinues := l.continues_continuePolling w.env
    refine ⟨.held (l.continuePolling w.env).1, ?_, .goesOn rfl ?_ ?_⟩
    · simp only [act, hph]
      exact SortedMap.find?_insert_self ..
    · simp only [act, hph]
      exact hcontinues
    · simp [reply, hph]
  | poll id =>
    cases ha
    exact fares_poll hph
  | commit id =>
    cases ha
    by_cases hl : l.state = .faulted
    · exact fares_idle hph rfl (by simp only [act, hph, commit, if_pos hl]) rfl
        (by simp [reply, hph, hl])
    · refine ⟨.emitting l.flush.1 l.flush.2 .commit, ?_, .goesOn rfl ⟨rfl, rfl, rfl, .inl⟩ ?_⟩
      · simp only [act, hph, commit, if_neg hl]
        exact SortedMap.find?_insert_self ..
      · simp [reply, hph, hl]
  | abandon id =>
    cases ha
    exact fares_abandon hph rfl
  | supply id | resume id | emit id | checkIn id =>
    cases ha
    exact fares_idle hph rfl (by simp only [act, hph]) rfl (by simp [reply, hph])
  | _ => cases ha

theorem fares_act (ha : a.lease? = some id) (hph : w.phases.find? id = some ph)
    (hl : ph.lease? = some l) :
    ∃ ph', (w.act a).phases.find? id = some ph' ∧ Fares w ph l a ph' := by
  cases ph with
  | held l₁ =>
    cases hl
    exact fares_held ha hph
  | waiting l₁ deadline =>
    cases hl
    cases a with
    | resume id =>
      cases ha
      exact fares_resume hph
    | abandon id =>
      cases ha
      exact fares_abandon hph rfl
    | supply id | continuePolling id | poll id | commit id | emit id | checkIn id =>
      cases ha
      exact fares_idle hph rfl (by simp only [act, hph]) rfl (by simp [reply, hph])
    | _ => cases ha
  | emitting l₁ units errand =>
    cases hl
    cases a with
    | emit id =>
      cases ha
      exact fares_emit hph
    | abandon id =>
      cases ha
      exact fares_abandon hph rfl
    | supply id | continuePolling id | poll id | resume id | commit id | checkIn id =>
      cases ha
      exact fares_idle hph rfl (by simp only [act, hph]) rfl (by simp [reply, hph])
    | _ => cases ha
  | opening o sink | returning c discard | ended => cases hl

/-- A lease that begins was about to be issued. -/
theorem issued_act {ph' : Phase} {l' : Lease} (ha : a.lease? = some id)
    (hph : w.phases.find? id = some ph) (hl : ph.lease? = none)
    (hph' : (w.act a).phases.find? id = some ph') (hl' : ph'.lease? = some l') :
    (∃ o sink, ph = .opening o sink) ∧ a = .supply id ∧
      ∃ o c sink, l' = .issue o c w.pool.reader w.pool.settings sink (w.act a).env.now := by
  have hstay : w.act a ≠ w := by
    intro heq
    rw [heq, hph] at hph'
    cases hph'
    cases hl.symm.trans hl'
  cases ph with
  | opening o sink =>
    cases a with
    | supply id =>
      cases ha
      refine ⟨⟨o, sink, rfl⟩, rfl, ?_⟩
      simp only [act, hph] at hph' ⊢
      unfold supply at hph' ⊢
      split at hph'
      · rename_i env pool l hr
        obtain rfl := Option.some.inj ((SortedMap.find?_insert_self ..).symm.trans hph')
        obtain ⟨-, c, -, hissue⟩ := Pool.finishObtain_ok hr
        exact ⟨o.lease, c, sink, (Option.some.inj hl').symm.trans hissue⟩
      · obtain rfl := Option.some.inj ((SortedMap.find?_insert_self ..).symm.trans hph')
        cases hl'
    | continuePolling id | poll id | resume id | commit id | emit id | abandon id | checkIn id =>
      cases ha
      exact absurd (by simp [act, hph, Phase.lease?]) hstay
    | _ => cases ha
  | returning c discard =>
    cases a with
    | checkIn id =>
      cases ha
      simp only [act, hph] at hph'
      rw [(checkIn_frame ..).2.2.1, SortedMap.find?_insert_self] at hph'
      cases hph'
      cases hl'
    | supply id | continuePolling id | poll id | resume id | commit id | emit id | abandon id =>
      cases ha
      exact absurd (by simp [act, hph, Phase.lease?]) hstay
    | _ => cases ha
  | ended =>
    cases a with
    | supply id | continuePolling id | poll id | resume id | commit id | emit id | abandon id
    | checkIn id =>
      cases ha
      exact absurd (by simp [act, hph, Phase.lease?]) hstay
    | _ => cases ha
  | held l | waiting l deadline | emitting l units errand => cases hl

/-! ## Calls that are given up -/

/-- A step of the world, or a call on a lease is dropped before it is over. -/
inductive Move where
  | act (a : Action)
  | dropCall (id : LeaseId)

/-- The lease of a call that is dropped can be used again. -/
def dropCall (w : World) (id : LeaseId) : World :=
  match (w.phases.find? id).bind Phase.lease? with
  | some l => w.setPhase id (.held l)
  | none => w

def move (w : World) : Move → World
  | .act a => w.act a
  | .dropCall id => w.dropCall id

def moves (w : World) (ms : List Move) : World := ms.foldl move w

theorem moves_append (w : World) (ms ns : List Move) :
    w.moves (ms ++ ns) = (w.moves ms).moves ns :=
  List.foldl_append

theorem dropCall_cases (w : World) (id : LeaseId) :
    w.dropCall id = w ∨ ∃ ph l, w.phases.find? id = some ph ∧ ph.lease? = some l ∧
      w.dropCall id = w.setPhase id (.held l) := by
  unfold dropCall
  split
  · rename_i l h
    obtain ⟨ph, hph, hl⟩ := Option.bind_eq_some_iff.mp h
    exact .inr ⟨ph, l, hph, hl, rfl⟩
  · exact .inl rfl

theorem owned_move (h : Owned w.pool w.phases w.inquiries) (m : Move) :
    Owned (w.move m).pool (w.move m).phases (w.move m).inquiries := by
  cases m with
  | act a => exact owned_step (act_step w a) h
  | dropCall id =>
    obtain heq | ⟨ph, l, hph, hl, heq⟩ := w.dropCall_cases id
    · rw [move, heq]
      exact h
    · rw [move, heq]
      exact h.setPhase hph (phase_ne_ended hl) (fun loan hs => hs.of_lease hl) (by simp)

theorem sameTerms_move (w : World) (m : Move) : Pool.SameTerms w.pool (w.move m).pool := by
  cases m with
  | act a => exact sameTerms_step (act_step w a)
  | dropCall id =>
    obtain heq | ⟨ph, l, -, -, heq⟩ := w.dropCall_cases id
    · rw [move, heq]
      exact .refl _
    · rw [move, heq]
      exact .refl _

theorem onward_move (w : World) (m : Move) : w.env.Onward (w.move m).env := by
  cases m with
  | act a => exact onward_step (act_step w a)
  | dropCall id =>
    obtain heq | ⟨ph, l, -, -, heq⟩ := w.dropCall_cases id
    · rw [move, heq]
      exact .refl _
    · rw [move, heq]
      exact .refl _

/-- A lease does not notice that a call on it is dropped. -/
theorem lease?_dropCall (w : World) (id id' : LeaseId) :
    ((w.dropCall id').phases.find? id).bind Phase.lease? =
      (w.phases.find? id).bind Phase.lease? := by
  obtain heq | ⟨ph, l, hph, hl, heq⟩ := w.dropCall_cases id'
  · rw [heq]
  · rw [heq, setPhase, SortedMap.find?_insert]
    split
    · rename_i hid
      rw [hid, hph, Option.bind_some, Option.bind_some, hl]
      rfl
    · rfl

/-! ## Time and room -/

/-- The lease with this number, unless it has not begun or is over. -/
def leaseOf (w : World) (id : LeaseId) : Option Lease := (w.phases.find? id).bind Phase.lease?

/-- The messages that a lease receives in a move. -/
def brought (w : World) (id : LeaseId) : Move → List Message
  | .act a =>
    if a.lease? = some id then ((w.phases.find? id).map (·.brought w.env a)).getD [] else []
  | .dropCall _ => []

/-- The number of messages that a lease receives in some moves. -/
def received (w : World) (id : LeaseId) : List Move → Nat
  | [] => 0
  | m :: ms => (w.brought id m).length + (w.move m).received id ms

theorem received_append (w : World) (id : LeaseId) (ms ns : List Move) :
    w.received id (ms ++ ns) = w.received id ms + (w.moves ms).received id ns := by
  induction ms generalizing w with
  | nil => exact (Nat.zero_add _).symm
  | cons m ms ih =>
    show _ + (w.move m).received id (ms ++ ns) = _
    rw [ih, ← Nat.add_assoc]
    rfl

/-- The lease is issued, or its commit succeeds.  Then all of its time and room is before it. -/
inductive Renews (w : World) (id : LeaseId) : Move → Prop where
  | issued {o : Offer} {sink : String} {l : Lease}
    (hph : w.phases.find? id = some (.opening o sink))
    (hl : (w.act (.supply id)).leaseOf id = some l) : Renews w id (.act (.supply id))
  | committed {a : Action} (ha : a.lease? = some id)
    (hr : w.reply a = some (.committed (.ok true))) : Renews w id (.act a)

theorem Renews.lease? (h : Renews w id (.act a)) : a.lease? = some id := by
  cases h with
  | issued hph hl => rfl
  | committed ha hr => exact ha

/-- What happens to a lease that exists in a move that does not renew it. -/
theorem not_renews_of_lease (hl : w.leaseOf id = some l)
    (hr : w.reply a ≠ some (.committed (.ok true))) : ¬Renews w id (.act a) := by
  intro h
  cases h with
  | issued hph hl' =>
    rw [leaseOf, hph] at hl
    cases hl
  | committed ha hr' => exact hr hr'

/-- After `xs` the move `m` renews the lease, and none of the moves `ys` does that come then. -/
structure LastRenewed (w : World) (id : LeaseId) (xs : List Move) (m : Move) (ys : List Move) :
    Prop where
  renews : Renews (w.moves xs) id m
  none_since : ∀ us m', us ++ [m'] <+: ys → ¬Renews (w.moves (xs ++ m :: us)) id m'

/-- The deadline of a lease and the number of its messages count from when it was last renewed, and
it is ready to commit only if it must. -/
structure Counted (w : World) (id : LeaseId) (ms : List Move) (l : Lease) : Prop where
  settings : l.settings = w.pool.settings.lease
  ready : l.state = .readyToCommit → l.IsSpent (w.moves ms).env
  since : ∃ xs m ys, ms = xs ++ m :: ys ∧ w.LastRenewed id xs m ys ∧
    l.deadline = (w.moves (xs ++ [m])).env.now + w.pool.settings.lease.maxUncommittedTime ∧
    l.received = (w.moves (xs ++ [m])).received id ys

theorem moves_concat (w : World) (ms : List Move) (m : Move) :
    w.moves (ms ++ [m]) = (w.moves ms).move m :=
  w.moves_append ms [m]

theorem Counted.goOn {ms : List Move} {m : Move} {l' : Lease} (h : w.Counted id ms l)
    (hc : l.Continues ((w.moves ms).brought id m).length ((w.moves ms).move m).env l')
    (hnot : ¬Renews (w.moves ms) id m) : w.Counted id (ms ++ [m]) l' := by
  have honward := (w.moves ms).onward_move m
  refine ⟨hc.settings.trans h.settings, fun hready => ?_, ?_⟩
  · rw [moves_concat]
    obtain hold | hnew := hc.ready hready
    · exact hc.isSpent honward.now (h.ready hold)
    · exact hnew
  · obtain ⟨xs, m₀, ys, rfl, hlast, hdeadline, hreceived⟩ := h.since
    refine ⟨xs, m₀, ys ++ [m], by simp, ⟨hlast.renews, fun us m' hus => ?_⟩,
      hc.deadline.trans hdeadline, ?_⟩
    · obtain heq | hus := List.prefix_concat_iff.mp hus
      · obtain ⟨rfl, hm⟩ := List.append_inj' heq rfl
        cases hm
        exact hnot
      · exact hlast.none_since us m' hus
    · rw [received_append, ← moves_append, hc.received, hreceived]
      simp [received]

/-- A lease has all of its time and room when it is renewed. -/
theorem counted_renewed {ms : List Move} {m : Move} (hr : Renews (w.moves ms) id m)
    (hsettings : l.settings = w.pool.settings.lease) (hstate : l.state = .idle)
    (hdeadline : l.deadline = (w.moves (ms ++ [m])).env.now +
      w.pool.settings.lease.maxUncommittedTime) (hreceived : l.received = 0) :
    w.Counted id (ms ++ [m]) l where
  settings := hsettings
  ready h := by
    rw [hstate] at h
    cases h
  since := by
    refine ⟨ms, m, [], rfl, ⟨hr, fun us m' hus => ?_⟩, hdeadline, hreceived⟩
    exact absurd (List.prefix_nil.mp hus) (List.append_ne_nil_of_right_ne_nil us nofun)

theorem leaseOf_eq_some_iff :
    w.leaseOf id = some l ↔ ∃ ph, w.phases.find? id = some ph ∧ ph.lease? = some l :=
  Option.bind_eq_some_iff

theorem brought_of_phase (ha : a.lease? = some id) (hph : w.phases.find? id = some ph) :
    w.brought id (.act a) = ph.brought w.env a := by
  rw [brought, if_pos ha, hph]
  rfl

/-- A lease that is not concerned is as it was. -/
theorem leaseOf_act_other (ha : a.lease? ≠ some id) (hl : (w.act a).leaseOf id = some l) :
    w.leaseOf id = some l := by
  obtain ⟨ph, hph, hl⟩ := leaseOf_eq_some_iff.mp hl
  refine leaseOf_eq_some_iff.mpr ⟨ph, ?_, hl⟩
  cases hlease : a.lease? with
  | none =>
    obtain hsame | ⟨-, o, sink, hopening⟩ := w.phase_act_off hlease id
    · exact hsame.symm.trans hph
    · cases hopening.symm.trans hph
      cases hl
  | some id' =>
    have hne : id ≠ id' := by
      rintro rfl
      exact ha hlease
    rw [← phase_act_other hlease hne]
    exact hph

theorem counted_move {ms : List Move} (hterms : Pool.SameTerms w.pool (w.moves ms).pool)
    (h : ∀ l, (w.moves ms).leaseOf id = some l → w.Counted id ms l) {m : Move}
    (hl : ((w.moves ms).move m).leaseOf id = some l) : w.Counted id (ms ++ [m]) l := by
  cases m with
  | dropCall id' =>
    rw [move, leaseOf, lease?_dropCall] at hl
    exact (h l hl).goOn (.refl l _) nofun
  | act a =>
    by_cases ha : a.lease? = some id
    · obtain ⟨ph', hph', hl'⟩ := leaseOf_eq_some_iff.mp hl
      obtain ⟨ph, hph⟩ := phase_of_act ha hph'
      cases hbefore : ph.lease? with
      | none =>
        obtain ⟨⟨o, sink, rfl⟩, rfl, o', c, sink', hissue⟩ :=
          issued_act ha hph hbefore hph' hl'
        refine counted_renewed (.issued hph hl) ?_ ?_ ?_ ?_
        · rw [hissue, ← hterms.settings]
          rfl
        · rw [hissue]
          rfl
        · rw [hissue, moves_concat, ← hterms.settings]
          rfl
        · rw [hissue]
          rfl
      | some l₀ =>
        have hcounted := h l₀ (leaseOf_eq_some_iff.mpr ⟨ph, hph, hbefore⟩)
        obtain ⟨ph₁, hph₁, hfares⟩ := fares_act ha hph hbefore
        obtain rfl := Option.some.inj (hph₁.symm.trans hph')
        cases hfares with
        | goesOn hl₁ hc hr =>
          obtain rfl := Option.some.inj (hl₁.symm.trans hl')
          refine hcounted.goOn ?_ (not_renews_of_lease (l := l₀) ?_ hr)
          · rw [brought_of_phase ha hph]
            exact hc
          · exact leaseOf_eq_some_iff.mpr ⟨ph, hph, hbefore⟩
        | commits hl₁ hr =>
          obtain rfl := Option.some.inj (hl₁.symm.trans hl')
          refine counted_renewed (.committed ha hr) hcounted.settings rfl ?_ rfl
          rw [moves_concat, ← hcounted.settings]
          rfl
        | givenUp => cases hl'
    · have hcounted := h l (leaseOf_act_other ha hl)
      refine hcounted.goOn ?_ (fun hr => ha hr.lease?)
      rw [brought, if_neg ha]
      exact .refl l _

/-- What holds after any moves. -/
structure Tracks (w₀ : World) (ms : List Move) (w : World) : Prop where
  owned : Owned w.pool w.phases w.inquiries
  terms : Pool.SameTerms w₀.pool w.pool
  counted : ∀ id l, w.leaseOf id = some l → w₀.Counted id ms l

theorem tracks_moves (maxPollRecords now : Nat) (s : Subscription) (reader : RecordReader)
    (settings : IntakeSettings) (ms : List Move) :
    Tracks (start maxPollRecords now s reader settings) ms
      ((start maxPollRecords now s reader settings).moves ms) := by
  induction ms using List.reverseRecOn with
  | nil =>
    refine ⟨.start 0 s reader settings now, .refl _, fun id l hl => ?_⟩
    have hnone : ((start maxPollRecords now s reader settings).moves []).leaseOf id = none := rfl
    cases hnone.symm.trans hl
  | append_singleton ms m ih =>
    rw [moves_concat]
    exact ⟨owned_move ih.owned m, ih.terms.trans (sameTerms_move _ m),
      fun id l hl => counted_move ih.terms (ih.counted id) hl⟩

/-! ## Leases that are not to go on -/

/-- The time or the room of the lease is used up. -/
def Spent (w : World) (id : LeaseId) : Prop := ∃ l, w.leaseOf id = some l ∧ l.IsSpent w.env

/-- There is a reason why the lease is not to go on polling, and each later reason will follow from
one of these. -/
structure Halted (w : World) (id : LeaseId) : Prop where
  issued : id ≤ w.pool.lastLease
  halted : Woken w id ∨ Silent w id ∨ Spent w id

/-- Only a lease that is held answers whether to go on. -/
theorem held_of_reply {r : Reply} (hr : w.reply (.continuePolling id) = some r) :
    ∃ l, w.phases.find? id = some (.held l) ∧ r = .continued (l.continuePolling w.env).2 := by
  simp only [reply] at hr
  split at hr
  · rename_i l hph
    exact ⟨l, hph, (Option.some.inj hr).symm⟩
  · cases hr

theorem Halted.answer {r : Reply} (h : Halted w id) (howned : Owned w.pool w.phases w.inquiries)
    (hr : w.reply (.continuePolling id) = some r) : r = .continued false := by
  obtain ⟨l, hph, rfl⟩ := held_of_reply hr
  cases hcontinue : (l.continuePolling w.env).2 with
  | false => rfl
  | true =>
    obtain ⟨hfaulted, -, hraised, hspent⟩ := Lease.continuePolling_eq_true_iff.mp hcontinue
    obtain ⟨loan, hloan, hwoken⟩ | hsilent | ⟨l', hl', hspent'⟩ := h.halted
    · rw [signal_of_lease howned hph rfl] at hloan
      cases hloan
      cases hraised.symm.trans hwoken
    · exact absurd (hsilent.faulted hph) hfaulted
    · rw [leaseOf, hph] at hl'
      cases hl'
      exact absurd hspent' hspent

theorem halted_of_answer (howned : Owned w.pool w.phases w.inquiries)
    (hready : ∀ l, w.leaseOf id = some l → l.state = .readyToCommit → l.IsSpent w.env)
    (hr : w.reply (.continuePolling id) = some (.continued false)) : Halted w id := by
  obtain ⟨l, hph, hfalse⟩ := held_of_reply hr
  have hout := signal_of_lease howned hph rfl
  refine ⟨howned.issued _ (SortedMap.mem_of_find? hout), ?_⟩
  have hstop : ¬(l.continuePolling w.env).2 = true := by
    rw [← Reply.continued.inj hfalse]
    exact Bool.false_ne_true
  rw [Lease.continuePolling_eq_true_iff] at hstop
  have hl : w.leaseOf id = some l := leaseOf_eq_some_iff.mpr ⟨_, hph, rfl⟩
  by_cases hfaulted : l.state = .faulted
  · exact .inr (.inl ⟨_, hph, decide_eq_true hfaulted⟩)
  by_cases hraised : w.env.isRaised l.connection.signal = true
  · exact .inl ⟨_, hout, hraised⟩
  refine .inr (.inr ⟨l, hl, ?_⟩)
  by_cases hcommit : l.state = .readyToCommit
  · exact hready l hl hcommit
  · by_contra hspent
    exact hstop ⟨hfaulted, hcommit, Bool.eq_false_iff.mpr hraised, hspent⟩

/-- A lease whose time or room is used up gets it back only in a commit that succeeds. -/
theorem spent_act (hid : id ≤ w.pool.lastLease)
    (hr : a.lease? = some id → w.reply a ≠ some (.committed (.ok true))) (h : Spent w id) :
    Silent (w.act a) id ∨ Spent (w.act a) id := by
  have honward := (onward_step (act_step w a)).now
  obtain ⟨l, hl, hspent⟩ := h
  obtain ⟨ph, hph, hl⟩ := leaseOf_eq_some_iff.mp hl
  have hsame (hph' : (w.act a).phases.find? id = w.phases.find? id) : Spent (w.act a) id :=
    ⟨l, leaseOf_eq_some_iff.mpr ⟨ph, hph'.trans hph, hl⟩,
      (Lease.Continues.refl l _).isSpent honward hspent⟩
  cases hlease : a.lease? with
  | none =>
    obtain hph' | ⟨hnew, -⟩ := w.phase_act_off hlease id
    · exact .inr (hsame hph')
    · exact absurd (hnew ▸ hid) (Nat.not_succ_le_self _)
  | some id' =>
    by_cases heq : id = id'
    · subst heq
      obtain ⟨ph', hph', hfares⟩ := fares_act hlease hph hl
      cases hfares with
      | goesOn hl' hc hr' =>
        exact .inr ⟨_, leaseOf_eq_some_iff.mpr ⟨ph', hph', hl'⟩, hc.isSpent honward hspent⟩
      | commits hl' hr' => exact absurd hr' (hr hlease)
      | givenUp c discard => exact .inl ⟨_, hph', rfl⟩
    · exact .inr (hsame (phase_act_other hlease heq))

theorem halted_act (howned : Owned w.pool w.phases w.inquiries)
    (hr : a.lease? = some id → w.reply a ≠ some (.committed (.ok true))) (h : Halted w id) :
    Halted (w.act a) id where
  issued := Nat.le_trans h.issued (lastLease_step (act_step w a) howned)
  halted := by
    obtain hwoken | hsilent | hspent := h.halted
    · exact (woken_act a howned hwoken).imp_right .inl
    · exact .inr (.inl (silent_step (act_step w a) h.issued hsilent))
    · exact .inr (spent_act h.issued hr hspent)

theorem silent_dropCall {id' : LeaseId} (h : Silent w id) : Silent (w.dropCall id') id := by
  obtain heq | ⟨ph, l, hph, hl, heq⟩ := w.dropCall_cases id'
  · exact heq.symm ▸ h
  · rw [heq]
    refine h.insert (fun hid => ?_) rfl
    have hsilent := h.eq (hid ▸ hph)
    cases ph with
    | held l' =>
      cases hl
      exact hsilent
    | waiting _ _ | emitting _ _ _ => cases hsilent
    | opening _ _ | returning _ _ | ended => cases hl

theorem halted_dropCall {id' : LeaseId} (h : Halted w id) : Halted (w.dropCall id') id := by
  have hsame : (w.dropCall id').pool = w.pool ∧ (w.dropCall id').env = w.env := by
    obtain heq | ⟨ph, l, -, -, heq⟩ := w.dropCall_cases id' <;> rw [heq] <;> exact ⟨rfl, rfl⟩
  refine ⟨hsame.1 ▸ h.issued, ?_⟩
  obtain hwoken | hsilent | hspent := h.halted
  · left
    rw [Woken, hsame.1, hsame.2]
    exact hwoken
  · exact .inr (.inl (silent_dropCall hsilent))
  · right; right
    rw [Spent, leaseOf, lease?_dropCall, hsame.2]
    exact hspent

theorem halted_moves (howned : Owned w.pool w.phases w.inquiries) (h : Halted w id)
    (ms : List Move) (hr : ∀ xs a, xs ++ [.act a] <+: ms → a.lease? = some id →
      (w.moves xs).reply a ≠ some (.committed (.ok true))) :
    Owned (w.moves ms).pool (w.moves ms).phases (w.moves ms).inquiries ∧
      Halted (w.moves ms) id := by
  induction ms using List.reverseRecOn with
  | nil => exact ⟨howned, h⟩
  | append_singleton ms m ih =>
    obtain ⟨howned', h'⟩ := ih fun xs a hxs =>
      hr xs a (hxs.trans (List.prefix_append ms [m]))
    rw [moves_concat]
    refine ⟨owned_move howned' m, ?_⟩
    cases m with
    | act a => exact halted_act howned' (hr ms a List.prefix_rfl) h'
    | dropCall id' => exact halted_dropCall h'

/-! ## Runs -/

/-- A lease is told to go on only if it has not failed, nobody wakes it, and both time and room are
left of what it had when it was issued or last committed.  Once it is told not to go on it is told
so each time, until it commits. -/
theorem polling_stays_stopped (maxPollRecords now : Nat) (s : Subscription)
    (reader : RecordReader) (settings : IntakeSettings) (ms : List Move) (id : LeaseId) :
    let w₀ := start maxPollRecords now s reader settings
    let w := w₀.moves ms
    (w.reply (.continuePolling id) = some (.continued true) →
      ∃ l, w.leaseOf id = some l ∧ l.state ≠ .faulted ∧
        w.env.isRaised l.connection.signal = false ∧
        ∃ xs m ys, ms = xs ++ m :: ys ∧ w₀.LastRenewed id xs m ys ∧
          w.env.now < (w₀.moves (xs ++ [m])).env.now + settings.lease.maxUncommittedTime ∧
          (w₀.moves (xs ++ [m])).received id ys < settings.lease.maxRecords) ∧
    (w.reply (.continuePolling id) = some (.continued false) →
      ∀ later, (∀ xs a, xs ++ [.act a] <+: later → a.lease? = some id →
          ((w.act (.continuePolling id)).moves xs).reply a ≠ some (.committed (.ok true))) →
        ∀ r, ((w.act (.continuePolling id)).moves later).reply (.continuePolling id) = some r →
          r = .continued false) := by
  intro w₀ w
  obtain ⟨howned, -, hcounted⟩ := tracks_moves maxPollRecords now s reader settings ms
  refine ⟨fun hr => ?_, fun hr later hlater r => ?_⟩
  · obtain ⟨l, hph, htrue⟩ := held_of_reply hr
    obtain ⟨hfaulted, -, hraised, hspent⟩ :=
      Lease.continuePolling_eq_true_iff.mp (Reply.continued.inj htrue).symm
    obtain ⟨htime, hroom⟩ := Lease.not_isSpent_iff.mp hspent
    have hl : w.leaseOf id = some l := leaseOf_eq_some_iff.mpr ⟨_, hph, rfl⟩
    obtain ⟨hsettings, -, xs, m, ys, hms, hlast, hdeadline, hreceived⟩ := hcounted id l hl
    refine ⟨l, hl, hfaulted, hraised, xs, m, ys, hms, hlast, ?_, ?_⟩
    · rw [hdeadline] at htime
      exact htime
    · rw [hreceived, hsettings] at hroom
      exact hroom
  · have hhalted := halted_of_answer howned (fun l hl => (hcounted id l hl).ready) hr
    have hanswers : w.reply (.continuePolling id) ≠ some (.committed (.ok true)) := by
      rw [hr]
      nofun
    obtain ⟨howned', hhalted'⟩ := halted_moves (owned_step (act_step w _) howned)
      (halted_act howned (fun _ => hanswers) hhalted) later hlater
    exact hhalted'.answer howned'

/-- A lease is issued, and then polls as many messages as it may receive. -/
def pollTwo : List Move :=
  let message : Message := ⟨⟨"t", 0⟩, 0, none, some [123, 125], none, []⟩
  [.act (.onCluster (.produceMany [message, message])), .act (.request "s"), .act (.supply 1),
    .act (.poll 1), .dropCall 1]

/-- It polls again when there is nothing more, and does not wait for messages. -/
def pollAgain : List Move := [.act (.poll 1), .dropCall 1, .act (.advance 5)]

/-- The lease is told to go on when it was issued.  It is told not to once it has polled, and poll
and dropped call change nothing about it. -/
theorem polling_stays_stopped_pollTwo :
    let w₀ := start 10 0 (.partitions [("t", [0])]) Record.read { lease := { maxRecords := 2 } }
    let w := w₀.moves pollTwo
    let w' := (w.act (.continuePolling 1)).moves pollAgain
    (∃ l, (w₀.moves (pollTwo.take 3)).leaseOf 1 = some l ∧ l.state ≠ .faulted) ∧
      w₀.received 1 pollTwo = 2 ∧ w.reply (.continuePolling 1) = some (.continued false) ∧
      w'.reply (.continuePolling 1) = some (.continued false) := by
  have hgoes : ((start 10 0 (.partitions [("t", [0])]) Record.read
      { lease := { maxRecords := 2 } }).moves (pollTwo.take 3)).reply (.continuePolling 1) =
        some (.continued true) := by rfl
  have hstops : ((start 10 0 (.partitions [("t", [0])]) Record.read
      { lease := { maxRecords := 2 } }).moves pollTwo).reply (.continuePolling 1) =
        some (.continued false) := by rfl
  intro w₀ w w'
  have hanswers : (w'.reply (.continuePolling 1)).isSome = true := by decide +kernel
  obtain ⟨r, hr⟩ := Option.isSome_iff_exists.mp hanswers
  obtain ⟨hissued, -⟩ := polling_stays_stopped 10 0 (.partitions [("t", [0])]) Record.read
    { lease := { maxRecords := 2 } } (pollTwo.take 3) 1
  obtain ⟨-, hstays⟩ := polling_stays_stopped 10 0 (.partitions [("t", [0])]) Record.read
    { lease := { maxRecords := 2 } } pollTwo 1
  have hno : ∀ xs a, xs ++ [.act a] <+: pollAgain → a.lease? = some 1 →
      ((w.act (.continuePolling 1)).moves xs).reply a ≠ some (.committed (.ok true)) := by
    intro xs a hxs ha
    have hmem : Move.act a ∈ pollAgain := hxs.subset (by simp)
    obtain rfl | rfl : a = .poll 1 ∨ a = .advance 5 := by simpa [pollAgain] using hmem
    · exact reply_poll_ne_committed _ 1
    · cases ha
  obtain ⟨l, hl, hfaulted, -⟩ := hissued hgoes
  exact ⟨⟨l, hl, hfaulted⟩, by decide +kernel, hstops, hstays hstops pollAgain hno r hr ▸ hr⟩

end World
end RecordIntake
