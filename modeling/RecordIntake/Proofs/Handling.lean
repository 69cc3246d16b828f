import RecordIntake.Proofs.Account
import RecordIntake.Proofs.Conservation
import RecordIntake.Proofs.Stints

/-!
What a lease asks of its accumulator in a run, and what its sink accepts of that.  As long as the
lease has not faulted, what the accumulator handed on is what the sink has accepted and what the
lease still has to emit, in this order.  The last that a poll asks is to seal what has expired, the
only thing that a commit asks is to seal everything, and both are asked at the time that it is.
-/
namespace RecordIntake
namespace Accumulator

variable {a : Accumulator}

theorem after_append (a : Accumulator) (cs ds : List Call) :
    a.after (cs ++ ds) = (a.after cs).after ds :=
  List.foldl_append

theorem outputs_append (a : Accumulator) (cs ds : List Call) :
    a.outputs (cs ++ ds) = a.outputs cs ++ (a.after cs).outputs ds := by
  induction cs generalizing a with
  | nil => rfl
  | cons c cs ih => exact congrArg (List.cons _) (ih _)

/-- The calls by which a poll is taken in. -/
def receiving (now : Nat) (ms : List Message) : List Call :=
  ms.map (Call.absorb · now) ++ [.takeExpired now]

theorem absorbAll_eq_calls (a : Accumulator) (now : Nat) (ms : List Message) :
    a.absorbAll now ms =
      (a.after (ms.map (Call.absorb · now)), (a.outputs (ms.map (Call.absorb · now))).flatten) := by
  induction ms generalizing a with
  | nil => rfl
  | cons m ms ih =>
    simp only [absorbAll, ih]
    rfl

theorem receive_eq_calls (a : Accumulator) (now : Nat) (ms : List Message) :
    a.receive now ms = (a.after (receiving now ms), (a.outputs (receiving now ms)).flatten) := by
  have hlast : ∀ b : Accumulator, (b.outputs [.takeExpired now]).flatten = (b.takeExpired now).2 :=
    fun b => List.append_nil _
  simp only [receive, absorbAll_eq_calls, receiving, after_append, outputs_append,
    List.flatten_append, hlast]
  rfl

end Accumulator

/-- The time that is given with a call. -/
def Accumulator.Call.time? : Accumulator.Call → Option Nat
  | .absorb _ now | .takeExpired now => some now
  | .flushAll | .discard => none

namespace Environment

theorem now_startPoll (env : Environment) (c : Connection) (timeout : Nat) :
    (env.startPoll c timeout).1.now = env.now := by
  unfold startPoll
  split
  · rename_i e env' h
    obtain ⟨faults, rfl⟩ := takeFault_eq h
    rfl
  · split
    · rfl
    · split
      · rfl
      · dsimp only
        split
        · rfl
        · split <;> rfl

theorem now_resumePoll (env : Environment) (c : Connection) (deadline : Option Nat) :
    (env.resumePoll c deadline).1.now = env.now := by
  unfold resumePoll
  split
  · rfl
  · split
    · rfl
    · split <;> rfl

end Environment

theorem Lease.keeps_finishCommit (l : Lease) (env : Environment) :
    (l.finishCommit env).2.1.accumulator = l.accumulator ∧
      (l.finishCommit env).2.1.sink = l.sink := by
  have hcommits := l.finishCommit_commits env
  generalize (l.finishCommit env).2.1 = l', (l.finishCommit env).1 = env',
    (l.finishCommit env).2.2 = outcome at hcommits ⊢
  cases hcommits <;> exact ⟨rfl, rfl⟩

/-- What a lease has asked of its accumulator, and what its sink has accepted, both in order. -/
structure Handling where
  calls : List Accumulator.Call := []
  accepted : List Emission := []

namespace Handling

def ask (h : Handling) (cs : List Accumulator.Call) : Handling := { h with calls := h.calls ++ cs }

def accept (h : Handling) (u : Emission) : Handling := { h with accepted := h.accepted ++ [u] }

/-- Takes in what a poll has brought until now. -/
def poll (h : Handling) (now : Nat) : Progress (Except IntakeError (List Message)) → Handling
  | .ended (.ok ms) => h.ask (Accumulator.receiving now ms)
  | .ended (.error _) | .waiting _ => h

end Handling

/-- What the lease has handled after an action on it. -/
def Phase.handle (ph : Phase) (env : Environment) (h : Handling) : Action → Handling
  | .supply _ =>
    match ph with
    | .opening _ _ => {}
    | _ => h
  | .poll _ =>
    match ph with
    | .held l =>
      if l.state = .faulted then h
      else
        let (env, _, p) := env.startPoll l.connection l.settings.pollTimeout
        h.poll env.now p
    | _ => h
  | .resume _ =>
    match ph with
    | .waiting l deadline =>
      let (env, p) := env.resumePoll l.connection deadline
      h.poll env.now p
    | _ => h
  | .commit _ =>
    match ph with
    | .held l => if l.state = .faulted then h else h.ask [.flushAll]
    | _ => h
  | .emit _ =>
    match ph with
    | .emitting l (u :: _) _ =>
      match (l.emitOne env u).2.2 with
      | .ok () => h.accept u
      | .error _ => h
    | _ => h
  | _ => h

namespace World

/-- What a lease has handled after one more action. -/
def handle (w : World) (id : LeaseId) (h : Handling) (a : Action) : Handling :=
  if a.lease? = some id then
    match w.phases.find? id with
    | some ph => ph.handle w.env h a
    | none => h
  else h

/-- What a lease has handled in a run since it was issued. -/
def handling (w : World) (id : LeaseId) (h : Handling) : List Action → Handling
  | [] => h
  | a :: as => (w.act a).handling id (w.handle id h a) as

end World

/-! ## Where a lease stands -/

namespace Handling

/-- What the lease works on is what it has handled, and no more.  What its sink has accepted is in
the journal. -/
structure Covers (h : Handling) (reader : RecordReader) (s : BatchSettings) (journal : List Event)
    (x : Work) : Prop where
  accumulator : x.lease.accumulator = (Accumulator.start reader s).after h.calls
  units : ((Accumulator.start reader s).outputs h.calls).flatten = h.accepted ++ x.units
  flushed : x.errand = .commit → ∃ cs, h.calls = cs ++ [.flushAll]
  shown : (h.accepted.reverse.map (Event.emitted x.lease.sink)).Sublist journal

/-- The phase of the lease agrees with what it has handled. -/
structure Follows (h : Handling) (reader : RecordReader) (s : BatchSettings) (journal : List Event)
    (ph : Phase) : Prop where
  work : ∀ x, ph.work? = some x → h.Covers reader s journal x
  polled : ∀ l units, ph = .emitting l units .poll → ∃ cs now, h.calls = cs ++ [.takeExpired now]

variable {h : Handling} {reader : RecordReader} {s : BatchSettings} {journal journal' : List Event}
  {l l' : Lease} {units : List Emission} {errand : Errand} {ph : Phase}

theorem Covers.ask (hc : h.Covers reader s journal ⟨l, [], .poll⟩) {cs : List Accumulator.Call}
    (hl' : (l'.accumulator, units) =
      (l.accumulator.after cs, (l.accumulator.outputs cs).flatten))
    (hsink : l'.sink = l.sink) (hflushed : errand = .commit → cs = [.flushAll]) :
    (h.ask cs).Covers reader s journal ⟨l', units, errand⟩ := by
  obtain ⟨hacc', rfl⟩ := Prod.mk.inj hl'
  have hacc : l.accumulator = (Accumulator.start reader s).after h.calls := hc.accumulator
  have hunits := hc.units
  rw [List.append_nil] at hunits
  refine ⟨?_, ?_, fun he => ⟨h.calls, by rw [Handling.ask, hflushed he]⟩, ?_⟩
  · rw [Handling.ask, Accumulator.after_append, ← hacc]
    exact hacc'
  · rw [Handling.ask, Accumulator.outputs_append, List.flatten_append, hunits, ← hacc]
  · show (h.accepted.reverse.map (Event.emitted l'.sink)).Sublist journal
    rw [hsink]
    exact hc.shown

theorem Follows.mono (hf : h.Follows reader s journal ph) (hj : journal.Sublist journal') :
    h.Follows reader s journal' ph where
  work x hx :=
    have hc := hf.work x hx
    ⟨hc.accumulator, hc.units, hc.flushed, hc.shown.trans hj⟩
  polled := hf.polled

theorem follows_idle (hph : ph.work? = none) : h.Follows reader s journal ph where
  work x hx := by
    rw [hph] at hx
    cases hx
  polled l units heq := by
    rw [heq] at hph
    cases hph

/-- The lease works on, and nothing was asked or accepted. -/
theorem Follows.held (hf : h.Follows reader s journal ph)
    (hwork : l'.state ≠ .faulted → ∃ l errand, ph.work? = some ⟨l, [], errand⟩ ∧
      l'.accumulator = l.accumulator ∧ l'.sink = l.sink) :
    h.Follows reader s journal (.held l') where
  work x hx := by
    by_cases hl' : l'.state = .faulted
    · rw [Phase.work?, if_pos hl'] at hx
      cases hx
    · rw [Phase.work?, if_neg hl'] at hx
      cases hx
      obtain ⟨l, errand, hl, hacc, hsink⟩ := hwork hl'
      have hc := hf.work _ hl
      refine ⟨hacc.trans hc.accumulator, hc.units, (fun he => by cases he), ?_⟩
      show (h.accepted.reverse.map (Event.emitted l'.sink)).Sublist journal
      rw [hsink]
      exact hc.shown
  polled l units heq := by cases heq

end Handling

namespace World

variable {w : World} {id : LeaseId} {h : Handling} {l : Lease} {reader : RecordReader}
  {s : BatchSettings} {journal : List Event}

theorem follows_waiting (hc : h.Covers reader s journal ⟨l, [], .poll⟩)
    (deadline : Option Nat) : h.Follows reader s journal (.waiting l deadline) where
  work x hx := by
    cases hx
    exact hc
  polled l units heq := by cases heq

/-- What a poll has brought is due, or it has failed. -/
theorem follows_endPoll (hc : h.Covers reader s journal ⟨l, [], .poll⟩)
    (w : World) (id : LeaseId) (result : Except IntakeError (List Message)) {ph : Phase}
    (hph : (w.endPoll id l result).phases.find? id = some ph) :
    (h.poll w.env.now (.ended result)).Follows reader s journal ph := by
  unfold endPoll at hph
  cases result with
  | error e =>
    rw [l.takeIn_error] at hph
    obtain rfl := Option.some.inj ((SortedMap.find?_insert_self ..).symm.trans hph)
    exact Handling.follows_idle (by simp [Phase.work?])
  | ok ms =>
    obtain ⟨env, -, hin⟩ := l.takeIn_ok w.env ms
    rw [hin] at hph
    obtain rfl := Option.some.inj ((SortedMap.find?_insert_self ..).symm.trans hph)
    refine ⟨fun x hx => ?_, fun _ _ _ =>
      ⟨h.calls ++ ms.map (Accumulator.Call.absorb · w.env.now), w.env.now, ?_⟩⟩
    · cases hx
      exact hc.ask (l.accumulator.receive_eq_calls w.env.now ms) rfl fun he => by cases he
    · rw [Handling.poll, Handling.ask, Accumulator.receiving, List.append_assoc]

theorem follows_poll (hl : l.state ≠ .faulted)
    (hc : h.Covers reader s journal ⟨l, [], .poll⟩) (w : World) (id : LeaseId) {ph : Phase}
    (hph : (w.poll id l).phases.find? id = some ph) :
    ((Phase.held l).handle w.env h (.poll id)).Follows reader s journal ph := by
  simp only [Phase.handle, if_neg hl]
  rw [poll, if_neg hl] at hph
  split at hph
  rename_i env c p he
  rw [he]
  cases p with
  | waiting deadline =>
    obtain rfl := Option.some.inj ((SortedMap.find?_insert_self ..).symm.trans hph)
    exact follows_waiting (l := { l with state := .polling, connection := c })
      ⟨hc.accumulator, hc.units, hc.flushed, hc.shown⟩ deadline
  | ended result =>
    exact follows_endPoll (l := { l with state := .polling, connection := c })
      ⟨hc.accumulator, hc.units, hc.flushed, hc.shown⟩ _ id result hph

theorem follows_resume (hc : h.Covers reader s journal ⟨l, [], .poll⟩)
    (w : World) (id : LeaseId) (deadline : Option Nat) {ph : Phase}
    (hph : (w.resume id l deadline).phases.find? id = some ph) :
    ((Phase.waiting l deadline).handle w.env h (.resume id)).Follows reader s journal ph := by
  simp only [Phase.handle]
  unfold resume at hph
  split at hph <;> rename_i he <;> rw [he]
  · obtain rfl := Option.some.inj ((SortedMap.find?_insert_self ..).symm.trans hph)
    exact follows_waiting hc _
  · exact follows_endPoll hc _ id _ hph

theorem follows_emit {units : List Emission} {errand : Errand} {w : World}
    (hf : h.Follows reader s w.env.journal (.emitting l units errand)) (id : LeaseId)
    (hj : w.env.journal.Sublist (w.emit id l units errand).env.journal) {ph : Phase}
    (hph : (w.emit id l units errand).phases.find? id = some ph) :
    ((Phase.emitting l units errand).handle w.env h (.emit id)).Follows reader s
      (w.emit id l units errand).env.journal ph := by
  have hc := hf.work _ rfl
  cases units with
  | cons u units =>
    simp only [Phase.handle]
    simp only [emit] at hj hph ⊢
    cases hone : l.emitOne w.env u with
    | mk env rest =>
      obtain ⟨l', result⟩ := rest
      rw [hone] at hj hph
      cases result with
      | error fault =>
        obtain ⟨rfl, -⟩ := Lease.emitOne_error hone
        obtain rfl := Option.some.inj ((SortedMap.find?_insert_self ..).symm.trans hph)
        exact Handling.follows_idle (by simp [Phase.work?])
      | ok v =>
        obtain ⟨rfl, -, hshown⟩ := Lease.emitOne_ok hone
        obtain rfl := Option.some.inj ((SortedMap.find?_insert_self ..).symm.trans hph)
        refine ⟨fun x hx => ?_, fun l' units' heq => ?_⟩
        · cases hx
          refine ⟨hc.accumulator, ?_, hc.flushed, ?_⟩
          · rw [Handling.accept, List.append_assoc]
            exact hc.units
          · show List.Sublist _ env.journal
            rw [hshown, Handling.accept, List.reverse_append]
            exact hc.shown.cons_cons _
        · cases heq
          exact hf.polled _ _ rfl
  | nil =>
    refine Handling.Follows.mono ?_ hj
    show h.Follows reader s w.env.journal ph
    cases errand with
    | poll =>
      obtain rfl := Option.some.inj ((SortedMap.find?_insert_self ..).symm.trans hph)
      exact hf.held fun _ => ⟨l, .poll, rfl, rfl, rfl⟩
    | commit =>
      have hdone := (at_finishCommit w id l).phase
      obtain rfl := Option.some.inj (hdone.symm.trans hph)
      exact hf.held fun _ => ⟨l, .commit, rfl, l.keeps_finishCommit w.env⟩

/-! ## Every step -/

/-- Nothing is struck from the journal. -/
theorem journal_act (w : World) (a : Action) : w.env.journal.Sublist (w.act a).env.journal := by
  have hsteady : ∀ {env : Environment}, w.env.Steady env → w.env.journal.Sublist env.journal := by
    intro env h
    obtain ⟨es, -, hj⟩ := h.journal
    exact hj ▸ List.sublist_append_right ..
  have hmoves := moves_of_step (act_step w a)
  generalize w.act a = w' at hmoves ⊢
  cases hmoves with
  | calm h => exact hsteady h.steady
  | lend _ h | read _ _ h | absorb _ _ h | abandon _ _ h | checkIn _ h => exact hsteady h
  | accept _ _ hj | commit _ _ _ hj | refuse _ _ hj => exact hj ▸ List.sublist_cons_self ..

/-- A lease that has just been issued has handled nothing. -/
theorem follows_supply {o : Offer} {sink : String} {ph : Phase}
    (hph : (w.supply id o sink).phases.find? id = some ph) :
    ((Phase.opening o sink).handle w.env h (.supply id)).Follows w.pool.reader
      w.pool.settings.batch journal ph := by
  unfold supply at hph
  split at hph
  · rename_i env p l hr
    obtain rfl := Option.some.inj ((SortedMap.find?_insert_self ..).symm.trans hph)
    obtain ⟨rfl, c, -, rfl⟩ := Pool.finishObtain_ok hr
    refine ⟨fun x hx => ?_, fun _ _ heq => by cases heq⟩
    cases hx
    exact ⟨rfl, rfl, (fun he => by cases he), List.nil_sublist _⟩
  · obtain rfl := Option.some.inj ((SortedMap.find?_insert_self ..).symm.trans hph)
    exact Handling.follows_idle rfl

theorem follows_continuePolling (hf : h.Follows reader s journal (.held l)) {ph : Phase}
    (hph : (w.continuePolling id l).phases.find? id = some ph) : h.Follows reader s journal ph := by
  obtain rfl := Option.some.inj ((SortedMap.find?_insert_self ..).symm.trans hph)
  obtain ⟨state, heq, hfault⟩ := l.continuePolling_eq w.env
  rw [heq]
  exact hf.held fun hstate => ⟨l, .poll, if_neg fun hl => hstate (hfault hl), rfl, rfl⟩

/-- What a commit has to emit first is all that was open. -/
theorem follows_commit (hl : l.state ≠ .faulted) (hc : h.Covers reader s journal ⟨l, [], .poll⟩)
    (w : World) (id : LeaseId) {ph : Phase} (hph : (w.commit id l).phases.find? id = some ph) :
    ((Phase.held l).handle w.env h (.commit id)).Follows reader s journal ph := by
  rw [commit, if_neg hl] at hph
  obtain rfl := Option.some.inj ((SortedMap.find?_insert_self ..).symm.trans hph)
  simp only [Phase.handle, if_neg hl]
  refine ⟨fun x hx => ?_, fun _ _ heq => by cases heq⟩
  cases hx
  exact hc.ask (Prod.ext rfl (List.append_nil _).symm) rfl fun _ => rfl

/-- An action on the lease by which nothing is emitted. -/
theorem follows_silent {ph ph' : Phase} {a : Action} (ha : a.lease? = some id)
    (he : a.emits = false) (hph : w.phases.find? id = some ph)
    (hf : h.Follows w.pool.reader w.pool.settings.batch journal ph)
    (hph' : (w.act a).phases.find? id = some ph') :
    (ph.handle w.env h a).Follows w.pool.reader w.pool.settings.batch journal ph' := by
  -- In any other phase than the one it needs, an action does nothing.
  cases a with
  | emit id' => cases he
  | supply id' =>
    cases ha
    cases ph with
    | opening o sink =>
      simp only [act, hph] at hph'
      exact follows_supply hph'
    | _ =>
      simp only [act, hph] at hph'
      cases hph'
      exact hf
  | continuePolling id' =>
    cases ha
    cases ph with
    | held l =>
      simp only [act, hph] at hph'
      exact follows_continuePolling hf hph'
    | _ =>
      simp only [act, hph] at hph'
      cases hph'
      exact hf
  | poll id' =>
    cases ha
    cases ph with
    | held l =>
      simp only [act, hph] at hph'
      by_cases hl : l.state = .faulted
      · rw [poll, if_pos hl] at hph'
        cases hph.symm.trans hph'
        simp only [Phase.handle, if_pos hl]
        exact hf
      · exact follows_poll hl (hf.work _ (if_neg hl)) w id hph'
    | _ =>
      simp only [act, hph] at hph'
      cases hph'
      exact hf
  | resume id' =>
    cases ha
    cases ph with
    | waiting l deadline =>
      simp only [act, hph] at hph'
      exact follows_resume (hf.work _ rfl) w id deadline hph'
    | _ =>
      simp only [act, hph] at hph'
      cases hph'
      exact hf
  | commit id' =>
    cases ha
    cases ph with
    | held l =>
      simp only [act, hph] at hph'
      by_cases hl : l.state = .faulted
      · rw [commit, if_pos hl] at hph'
        cases hph.symm.trans hph'
        simp only [Phase.handle, if_pos hl]
        exact hf
      · exact follows_commit hl (hf.work _ (if_neg hl)) w id hph'
    | _ =>
      simp only [act, hph] at hph'
      cases hph'
      exact hf
  | abandon id' =>
    cases ha
    show h.Follows _ _ _ _
    simp only [act, hph, Option.bind_some] at hph'
    split at hph'
    · obtain rfl := Option.some.inj ((SortedMap.find?_insert_self ..).symm.trans hph')
      exact Handling.follows_idle rfl
    · cases hph.symm.trans hph'
      exact hf
  | checkIn id' =>
    cases ha
    cases ph with
    | returning c discard =>
      cases (phase_checkIn hph).symm.trans hph'
      exact Handling.follows_idle rfl
    | _ =>
      simp only [act, hph] at hph'
      cases hph'
      exact hf
  | _ => cases ha

/-- An action on the lease. -/
theorem follows_act {ph ph' : Phase} {a : Action} (ha : a.lease? = some id)
    (hph : w.phases.find? id = some ph)
    (hf : h.Follows w.pool.reader w.pool.settings.batch w.env.journal ph)
    (hph' : (w.act a).phases.find? id = some ph') :
    (ph.handle w.env h a).Follows w.pool.reader w.pool.settings.batch (w.act a).env.journal
      ph' := by
  have hj := w.journal_act a
  cases he : a.emits with
  | false => exact (follows_silent ha he hph hf hph').mono hj
  | true =>
    cases a with
    | emit id' =>
      cases ha
      cases ph with
      | emitting l units errand =>
        simp only [act, hph] at hj hph' ⊢
        exact follows_emit hf id hj hph'
      | _ =>
        simp only [act, hph] at hph' ⊢
        cases hph'
        exact hf
    | _ => cases he

/-- An action on a lease needs one. -/
theorem phase_of_act {a : Action} (ha : a.lease? = some id) {ph' : Phase}
    (hph' : (w.act a).phases.find? id = some ph') : ∃ ph, w.phases.find? id = some ph := by
  cases hph : w.phases.find? id with
  | some ph => exact ⟨ph, rfl⟩
  | none =>
    have hstay : w.act a = w := by
      cases a with
      | supply | continuePolling | poll | resume | commit | emit | abandon | checkIn =>
        cases ha
        simp only [act, hph, Option.bind_none]
      | _ => cases ha
    rw [hstay, hph] at hph'
    cases hph'

/-- Any other action leaves the lease where it is, unless it decides to issue it. -/
theorem phase_act_off {a : Action} (ha : a.lease? = none) (id : LeaseId) :
    (w.act a).phases.find? id = w.phases.find? id ∨
      id = w.pool.lastLease + 1 ∧ ∃ o sink, (w.act a).phases.find? id = some (.opening o sink) := by
  have hsame : (w.act a).phases = w.phases → (w.act a).phases.find? id = w.phases.find? id :=
    fun h => by rw [h]
  cases a with
  | request sink =>
    simp only [act, request]
    split
    · exact .inl rfl
    · rename_i env pool o hstart
      simp only [setPhase, SortedMap.find?_insert]
      split
      · rename_i hid
        exact .inr ⟨hid.trans (offer_lease hstart), o, sink, rfl⟩
      · exact .inl rfl
  | onCluster a =>
    refine .inl (hsame ?_)
    simp only [act, onCluster]
    split <;> rfl
  | inquire =>
    refine .inl (hsame ?_)
    simp only [act, inquire]
    split <;> rfl
  | connect i =>
    refine .inl (hsame ?_)
    simp only [act, connect]
    split
    · split <;> rfl
    · rfl
  | ask i topic =>
    refine .inl (hsame ?_)
    simp only [act]
    split <;> rfl
  | putBack i =>
    refine .inl (hsame ?_)
    simp only [act]
    split <;> rfl
  | advance | wake | evictIdle | close => exact .inl rfl
  | _ => cases ha

/-- What the lease has handled, and the phase that it is in. -/
def Handles (w : World) (id : LeaseId) (h : Handling) : Prop :=
  ∀ ph, w.phases.find? id = some ph →
    h.Follows w.pool.reader w.pool.settings.batch w.env.journal ph

theorem handles_act (hh : Handles w id h) (a : Action) : Handles (w.act a) id (w.handle id h a) := by
  intro ph' hph'
  have hterms := sameTerms_step (act_step w a)
  rw [hterms.reader, hterms.settings]
  cases ha : a.lease? with
  | none =>
    have hnone : w.handle id h a = h := if_neg fun h => by cases ha.symm.trans h
    rw [hnone]
    obtain hsame | ⟨-, o, sink, hopening⟩ := w.phase_act_off ha id
    · exact (hh ph' (hsame.symm.trans hph')).mono (w.journal_act a)
    · obtain rfl := Option.some.inj (hopening.symm.trans hph')
      exact Handling.follows_idle rfl
  | some id' =>
    by_cases hid : id' = id
    · subst hid
      obtain ⟨ph, hph⟩ := phase_of_act ha hph'
      have hown : w.handle id' h a = ph.handle w.env h a := by
        rw [handle, if_pos ha, hph]
      rw [hown]
      exact follows_act ha hph (hh ph hph) hph'
    · have hother : w.handle id h a = h := if_neg fun h => hid (Option.some.inj (ha.symm.trans h))
      rw [hother]
      rw [phase_act_other ha (Ne.symm hid)] at hph'
      exact (hh ph' hph').mono (w.journal_act a)

theorem handles_run (hh : Handles w id h) (as : List Action) :
    Handles (w.run as) id (w.handling id h as) := by
  induction as generalizing w h with
  | nil => exact hh
  | cons a as ih => exact ih (handles_act hh a)

end World

/-! ## What was asked, and when -/

namespace Handling

variable {h : Handling}

theorem whole_poll (hwhole : .discard ∉ h.calls) (now : Nat)
    (p : Progress (Except IntakeError (List Message))) : .discard ∉ (h.poll now p).calls := by
  cases p with
  | waiting deadline => exact hwhole
  | ended result =>
    cases result with
    | error e => exact hwhole
    | ok ms => simpa [poll, ask, Accumulator.receiving] using hwhole

/-- The calls came in the order of the times that they give, and none gives a later one. -/
structure Timely (h : Handling) (now : Nat) : Prop where
  ascends : (h.calls.filterMap Accumulator.Call.time?).Pairwise (· ≤ ·)
  past : ∀ t ∈ h.calls.filterMap Accumulator.Call.time?, t ≤ now

theorem Timely.mono {now now' : Nat} (ht : h.Timely now) (hnow : now ≤ now') : h.Timely now' where
  ascends := ht.ascends
  past t hmem := Nat.le_trans (ht.past t hmem) hnow

theorem timely_empty (now : Nat) : Timely {} now where
  ascends := .nil
  past t hmem := by cases hmem

theorem Timely.ask {now : Nat} (ht : h.Timely now) {cs : List Accumulator.Call}
    (hcs : ∀ t ∈ cs.filterMap Accumulator.Call.time?, t = now) : (h.ask cs).Timely now where
  ascends := by
    rw [Handling.ask, List.filterMap_append, List.pairwise_append]
    refine ⟨ht.ascends, List.pairwise_of_forall_mem_list fun t hmem t' ht' => ?_,
      fun t hmem t' ht' => ?_⟩
    · exact Nat.le_of_eq ((hcs t hmem).trans (hcs t' ht').symm)
    · rw [hcs t' ht']
      exact ht.past t hmem
  past t hmem := by
    rw [Handling.ask, List.filterMap_append] at hmem
    obtain hmem | hmem := List.mem_append.mp hmem
    · exact ht.past t hmem
    · exact Nat.le_of_eq (hcs t hmem)

theorem Timely.poll {now : Nat} (ht : h.Timely now)
    (p : Progress (Except IntakeError (List Message))) : (h.poll now p).Timely now := by
  cases p with
  | waiting deadline => exact ht
  | ended result =>
    cases result with
    | error e => exact ht
    | ok ms =>
      refine ht.ask fun t hmem => ?_
      rw [Accumulator.receiving, List.filterMap_append, List.filterMap_map] at hmem
      obtain hmem | hmem := List.mem_append.mp hmem
      · obtain ⟨m, -, hm⟩ := List.mem_filterMap.mp hmem
        exact (Option.some.inj hm).symm
      · exact List.mem_singleton.mp hmem

end Handling

/-- With one action a lease takes in a poll, flushes, or has a unit accepted, unless it is only
issued by it or handles nothing. -/
theorem Phase.handle_preserves {P : Handling → Prop} {env : Environment} {h : Handling}
    (hstay : P h) (hissued : P {}) (hpoll : ∀ p, P (h.poll env.now p)) (hflush : P (h.ask [.flushAll]))
    (haccept : ∀ u, P (h.accept u)) (ph : Phase) (a : Action) : P (ph.handle env h a) := by
  unfold handle
  split
  · split
    · exact hissued
    · exact hstay
  · split
    · split
      · exact hstay
      · rename_i l hl
        have hnow := env.now_startPoll l.connection l.settings.pollTimeout
        show P (h.poll (env.startPoll l.connection l.settings.pollTimeout).1.now _)
        rw [hnow]
        exact hpoll _
    · exact hstay
  · split
    · rename_i l deadline
      have hnow := env.now_resumePoll l.connection deadline
      show P (h.poll (env.resumePoll l.connection deadline).1.now _)
      rw [hnow]
      exact hpoll _
    · exact hstay
  · split
    · split
      · exact hstay
      · exact hflush
    · exact hstay
  · split
    · split
      · exact haccept _
      · exact hstay
    · exact hstay
  · exact hstay

namespace World

variable {w : World} {id : LeaseId} {h : Handling}

theorem handle_preserves {P : Handling → Prop} (hstay : P h) (hissued : P {})
    (hpoll : ∀ p, P (h.poll w.env.now p)) (hflush : P (h.ask [.flushAll]))
    (haccept : ∀ u, P (h.accept u)) (a : Action) : P (w.handle id h a) := by
  unfold handle
  split
  · split
    · exact Phase.handle_preserves hstay hissued hpoll hflush haccept _ a
    · exact hstay
  · exact hstay

/-- A lease never asks its accumulator to drop anything. -/
theorem whole_handling (hwhole : .discard ∉ h.calls) (as : List Action) :
    .discard ∉ (w.handling id h as).calls := by
  induction as generalizing w h with
  | nil => exact hwhole
  | cons a as ih =>
    refine ih (handle_preserves (P := fun h => .discard ∉ h.calls) hwhole List.not_mem_nil
      ?_ ?_ ?_ a)
    · exact Handling.whole_poll hwhole w.env.now
    · simpa [Handling.ask] using hwhole
    · exact fun _ => hwhole

/-- A lease tells its accumulator what time it is. -/
theorem timely_handling (ht : h.Timely w.env.now) (as : List Action) :
    (w.handling id h as).Timely (w.run as).env.now := by
  induction as generalizing w h with
  | nil => exact ht
  | cons a as ih =>
    have hact : (w.handle id h a).Timely w.env.now := by
      refine handle_preserves (P := (·.Timely w.env.now)) ht (Handling.timely_empty _) ?_ ?_ ?_ a
      · exact fun p => ht.poll p
      · exact ht.ask fun t hmem => by cases hmem
      · exact fun _ => ⟨ht.ascends, ht.past⟩
    exact ih (hact.mono (onward_step (act_step w a)).now)

end World
end RecordIntake
