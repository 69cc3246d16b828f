import RecordIntake.Proofs.Lending
import RecordIntake.Proofs.World

/-!
A call is the run of its steps.  Whatever a call on a pool or on a lease comes to when nothing
happens in between, its steps come to, one after the other.
-/
namespace RecordIntake

namespace World

variable {w w' w'' : World}

/-- Whether some run leads from one world to the other. -/
def Reaches (w w' : World) : Prop := ∃ as, w.run as = w'

theorem Reaches.refl (w : World) : Reaches w w := ⟨[], rfl⟩

theorem Reaches.trans (h : Reaches w w') (h' : Reaches w' w'') : Reaches w w'' := by
  obtain ⟨as, rfl⟩ := h
  obtain ⟨bs, rfl⟩ := h'
  exact ⟨as ++ bs, List.foldl_append⟩

theorem reaches_act (w : World) (a : Action) : Reaches w (w.act a) := ⟨[a], rfl⟩

/-- The world as far as one lease has got in it. -/
structure At (w : World) (id : LeaseId) (env : Environment) (p : Pool) (ph : Phase) : Prop where
  env : w.env = env
  pool : w.pool = p
  phase : w.phases.find? id = some ph

theorem at_setPhase (w : World) (id : LeaseId) (ph : Phase) :
    (w.setPhase id ph).At id w.env w.pool ph :=
  ⟨rfl, rfl, SortedMap.find?_insert_self ..⟩

theorem at_remember {id : LeaseId} {env : Environment} {p : Pool} {ph : Phase} (o : Occurrence)
    (h : w.At id env p ph) : (w.remember o).At id env p ph :=
  ⟨h.env, h.pool, h.phase⟩

/-! ## Calls on a pool -/

theorem obtain_reaches (w : World) (sink : String) :
    ∃ w', Reaches w w' ∧ w'.env = (w.pool.obtain w.env sink).1 ∧
      w'.pool = (w.pool.obtain w.env sink).2.1 ∧
        ∀ l, (w.pool.obtain w.env sink).2.2 = .ok (some l) →
          w'.phases.find? l.id = some (.held l) := by
  have hrequest := reaches_act w (.request sink)
  simp only [act, request] at hrequest
  unfold Pool.obtain
  cases hstart : w.pool.startObtain w.env with
  | mk env rest =>
    obtain ⟨p, o⟩ := rest
    rw [hstart] at hrequest
    cases o with
    | none => exact ⟨_, hrequest, rfl, rfl, fun l hl => by cases hl⟩
    | some o =>
      dsimp only at hrequest ⊢
      have hsupply := hrequest.trans (reaches_act _ (.supply o.lease))
      simp only [act, setPhase, SortedMap.find?_insert_self, supply] at hsupply
      cases hfinish : p.finishObtain env o sink with
      | mk env' rest =>
        obtain ⟨p', result⟩ := rest
        rw [hfinish] at hsupply
        cases result with
        | ok l =>
          refine ⟨_, hsupply, rfl, rfl, fun l' hl => ?_⟩
          cases hl
          obtain ⟨-, c, -, rfl⟩ := Pool.finishObtain_ok hfinish
          exact SortedMap.find?_insert_self ..
        | error e => exact ⟨_, hsupply, rfl, rfl, fun l hl => by cases hl⟩

theorem at_checkIn (w : World) (id : LeaseId) (c : Connection) (discard : Bool) :
    (w.checkIn id c discard).At id (w.pool.checkIn w.env id (some c) discard).1
      (w.pool.checkIn w.env id (some c) discard).2 .ended := by
  unfold checkIn
  dsimp only
  split
  · exact at_setPhase ..
  · exact at_remember _ (at_setPhase ..)

/-- A lease is given up and taken back. -/
theorem release_reaches {l : Lease} (hph : w.phases.find? l.id = some (.held l)) :
    ∃ w', Reaches w w' ∧
      w'.At l.id (w.pool.release w.env l).1 (w.pool.release w.env l).2 .ended := by
  have habandon := reaches_act w (.abandon l.id)
  simp only [act, hph, Option.bind_some, Phase.lease?, abandon] at habandon
  have hcheckIn := habandon.trans (reaches_act _ (.checkIn l.id))
  simp only [act, setPhase, SortedMap.find?_insert_self] at hcheckIn
  exact ⟨_, hcheckIn, at_checkIn ..⟩

theorem partitionCount_reaches (w : World) (topic : String) :
    ∃ w', Reaches w w' ∧ w'.env = (w.pool.partitionCount w.env topic).1 ∧
      w'.pool = (w.pool.partitionCount w.env topic).2.1 ∧ w'.phases = w.phases ∧
        w'.inquiries = w.inquiries := by
  have hinquire := reaches_act w .inquire
  simp only [act, inquire] at hinquire
  unfold Pool.partitionCount Pool.startQuery
  cases hsupply : w.pool.supplyQuery with
  | mk p s =>
    rw [hsupply] at hinquire
    cases s with
    | none => exact ⟨_, hinquire, rfl, rfl, rfl, rfl⟩
    | some s =>
      have hconnect := hinquire.trans (reaches_act _ (.connect 0))
      simp only [act, List.getElem?_cons_zero, connect] at hconnect
      dsimp only
      cases hquery : Pool.Supply.query p w.env s with
      | mk env result =>
        rw [hquery] at hconnect
        cases result with
        | error e => exact ⟨_, hconnect, rfl, rfl, rfl, rfl⟩
        | ok q =>
          have hask := hconnect.trans (reaches_act _ (.ask 0 topic))
          have hputBack := hask.trans (reaches_act _ (.putBack 0))
          exact ⟨_, hputBack, rfl, rfl, rfl, rfl⟩

/-! ## Calls on a lease -/

/-- How a phase shows whether all units were handed on. -/
def emitted (l : Lease) (errand : Errand) : Except IntakeError Unit → Phase
  | .ok () => .emitting l [] errand
  | .error _ => .held l

/-- Units are handed on one after the other, until one of them is refused. -/
theorem emitAll_reaches {id : LeaseId} {units : List Emission} {errand : Errand} {l : Lease}
    (hph : w.phases.find? id = some (.emitting l units errand)) :
    ∃ w', Reaches w w' ∧
      w'.At id (l.emitAll w.env units).1 w.pool
        (emitted (l.emitAll w.env units).2.1 errand (l.emitAll w.env units).2.2) := by
  induction units generalizing w l with
  | nil => exact ⟨w, .refl w, rfl, rfl, hph⟩
  | cons e units ih =>
    have hemit := reaches_act w (.emit id)
    simp only [act, hph, emit] at hemit
    unfold Lease.emitAll
    cases hone : l.emitOne w.env e with
    | mk env rest =>
      obtain ⟨l', result⟩ := rest
      rw [hone] at hemit
      cases result with
      | error fault => exact ⟨_, hemit, at_setPhase ..⟩
      | ok u =>
        have hnext := at_setPhase { w with env := env } id (.emitting l' units errand)
        obtain ⟨w', hreach, hat⟩ := ih hnext.phase
        exact ⟨w', hemit.trans hreach, hat⟩

theorem emit_nil_reaches {id : LeaseId} {l : Lease}
    (hph : w.phases.find? id = some (.emitting l [] .poll)) :
    Reaches w (w.setPhase id (.held l)) := by
  have hemit := reaches_act w (.emit id)
  simp only [act, hph, emit] at hemit
  exact hemit

theorem endPoll_reaches (w : World) (id : LeaseId) (l : Lease)
    (result : Except IntakeError (List Message)) :
    ∃ w', Reaches (w.endPoll id l result) w' ∧
      w'.At id (l.endPoll w.env result).1 w.pool (.held (l.endPoll w.env result).2.1) := by
  unfold endPoll Lease.endPoll
  cases htake : l.takeIn w.env result with
  | mk env rest =>
    obtain ⟨l', outcome⟩ := rest
    cases outcome with
    | error e => exact ⟨_, .refl _, at_setPhase ..⟩
    | ok taken =>
      obtain ⟨count, units⟩ := taken
      have hstart := at_setPhase { w with env := env } id (.emitting l' units .poll)
      obtain ⟨w', hreach, hat⟩ := emitAll_reaches hstart.phase
      rw [hstart.env] at hat
      dsimp only
      cases hall : l'.emitAll env units with
      | mk env' rest =>
        obtain ⟨l'', outcome⟩ := rest
        rw [hall] at hat
        cases outcome with
        | error e => exact ⟨w', hreach, hat⟩
        | ok u =>
          refine ⟨_, hreach.trans (emit_nil_reaches hat.phase), hat.env, hat.pool, ?_⟩
          exact SortedMap.find?_insert_self ..

/-- How a phase shows what a poll has come to. -/
def polled (l : Lease) : Progress (Except IntakeError Nat) → Phase
  | .waiting deadline => .waiting l deadline
  | .ended _ => .held l

theorem startPoll_reaches {id : LeaseId} {l : Lease} (hph : w.phases.find? id = some (.held l)) :
    ∃ w', Reaches w w' ∧ w'.At id (l.startPoll w.env).1 w.pool
      (polled (l.startPoll w.env).2.1 (l.startPoll w.env).2.2) := by
  have hpoll := reaches_act w (.poll id)
  simp only [act, hph, poll] at hpoll
  unfold Lease.startPoll
  split
  · exact ⟨w, .refl w, rfl, rfl, hph⟩
  · rename_i hl
    rw [if_neg hl] at hpoll
    cases hstart : w.env.startPoll l.connection l.settings.pollTimeout with
    | mk env rest =>
      obtain ⟨c, p⟩ := rest
      rw [hstart] at hpoll
      cases p with
      | waiting deadline => exact ⟨_, hpoll, at_setPhase ..⟩
      | ended result =>
        obtain ⟨w', hreach, hat⟩ := endPoll_reaches
          ({ w with env := env }.remember (.read id w.env.cluster l.connection c
            (Progress.ended result).messages)) id { l with state := .polling, connection := c }
          result
        exact ⟨w', hpoll.trans hreach, hat⟩

theorem resumePoll_reaches {id : LeaseId} {l : Lease} {deadline : Option Nat}
    (hph : w.phases.find? id = some (.waiting l deadline)) :
    ∃ w', Reaches w w' ∧ w'.At id (l.resumePoll w.env deadline).1 w.pool
      (polled (l.resumePoll w.env deadline).2.1 (l.resumePoll w.env deadline).2.2) := by
  have hresume := reaches_act w (.resume id)
  simp only [act, hph, resume] at hresume
  unfold Lease.resumePoll
  cases hcall : w.env.resumePoll l.connection deadline with
  | mk env p =>
    rw [hcall] at hresume
    cases p with
    | waiting deadline => exact ⟨_, hresume, at_setPhase ..⟩
    | ended result =>
      obtain ⟨w', hreach, hat⟩ := endPoll_reaches { w with env := env } id l result
      exact ⟨w', hresume.trans hreach, hat⟩

theorem at_finishCommit (w : World) (id : LeaseId) (l : Lease) :
    (w.finishCommit id l).At id (l.finishCommit w.env).1 w.pool
      (.held (l.finishCommit w.env).2.1) := by
  unfold finishCommit
  dsimp only
  split
  · split
    · exact at_setPhase ..
    · exact at_remember _ (at_setPhase ..)
  · exact at_setPhase ..

theorem commit_reaches {id : LeaseId} {l : Lease} (hph : w.phases.find? id = some (.held l)) :
    ∃ w', Reaches w w' ∧
      w'.At id (l.commit w.env).1 w.pool (.held (l.commit w.env).2.1) := by
  have hcommit := reaches_act w (.commit id)
  simp only [act, hph, commit] at hcommit
  unfold Lease.commit
  split
  · exact ⟨w, .refl w, rfl, rfl, hph⟩
  · rename_i hl
    rw [if_neg hl] at hcommit
    have hstart := at_setPhase w id (.emitting l.flush.1 l.flush.2 .commit)
    obtain ⟨w', hreach, hat⟩ := emitAll_reaches hstart.phase
    have hreach := hcommit.trans hreach
    rw [hstart.env] at hat
    dsimp only
    cases hall : l.flush.1.emitAll w.env l.flush.2 with
    | mk env rest =>
      obtain ⟨l', outcome⟩ := rest
      rw [hall] at hat
      cases outcome with
      | error e => exact ⟨w', hreach, hat⟩
      | ok u =>
        have hfinish := reaches_act w' (.emit id)
        simp only [act, hat.phase, emitted, emit] at hfinish
        have hdone := at_finishCommit w' id l'
        rw [hat.env, hat.pool] at hdone
        exact ⟨_, hreach.trans hfinish, hdone⟩

end World
end RecordIntake
