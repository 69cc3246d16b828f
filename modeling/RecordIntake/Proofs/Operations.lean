import RecordIntake.Proofs.Dealing

/-!
Calls on a pool that are over before anything else happens.  Such a call is a run of steps that ends
with no connection on its way: none is to be opened, to come back, or to be asked through.
-/
namespace RecordIntake

/-- A whole call on the pool, a part of a call on a lease, or something that happens outside.  A
lease can be released at any time. -/
inductive Operation where
  | obtain (sink : String)
  | release (id : LeaseId)
  | partitionCount (topic : String)
  | evictIdle
  | close
  | advance (ms : Nat)
  | onCluster (a : Scenario.ClusterAction)
  | wake (h : LeaseHandle)
  | continuePolling (id : LeaseId)
  | poll (id : LeaseId)
  | resume (id : LeaseId)
  | commit (id : LeaseId)
  | emit (id : LeaseId)

namespace World

/-- The steps of an operation. -/
def steps (w : World) : Operation → List Action
  | .obtain sink => [.request sink, .supply (w.pool.lastLease + 1)]
  | .release id => [.abandon id, .checkIn id]
  | .partitionCount topic => [.inquire, .connect 0, .ask 0 topic, .putBack 0]
  | .evictIdle => [.evictIdle]
  | .close => [.close]
  | .advance ms => [.advance ms]
  | .onCluster a => [.onCluster a]
  | .wake h => [.wake h]
  | .continuePolling id => [.continuePolling id]
  | .poll id => [.poll id]
  | .resume id => [.resume id]
  | .commit id => [.commit id]
  | .emit id => [.emit id]

def perform (w : World) (op : Operation) : World := w.run (w.steps op)

def performAll (w : World) (ops : List Operation) : World := ops.foldl perform w

/-- Operations are runs. -/
theorem performAll_run (w : World) (ops : List Operation) : ∃ as, w.performAll ops = w.run as := by
  induction ops generalizing w with
  | nil => exact ⟨[], rfl⟩
  | cons op ops ih =>
    obtain ⟨as, h⟩ := ih (w.perform op)
    exact ⟨w.steps op ++ as, h.trans List.foldl_append.symm⟩

/-- Nothing is on its way: each lease is held by someone or over. -/
structure AtRest (w : World) : Prop where
  sorted : w.phases.Sorted
  phases : ∀ id ph, w.phases.find? id = some ph → ph = .ended ∨ ∃ l, ph.lease? = some l
  inquiries : w.inquiries = []

variable {w w' : World}

theorem AtRest.setPhase (h : AtRest w) {id : LeaseId} {ph : Phase}
    (hph : ph = .ended ∨ ∃ l, ph.lease? = some l) : AtRest (w.setPhase id ph) where
  sorted := SortedMap.sorted_insert h.sorted id ph
  inquiries := h.inquiries
  phases id' ph' h' := by
    change SortedMap.find? id' (w.phases.insert id ph) = _ at h'
    rw [SortedMap.find?_insert] at h'
    split at h'
    · cases h'
      exact hph
    · exact h.phases id' ph' h'

/-- The phase that a lease had meanwhile does not matter. -/
theorem AtRest.replaces {id : LeaseId} {ph₀ ph : Phase} (h : AtRest w)
    (hph : ph = .ended ∨ ∃ l, ph.lease? = some l) {w' : World}
    (hphases : w'.phases = (w.phases.insert id ph₀).insert id ph)
    (hinquiries : w'.inquiries = w.inquiries) : AtRest w' where
  sorted := hphases ▸ SortedMap.sorted_insert (SortedMap.sorted_insert h.sorted id ph₀) id ph
  inquiries := hinquiries.trans h.inquiries
  phases id' ph' h' := by
    rw [hphases, SortedMap.find?_insert] at h'
    split at h'
    · cases h'
      exact hph
    · rename_i hne
      rw [SortedMap.find?_insert, if_neg hne] at h'
      exact h.phases id' ph' h'

theorem AtRest.proceeds (h : AtRest w) (hp : Proceeds w w') : AtRest w' := by
  cases hp with
  | outside hr => exact ⟨h.sorted, h.phases, h.inquiries⟩
  | @lease id ph ph' l l' env history hph hl hl' hr hid =>
    have hset : AtRest (w.setPhase id ph') := h.setPhase (.inr ⟨l', hl'⟩)
    exact ⟨hset.sorted, hset.phases, hset.inquiries⟩

theorem AtRest.not_opening (h : AtRest w) {id : LeaseId} {o : Offer} {sink : String} :
    w.phases.find? id ≠ some (.opening o sink) := by
  intro hph
  obtain hended | ⟨l, hl⟩ := h.phases id _ hph
  · cases hended
  · cases hl

theorem AtRest.not_returning (h : AtRest w) {id : LeaseId} {c : Connection} {discard : Bool} :
    w.phases.find? id ≠ some (.returning c discard) := by
  intro hph
  obtain hended | ⟨l, hl⟩ := h.phases id _ hph
  · cases hended
  · cases hl

theorem AtRest.supply (h : AtRest w) (id : LeaseId) : w.act (.supply id) = w := by
  simp only [act]
  split
  · exact absurd ‹_› h.not_opening
  · rfl

theorem AtRest.checkIn (h : AtRest w) (id : LeaseId) : w.act (.checkIn id) = w := by
  simp only [act]
  split
  · exact absurd ‹_› h.not_returning
  · rfl

/-! ## Calls on the pool -/

theorem perform_obtain (h : AtRest w) (sink : String) :
    AtRest (w.perform (.obtain sink)) ∧
      (w.perform (.obtain sink)).env = (w.pool.obtain w.env sink).1 ∧
      (w.perform (.obtain sink)).pool = (w.pool.obtain w.env sink).2.1 := by
  show AtRest ((w.request sink).act (.supply (w.pool.lastLease + 1))) ∧
    ((w.request sink).act (.supply (w.pool.lastLease + 1))).env = _ ∧
    ((w.request sink).act (.supply (w.pool.lastLease + 1))).pool = _
  unfold request Pool.obtain
  cases hstart : w.pool.startObtain w.env with
  | mk env rest =>
    obtain ⟨p, o⟩ := rest
    cases o with
    | none =>
      have hrest : AtRest { w with env := env, pool := p } := ⟨h.sorted, h.phases, h.inquiries⟩
      dsimp only
      rw [hrest.supply]
      exact ⟨hrest, rfl, rfl⟩
    | some o =>
      rw [← offer_lease hstart]
      simp only [act, World.setPhase, SortedMap.find?_insert_self]
      unfold supply
      cases p.finishObtain env o sink with
      | mk env' rest =>
        obtain ⟨p', result⟩ := rest
        cases result with
        | ok l => exact ⟨h.replaces (.inr ⟨l, rfl⟩) rfl rfl, rfl, rfl⟩
        | error e => exact ⟨h.replaces (.inl rfl) rfl rfl, rfl, rfl⟩

theorem perform_release_run {id : LeaseId} {ph : Phase} {l : Lease}
    (hph : w.phases.find? id = some ph) (hl : ph.lease? = some l) :
    w.perform (.release id) =
      (w.abandon id l).checkIn id (l.abandon w.env).2.1 (l.abandon w.env).2.2 := by
  show (w.act (.abandon id)).act (.checkIn id) = _
  simp only [act, hph, Option.bind_some, hl]
  unfold World.abandon
  simp only [World.setPhase, SortedMap.find?_insert_self]

theorem perform_release {id : LeaseId} {ph : Phase} {l : Lease}
    (hph : w.phases.find? id = some ph) (hl : ph.lease? = some l) (hid : l.id = id) :
    (w.perform (.release id)).env = (w.pool.release w.env l).1 ∧
      (w.perform (.release id)).pool = (w.pool.release w.env l).2 := by
  rw [perform_release_run hph hl]
  obtain ⟨henv, hpool, -, -⟩ := checkIn_frame (w.abandon id l) id (l.abandon w.env).2.1
    (l.abandon w.env).2.2
  rw [henv, hpool, ← hid]
  exact ⟨rfl, rfl⟩

theorem AtRest.release (h : AtRest w) (id : LeaseId) : AtRest (w.perform (.release id)) := by
  cases hph : w.phases.find? id with
  | none =>
    show AtRest ((w.act (.abandon id)).act (.checkIn id))
    have habandon : w.act (.abandon id) = w := by simp only [act, hph, Option.bind_none]
    rw [habandon, h.checkIn]
    exact h
  | some ph =>
    obtain rfl | ⟨l, hl⟩ := h.phases id ph hph
    · show AtRest ((w.act (.abandon id)).act (.checkIn id))
      have habandon : w.act (.abandon id) = w := by
        simp only [act, hph, Option.bind_some, Phase.lease?]
      rw [habandon, h.checkIn]
      exact h
    · rw [perform_release_run hph hl]
      obtain ⟨-, -, hphases, hinquiries⟩ := checkIn_frame (w.abandon id l) id
        (l.abandon w.env).2.1 (l.abandon w.env).2.2
      exact h.replaces (.inl rfl) hphases hinquiries

theorem AtRest.ask (h : AtRest w) (topic : String) :
    (w.act (.ask 0 topic)).act (.putBack 0) = w := by
  have hask : w.act (.ask 0 topic) = w := by
    simp only [act, h.inquiries, List.getElem?_nil]
  rw [hask]
  simp only [act, h.inquiries, List.getElem?_nil]

theorem AtRest.connect (h : AtRest w) : w.act (.connect 0) = w := by
  simp only [act, h.inquiries, List.getElem?_nil]

theorem perform_partitionCount (h : AtRest w) (topic : String) :
    AtRest (w.perform (.partitionCount topic)) ∧
      (w.perform (.partitionCount topic)).env = (w.pool.partitionCount w.env topic).1 ∧
      (w.perform (.partitionCount topic)).pool = (w.pool.partitionCount w.env topic).2.1 := by
  have hperform : w.perform (.partitionCount topic) =
      ((w.inquire.act (.connect 0)).act (.ask 0 topic)).act (.putBack 0) := rfl
  rw [hperform]
  unfold inquire Pool.partitionCount Pool.startQuery
  cases hsupply : w.pool.supplyQuery with
  | mk p s =>
    cases s with
    | none =>
      have hrest : AtRest { w with pool := p } := ⟨h.sorted, h.phases, h.inquiries⟩
      dsimp only
      rw [hrest.connect, hrest.ask]
      exact ⟨hrest, rfl, rfl⟩
    | some s =>
      have hconnect : (World.act { w with pool := p, inquiries := .taken s :: w.inquiries }
          (.connect 0)) =
          World.connect { w with pool := p, inquiries := .taken s :: w.inquiries } 0 s := rfl
      dsimp only
      rw [hconnect]
      unfold World.connect
      dsimp only
      cases hquery : Pool.Supply.query p w.env s with
      | mk env result =>
        cases result with
        | error e =>
          have hrest : AtRest { w with env := env, pool := p, inquiries := w.inquiries } :=
            ⟨h.sorted, h.phases, h.inquiries⟩
          dsimp only [List.eraseIdx_cons_zero]
          rw [hrest.ask]
          exact ⟨hrest, rfl, rfl⟩
        | ok q =>
          refine ⟨⟨h.sorted, h.phases, ?_⟩, rfl, rfl⟩
          show List.eraseIdx _ _ = _
          exact h.inquiries

/-! ## Every operation -/

theorem atRest_start (maxPollRecords now : Nat) (s : Subscription) (reader : RecordReader)
    (settings : IntakeSettings) : AtRest (start maxPollRecords now s reader settings) :=
  ⟨SortedMap.sorted_nil, fun _ _ hph => (by cases hph), rfl⟩

theorem atRest_perform (h : AtRest w) (op : Operation) : AtRest (w.perform op) := by
  cases op with
  | obtain sink => exact (perform_obtain h sink).1
  | release id => exact h.release id
  | partitionCount topic => exact (perform_partitionCount h topic).1
  | evictIdle => exact ⟨h.sorted, h.phases, h.inquiries⟩
  | close => exact ⟨h.sorted, h.phases, h.inquiries⟩
  | advance ms => exact h.proceeds (proceeds_advance w ms)
  | onCluster a => exact h.proceeds (proceeds_onCluster w a)
  | wake handle => exact h.proceeds (proceeds_wake w handle)
  | continuePolling id =>
    show AtRest (w.act (.continuePolling id))
    simp only [act]
    split
    · exact h.proceeds (proceeds_continuePolling ‹_›)
    · exact h
  | poll id =>
    show AtRest (w.act (.poll id))
    simp only [act]
    split
    · exact h.proceeds (proceeds_poll ‹_›)
    · exact h
  | resume id =>
    show AtRest (w.act (.resume id))
    simp only [act]
    split
    · exact h.proceeds (proceeds_resume ‹_›)
    · exact h
  | commit id =>
    show AtRest (w.act (.commit id))
    simp only [act]
    split
    · exact h.proceeds (proceeds_commit ‹_›)
    · exact h
  | emit id =>
    show AtRest (w.act (.emit id))
    simp only [act]
    split
    · exact h.proceeds (proceeds_emit ‹_›)
    · exact h

theorem atRest_performAll (h : AtRest w) (ops : List Operation) : AtRest (w.performAll ops) := by
  induction ops generalizing w with
  | nil => exact h
  | cons op ops ih => exact ih (atRest_perform h op)

end World
end RecordIntake
