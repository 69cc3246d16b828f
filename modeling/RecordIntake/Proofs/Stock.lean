import RecordIntake.Proofs.Stints

/-!
The pools of a crew.  Each of them agrees with its leases as it does when it is alone, for whatever
happens to it is an action on it; and an action on one pool changes nothing of another.
-/
namespace RecordIntake
namespace Crew

variable {c c' : Crew} {id : PoolId} {p : Pool} {a : Action}

/-! ## Pools -/

/-- Every pool that was built is there, and agrees with its leases. -/
structure Stocked (c : Crew) : Prop where
  pools : ∀ id p, c.pool? id = some p → p.id = id ∧ Owned p (c.phasesOf id) []
  built : ∀ id, id < c.trigger.nextPool → ∃ p, c.pool? id = some p
  vacant : ∀ id, c.trigger.nextPool ≤ id → c.pool? id = none ∧ c.phasesOf id = []

theorem pool?_withWorld (c : Crew) (w : World) (id : PoolId) :
    (c.withWorld w).pool? id = if id = w.pool.id then some w.pool else c.pool? id :=
  SortedMap.find?_insert ..

theorem phasesOf_withWorld (c : Crew) (w : World) (id : PoolId) :
    (c.withWorld w).phasesOf id = if id = w.pool.id then w.phases else c.phasesOf id := by
  show ((c.phases.insert w.pool.id w.phases).find? id).getD [] = _
  rw [SortedMap.find?_insert]
  split <;> rfl

theorem onPool_some (h : c.pool? id = some p) : c.onPool id a = c.withWorld ((c.world p).act a) := by
  unfold onPool
  rw [h]

theorem onPool_none (h : c.pool? id = none) : c.onPool id a = c := by
  unfold onPool
  rw [h]

namespace Stocked

theorem congr (h : Stocked c) (hpools : c'.trigger.pools = c.trigger.pools)
    (hnext : c'.trigger.nextPool = c.trigger.nextPool) (hphases : c'.phases = c.phases) :
    Stocked c' := by
  have hpool? : ∀ id, c'.pool? id = c.pool? id := fun id => by rw [pool?, hpools, pool?]
  have hphasesOf : ∀ id, c'.phasesOf id = c.phasesOf id := fun id => by
    rw [phasesOf, hphases, phasesOf]
  refine ⟨fun id p hp => ?_, fun id hid => ?_, fun id hid => ?_⟩
  · rw [hphasesOf]
    exact h.pools id p (hpool? id ▸ hp)
  · rw [hpool?]
    exact h.built id (hnext ▸ hid)
  · rw [hpool?, hphasesOf]
    exact h.vacant id (hnext ▸ hid)

theorem lt (h : Stocked c) (hp : c.pool? id = some p) : id < c.trigger.nextPool := by
  refine Nat.lt_of_not_le fun hge => ?_
  rw [(h.vacant id hge).1] at hp
  cases hp

theorem owned (h : Stocked c) (hp : c.pool? id = some p) :
    Owned (c.world p).pool (c.world p).phases (c.world p).inquiries := by
  obtain ⟨rfl, howned⟩ := h.pools id p hp
  exact howned

theorem id_act (h : Stocked c) (hp : c.pool? id = some p) (a : Action) :
    ((c.world p).act a).pool.id = id :=
  (World.sameTerms_step (World.act_step (c.world p) a)).id.trans (h.pools id p hp).1

/-- One pool and its leases have changed. -/
theorem replace (h : Stocked c) (hp : c.pool? id = some p) {p' : Pool}
    {phs : SortedMap LeaseId Phase} (hnext : c'.trigger.nextPool = c.trigger.nextPool)
    (hpools : ∀ id', c'.pool? id' = if id' = id then some p' else c.pool? id')
    (hphases : ∀ id', c'.phasesOf id' = if id' = id then phs else c.phasesOf id')
    (hid : p'.id = id) (howned : Owned p' phs []) : Stocked c' where
  pools id' p₁ hp₁ := by
    rw [hpools] at hp₁
    rw [hphases]
    split at hp₁ <;> rename_i heq
    · cases hp₁
      rw [if_pos heq]
      exact ⟨hid.trans heq.symm, howned⟩
    · rw [if_neg heq]
      exact h.pools id' p₁ hp₁
  built id' hlt := by
    rw [hpools]
    split
    · exact ⟨p', rfl⟩
    · exact h.built id' (hnext ▸ hlt)
  vacant id' hge := by
    rw [hnext] at hge
    have hne : id' ≠ id := fun heq => Nat.not_lt.mpr hge (heq ▸ h.lt hp)
    rw [hpools, hphases, if_neg hne, if_neg hne]
    exact h.vacant id' hge

theorem onPool (h : Stocked c) (id : PoolId) (ha : a.isInquiry = false) :
    Stocked (c.onPool id a) := by
  cases hp : c.pool? id with
  | none => rwa [onPool_none hp]
  | some p =>
    have howned := World.owned_step (World.act_step (c.world p) a) (h.owned hp)
    rw [World.inquiries_act _ ha] at howned
    rw [onPool_some hp]
    have hid := h.id_act hp a
    refine h.replace hp rfl (fun id' => ?_) (fun id' => ?_) hid howned
    · rw [pool?_withWorld, hid]
    · rw [phasesOf_withWorld, hid]

theorem build (h : Stocked c) (now : Nat) :
    Stocked { c with trigger := (c.trigger.buildPool now).1 } := by
  have hpools : ∀ id, ({ c with trigger := (c.trigger.buildPool now).1 } : Crew).pool? id =
      if id = c.trigger.nextPool then some (.build c.trigger.nextPool
        c.trigger.resolver.subscription c.trigger.reader c.trigger.settings now)
      else c.pool? id := fun id => SortedMap.find?_insert ..
  refine ⟨fun id p hp => ?_, fun id hid => ?_, fun id hid => ?_⟩
  · rw [hpools] at hp
    split at hp
    · cases hp
      rename_i heq
      have hnone : c.phasesOf id = [] := (h.vacant id (Nat.le_of_eq heq.symm)).2
      refine ⟨heq.symm, ?_⟩
      show Owned _ (c.phasesOf id) []
      rw [hnone]
      exact Owned.start ..
    · exact h.pools id p hp
  · rw [hpools]
    split
    · exact ⟨_, rfl⟩
    · rename_i hne
      exact h.built id (Nat.lt_of_le_of_ne (Nat.le_of_lt_succ hid) hne)
  · rw [hpools, if_neg (Nat.ne_of_gt hid)]
    exact h.vacant id (Nat.le_of_succ_le hid)

theorem withPool (h : Stocked c) (hp : c.pool? id = some p) {p' : Pool} (hid : p'.id = id)
    (howned : Owned p' (c.phasesOf id) []) :
    Stocked { c with trigger := c.trigger.withPool p' } := by
  refine h.replace hp rfl (fun id' => ?_) (fun id' => ?_) hid howned
  · rw [← hid]
    exact SortedMap.find?_insert ..
  · split
    · rename_i heq
      rw [heq]
      rfl
    · rfl

/-- A pool that was asked for a count agrees with its leases as before. -/
theorem owned_partitionCount (h : Stocked c) (hp : c.pool? id = some p) (topic : String) :
    (p.partitionCount c.env topic).2.1.id = id ∧
      Owned (p.partitionCount c.env topic).2.1 (c.phasesOf id) [] := by
  obtain ⟨w', ⟨as, rfl⟩, -, hpool, hphases, hxs⟩ := (c.world p).partitionCount_reaches topic
  have hid := (h.pools id p hp).1
  have howned : Owned ((c.world p).run as).pool ((c.world p).run as).phases
      ((c.world p).run as).inquiries :=
    World.run_induction (P := fun w => Owned w.pool w.phases w.inquiries)
      (fun _ _ hstep h => World.owned_step hstep h) (h.owned hp) as
  have hterms := World.sameTerms_run (c.world p) as
  rw [hpool, hphases, hxs] at howned
  rw [hpool] at hterms
  subst hid
  exact ⟨hterms.id, howned⟩

theorem ask (h : Stocked c) (n : Nat) (id : PoolId) (counts : SortedMap String Nat)
    (topics : List String) : Stocked (c.ask n id counts topics) := by
  cases topics with
  | nil =>
    simp only [Crew.ask]
    split <;> exact h.congr rfl rfl rfl
  | cons topic topics =>
    simp only [Crew.ask]
    split
    · exact h.congr rfl rfl rfl
    · rename_i p hp
      obtain ⟨hid, howned⟩ := h.owned_partitionCount hp topic
      split <;> rename_i he <;> rw [he] at hid howned
      · exact (h.withPool hp hid howned).congr rfl rfl rfl
      · exact (h.withPool hp hid howned).congr rfl rfl rfl

theorem dismiss (h : Stocked c) (n : Nat) (id : PoolId) (existing : Option PoolId) :
    Stocked (c.dismiss n id existing) := by
  cases existing with
  | none => exact (h.onPool id (a := .close) rfl).congr rfl rfl rfl
  | some id' => exact (h.onPool id (a := .close) rfl).congr rfl rfl rfl

end Stocked

/-- What a cycle does with its lease is no part of a question. -/
theorem isInquiry_actOn {id : PoolId} {lease : LeaseId} {s : Stint}
    (h : c.actOn id lease s = some a) : a.isInquiry = false := by
  unfold actOn at h
  cases s with
  | polling =>
    obtain rfl := Option.some.inj h
    split <;> rfl
  | checking => cases h
  | settling => cases h
  | _ =>
    cases h
    rfl

theorem Stocked.onPool? (h : Stocked c) (id : PoolId) (lease : LeaseId) (s : Stint) :
    Stocked (c.onPool? id (c.actOn id lease s)) := by
  cases ha : c.actOn id lease s with
  | none => exact h
  | some a => exact h.onPool id (isInquiry_actOn ha)

theorem Stocked.attend (h : Stocked c) (n : Nat) (id : PoolId) (lease : LeaseId) (s : Stint) :
    Stocked (c.attend n id lease s) := by
  have hact := h.onPool? id lease s
  unfold Crew.attend
  dsimp only
  split
  · exact hact.congr rfl rfl rfl
  · exact hact.congr rfl rfl rfl
  · exact hact.congr rfl rfl rfl

theorem stocked_turn (h : Stocked c) (n : Nat) (post : Post) : Stocked (c.turn n post) := by
  cases post with
  | arriving =>
    simp only [turn, arrive]
    split <;> exact h.congr rfl rfl rfl
  | looking =>
    simp only [turn, look]
    split
    · exact h.congr rfl rfl rfl
    · exact (h.build c.env.now).congr rfl rfl rfl
  | asking id topics counts => exact h.ask n id counts topics
  | rejecting id => exact h.dismiss n id none
  | installing id => exact h.congr rfl rfl rfl
  | placing id =>
    simp only [turn, place]
    split <;> exact h.congr rfl rfl rfl
  | dismissing id existing => exact h.dismiss n id existing
  | obtaining id =>
    simp only [turn, obtain]
    split <;> exact (h.onPool id (a := .request c.trigger.sink) rfl).congr rfl rfl rfl
  | opening id lease =>
    simp only [turn, openLease]
    split <;> exact (h.onPool id (a := .supply lease) rfl).congr rfl rfl rfl
  | leased id lease s => exact h.attend n id lease s
  | closing => exact h.congr rfl rfl rfl
  | taking =>
    simp only [turn, take]
    split <;> exact h.congr rfl rfl rfl
  | shutting id => exact (h.onPool id (a := .close) rfl).congr rfl rfl rfl
  | rousing grace =>
    simp only [turn, rouse]
    split <;> exact h.congr rfl rfl rfl
  | sparing id deadline next =>
    simp only [turn, spare]
    split
    · exact h
    · split <;> exact h.congr rfl rfl rfl
  | gathering id => exact h.congr rfl rfl rfl
  | waking handles =>
    cases handles with
    | nil => exact h
    | cons handle handles => exact h.congr rfl rfl rfl
  | ended o => exact h
  | closed => exact h

theorem stocked_step (hstep : Step c c') (h : Stocked c) : Stocked c' := by
  cases hstep with
  | stay => exact h
  | spawn job => exact h.congr rfl rfl rfl
  | @turn n post hpost hfree => exact stocked_turn h n post
  | lose hpost => exact h.congr rfl rfl rfl
  | unschedule => exact h.congr rfl rfl rfl
  | environs hr => exact h.congr rfl rfl rfl
  | wake handle => exact h.congr rfl rfl rfl
  | evictIdle hslot => exact h.onPool _ rfl

/-! ## What an action changes -/

theorem Stocked.pool_of_phase (h : Stocked c) {lease : LeaseId} {ph : Phase}
    (hph : c.phase? id lease = some ph) : ∃ p, c.pool? id = some p := by
  refine h.built id (Nat.lt_of_not_le fun hge => ?_)
  rw [phase?, (h.vacant id hge).2] at hph
  cases hph

theorem Stocked.phases_world (h : Stocked c) (hp : c.pool? id = some p) (lease : LeaseId) :
    (c.world p).phases.find? lease = c.phase? id lease := by
  obtain rfl := (h.pools id p hp).1
  rfl

theorem reply_some (hp : c.pool? id = some p) : c.reply id a = (c.world p).reply a := by
  rw [reply, hp]
  rfl

theorem Stocked.phase?_onPool (h : Stocked c) (hp : c.pool? id = some p) (a : Action)
    (id' : PoolId) (lease : LeaseId) :
    (c.onPool id a).phase? id' lease =
      if id' = id then ((c.world p).act a).phases.find? lease else c.phase? id' lease := by
  rw [onPool_some hp, phase?, phasesOf_withWorld, h.id_act hp]
  split
  · rfl
  · rfl

/-- An action on a lease leaves all others as they are. -/
theorem Stocked.phase?_other (h : Stocked c) {lease : LeaseId} (ha : a.lease? = some lease)
    {id' : PoolId} {lease' : LeaseId} (hne : (id, lease) ≠ (id', lease')) :
    (c.onPool id a).phase? id' lease' = c.phase? id' lease' := by
  cases hp : c.pool? id with
  | none => rw [onPool_none hp]
  | some p =>
    rw [h.phase?_onPool hp]
    split
    · rename_i heq
      rw [World.phase_act_other ha fun hl => hne (by rw [heq, hl]), h.phases_world hp, heq]
    · rfl

/-- So does an action that changes no phase. -/
theorem Stocked.phase?_same (h : Stocked c)
    (hsame : ∀ p, c.pool? id = some p → ((c.world p).act a).phases = (c.world p).phases)
    (id' : PoolId) (lease : LeaseId) :
    (c.onPool id a).phase? id' lease = c.phase? id' lease := by
  cases hp : c.pool? id with
  | none => rw [onPool_none hp]
  | some p =>
    rw [h.phase?_onPool hp]
    split
    · rename_i heq
      rw [hsame p hp, h.phases_world hp, heq]
    · rfl

theorem Stocked.phase?_close (h : Stocked c) (id id' : PoolId) (lease : LeaseId) :
    (c.onPool id .close).phase? id' lease = c.phase? id' lease :=
  h.phase?_same (fun _ _ => rfl) id' lease

theorem Stocked.phase?_evictIdle (h : Stocked c) (id id' : PoolId) (lease : LeaseId) :
    (c.onPool id .evictIdle).phase? id' lease = c.phase? id' lease :=
  h.phase?_same (fun _ _ => rfl) id' lease

/-- The lease that is offered next, if there is one. -/
def offer? (c : Crew) (id : PoolId) : Option Offer :=
  (c.pool? id).bind fun p => (p.startObtain c.env).2.2

theorem Stocked.phase?_request (h : Stocked c) (id : PoolId) (sink : String) (id' : PoolId)
    (lease : LeaseId) : (c.onPool id (.request sink)).phase? id' lease =
      match c.offer? id with
      | none => c.phase? id' lease
      | some o =>
        if (id', lease) = (id, o.lease) then some (.opening o sink) else c.phase? id' lease := by
  cases hp : c.pool? id with
  | none =>
    rw [onPool_none hp, offer?, hp]
    rfl
  | some p =>
    rw [h.phase?_onPool hp, offer?, hp, Option.bind_some]
    have hsame : (c.world p).pool.startObtain (c.world p).env = p.startObtain c.env := rfl
    simp only [World.act, World.request, hsame]
    cases hstart : p.startObtain c.env with
    | mk env rest =>
      obtain ⟨p', o⟩ := rest
      cases o with
      | none =>
        dsimp only
        split
        · rename_i heq
          rw [← heq] at hp
          exact h.phases_world hp lease
        · rfl
      | some o =>
        dsimp only
        by_cases hid : id' = id
        · rw [if_pos hid]
          show ((c.world p).phases.insert o.lease _).find? lease = _
          rw [SortedMap.find?_insert, h.phases_world hp, hid]
          simp only [Prod.mk.injEq, true_and]
        · rw [if_neg hid, if_neg fun heq => hid (congrArg Prod.fst heq)]

end Crew
end RecordIntake
