import RecordIntake.Proofs.Seating

/-!
Turns of one task, and how a cycle gets its pool and its lease by them.  What `Trigger.step` does at
once a task does in turns, in the same order and to the same effect.
-/
namespace RecordIntake

/-- The post of a cycle at a stage. -/
def Stage.post : Stage → Post
  | .beginning => .arriving
  | .asking id topics counts => .asking id topics counts
  | .installing id => .installing id
  | .obtaining id => .obtaining id
  | .opening id o => .opening id o.lease
  | .holding id l => .leased id l.id .checking
  | .polling id l _ => .leased id l.id .polling
  | .ended o => .ended o

/-- How far the lease of a cycle has come at a stage. -/
def Stage.phase? (sink : String) : Stage → Option Phase
  | .opening _ o => some (.opening o sink)
  | .holding _ l => some (.held l)
  | .polling _ l deadline => some (.waiting l deadline)
  | _ => none

namespace Crew

variable {c c' c'' : Crew} {n : Nat} {post : Post} {id : PoolId} {lease : LeaseId} {p : Pool}

/-- A task is where a cycle is at a stage. -/
structure Stands (c : Crew) (n : Nat) (s : Stage) : Prop where
  post : c.posts.find? n = some s.post
  phase : ∀ id lease, s.post.lease? = some (id, lease) →
    c.phase? id lease = s.phase? c.trigger.sink

/-! ## Turns of one task -/

/-- Turns of a task lead from one crew to the other. -/
def Turns (n : Nat) (c c' : Crew) : Prop := ∃ k, c.run (List.replicate k (.turn n)) = c'

theorem Turns.refl (n : Nat) (c : Crew) : Turns n c c := ⟨0, rfl⟩

theorem Turns.trans (h : Turns n c c') (h' : Turns n c' c'') : Turns n c c'' := by
  obtain ⟨k, rfl⟩ := h
  obtain ⟨k', rfl⟩ := h'
  refine ⟨k + k', ?_⟩
  rw [← List.replicate_append_replicate, run_append]

theorem turns_turn (hpost : c.posts.find? n = some post)
    (hfree : post.needsSlot = true → c.isLocked = false) : Turns n c (c.turn n post) := by
  refine ⟨1, ?_⟩
  show c.act (.turn n) = c.turn n post
  have hgo : (post.needsSlot && c.isLocked) = false := by
    cases hneeds : post.needsSlot with
    | false => rfl
    | true => exact hfree hneeds
  simp only [act, hpost, hgo]
  rfl

/-- A task that does not need the slot can have its turn at any time. -/
theorem turns_free (hpost : c.posts.find? n = some post) (hneeds : post.needsSlot = false) :
    Turns n c (c.turn n post) := by
  refine turns_turn hpost fun h => ?_
  rw [hneeds] at h
  cases h

theorem unlocked_of_posts (h : c.isLocked = false) (hposts : c'.posts = c.posts.insert n post)
    (hholds : post.holdsSlot = false) : c'.isLocked = false := by
  refine List.any_eq_false.mpr fun e he => ?_
  rw [hposts] at he
  obtain rfl | he := List.mem_cons.mp ((SortedMap.insert_perm n post c.posts).mem_iff.mp he)
  · show ¬post.holdsSlot = true
    rw [hholds]
    exact Bool.false_ne_true
  · exact List.any_eq_false.mp h e ((SortedMap.erase_sublist n c.posts).subset he)

/-- Turns of a task lead where a step of its cycle does. -/
def Arrives (c : Crew) (n : Nat) (r : Environment × Trigger × Stage) : Prop :=
  ∃ c', Turns n c c' ∧ c'.isLocked = false ∧ c'.env = r.1 ∧ c'.trigger = r.2.1 ∧
    c'.Stands n r.2.2

variable {r : Environment × Trigger × Stage}

theorem Turns.arrives (h : Turns n c c') (h' : Arrives c' n r) : Arrives c n r := by
  obtain ⟨c'', ht, hr⟩ := h'
  exact ⟨c'', h.trans ht, hr⟩

/-- A task goes where its cycle does. -/
theorem arrives_at {s : Stage} {env : Environment} {t : Trigger} (hfree : c.isLocked = false)
    (hposts : c'.posts = c.posts.insert n s.post) (hs : s.post.holdsSlot = false)
    (hphase : ∀ id lease, s.post.lease? = some (id, lease) →
      c'.phase? id lease = s.phase? c'.trigger.sink)
    (henv : c'.env = env) (ht : c'.trigger = t) : Arrives c' n (env, t, s) := by
  refine ⟨c', .refl n c', unlocked_of_posts hfree hposts hs, henv, ht, ?_, hphase⟩
  rw [hposts]
  exact SortedMap.find?_insert_self ..

theorem arrives_proceed {s : Stage} {env : Environment} {t : Trigger} (hfree : c.isLocked = false)
    (hposts : c'.posts = c.posts.insert n s.post) (hs : s.post.holdsSlot = false)
    (hnone : s.post.lease? = none) (henv : c'.env = env) (ht : c'.trigger = t) :
    Arrives c' n (env, t, s) := by
  refine arrives_at hfree hposts hs (fun id lease hl => ?_) henv ht
  rw [hnone] at hl
  cases hl

/-! ## Getting a pool -/

theorem arrives_begin (hpost : c.posts.find? n = some .arriving) (hfree : c.isLocked = false) :
    Arrives c n (c.trigger.begin c.env) := by
  refine (turns_free hpost rfl).arrives ?_
  simp only [turn, arrive, Trigger.begin]
  cases c.trigger.scheduled with
  | false => exact arrives_proceed hfree rfl rfl rfl rfl rfl
  | true =>
    have hposts : (c.proceed n .looking).posts.find? n = some .looking :=
      SortedMap.find?_insert_self ..
    have hfree' : (c.proceed n .looking).isLocked = false := unlocked_of_posts hfree rfl rfl
    refine (turns_turn hposts fun _ => hfree').arrives ?_
    show Arrives ((c.proceed n .looking).look n) n _
    have hslot : (c.proceed n .looking).trigger.slot = c.trigger.slot := rfl
    rw [look, hslot]
    simp only [Bool.not_true, Bool.false_eq_true, if_false]
    cases c.trigger.slot with
    | some id => exact arrives_proceed hfree' rfl rfl rfl rfl rfl
    | none =>
      show Arrives ((c.proceed n .looking).build n) n
        (if (c.trigger.buildPool c.env.now).1.resolver.requiresCounts = true then _ else _)
      split
      · rename_i hcounts
        refine arrives_proceed hfree' ?_ rfl rfl rfl rfl
        exact congrArg (SortedMap.insert n · (c.proceed n .looking).posts) (if_pos hcounts)
      · rename_i hcounts
        refine arrives_proceed hfree' ?_ rfl rfl rfl rfl
        exact congrArg (SortedMap.insert n · (c.proceed n .looking).posts) (if_neg hcounts)

theorem closePool_eq (c : Crew) (id : PoolId) :
    (c.onPool id .close).env = (c.trigger.closePool c.env id).1 ∧
      (c.onPool id .close).trigger = (c.trigger.closePool c.env id).2 := by
  have hpool : c.pool? id = c.trigger.pools.find? id := rfl
  rw [onPool, Trigger.closePool, hpool]
  cases c.trigger.pools.find? id with
  | none => exact ⟨rfl, rfl⟩
  | some p => exact ⟨rfl, rfl⟩

/-- A pool was built in vain. -/
theorem arrives_dismiss {c₀ : Crew} (hfree : c₀.isLocked = false)
    (hposts : c.posts = c₀.posts.insert n post) (hpost : post = .rejecting id ∨
      post = .dismissing id none) : Arrives c n (c.trigger.dismiss c.env id) := by
  have hfind : c.posts.find? n = some post := hposts ▸ SortedMap.find?_insert_self ..
  have hclosed := c.closePool_eq id
  have hturn : c.turn n post = c.dismiss n id none := by
    obtain rfl | rfl := hpost <;> rfl
  refine (turns_free hfind ?_).arrives ?_
  · obtain rfl | rfl := hpost <;> rfl
  · rw [hturn]
    refine arrives_proceed hfree ?_ rfl rfl ?_ hclosed.2
    · show (c.onPool id .close).posts.insert n _ = _
      rw [(c.beside_onPool id .close).posts, hposts, SortedMap.insert_insert]
      rfl
    · exact congrArg (Environment.count · (.cycles .backoff)) hclosed.1

theorem arrives_ask {topics : List String} {counts : SortedMap String Nat}
    (hpost : c.posts.find? n = some (.asking id topics counts)) (hfree : c.isLocked = false) :
    Arrives c n (c.trigger.ask c.env id counts topics) := by
  refine (turns_free hpost rfl).arrives ?_
  show Arrives (c.ask n id counts topics) n _
  cases topics with
  | nil =>
    simp only [ask, Trigger.ask]
    cases c.trigger.resolver.resolve counts with
    | ok s => exact arrives_proceed hfree rfl rfl rfl rfl rfl
    | error e => exact arrives_dismiss (c := c.proceed n (.rejecting id)) hfree rfl (.inl rfl)
  | cons topic topics =>
    have hpool : c.pool? id = c.trigger.pools.find? id := rfl
    simp only [ask, Trigger.ask, hpool]
    cases c.trigger.pools.find? id with
    | none => exact arrives_dismiss (c := c.proceed n (.rejecting id)) hfree rfl (.inl rfl)
    | some p =>
      dsimp only
      cases p.partitionCount c.env topic with
      | mk env rest =>
        obtain ⟨p', result⟩ := rest
        cases result with
        | ok k => exact arrives_proceed hfree rfl rfl rfl rfl rfl
        | error e =>
          exact arrives_dismiss (c := { c with
            env := env, trigger := c.trigger.withPool p' }.proceed n (.rejecting id))
            hfree rfl (.inl rfl)

theorem arrives_install (hpost : c.posts.find? n = some (.installing id))
    (hfree : c.isLocked = false) : Arrives c n (c.trigger.install c.env id) := by
  refine (turns_turn hpost fun _ => hfree).arrives ?_
  show Arrives (c.install n id) n _
  unfold install Trigger.install
  by_cases hscheduled : c.trigger.scheduled = true
  · have hgo : ¬(!c.trigger.scheduled) = true := by
      rw [hscheduled]
      exact Bool.false_ne_true
    rw [if_pos hscheduled, if_neg hgo]
    have hplacing : (c.proceed n (.placing id)).posts.find? n = some (.placing id) :=
      SortedMap.find?_insert_self ..
    refine (turns_free hplacing rfl).arrives ?_
    show Arrives ((c.proceed n (.placing id)).place n id) n _
    have hslot : (c.proceed n (.placing id)).trigger.slot = c.trigger.slot := rfl
    rw [place, hslot]
    cases c.trigger.slot with
    | some existing =>
      let c₁ := (c.proceed n (.placing id)).proceed n (.dismissing id (some existing))
      have hdismissing : c₁.posts.find? n = some (.dismissing id (some existing)) :=
        SortedMap.find?_insert_self ..
      refine (turns_free hdismissing rfl).arrives ?_
      have hclosed := c₁.closePool_eq id
      refine arrives_proceed (s := .obtaining existing) hfree ?_ rfl rfl hclosed.1 hclosed.2
      show (c₁.onPool id .close).posts.insert n _ = _
      rw [(c₁.beside_onPool id .close).posts]
      exact (SortedMap.insert_insert n _ _ (c.posts.insert n _)).trans
        (SortedMap.insert_insert n _ _ c.posts)
    | none =>
      refine arrives_proceed hfree ?_ rfl rfl rfl rfl
      exact SortedMap.insert_insert n _ _ c.posts
  · have hstop : (!c.trigger.scheduled) = true := by
      rw [Bool.eq_false_iff.mpr hscheduled]
      rfl
    rw [if_neg hscheduled, if_pos hstop]
    exact arrives_dismiss (c := c.proceed n (.dismissing id none)) hfree rfl (.inr rfl)

/-! ## Getting a lease -/

theorem onPool_request (hp : c.pool? id = some p) (sink : String) :
    (c.onPool id (.request sink)).env = (p.startObtain c.env).1 ∧
      (c.onPool id (.request sink)).trigger = c.trigger.withPool (p.startObtain c.env).2.1 := by
  rw [onPool_some hp]
  have hstart : (c.world p).pool.startObtain (c.world p).env = p.startObtain c.env := rfl
  simp only [World.act, World.request, hstart]
  split <;> rename_i he <;> rw [he] <;> exact ⟨rfl, rfl⟩

theorem arrives_obtain (hs : Stocked c) (hpost : c.posts.find? n = some (.obtaining id))
    (hfree : c.isLocked = false) : Arrives c n (c.trigger.obtain c.env id) := by
  refine (turns_free hpost rfl).arrives ?_
  show Arrives (c.obtain n id) n _
  have hbeside := c.beside_onPool id (.request c.trigger.sink)
  have hphase := hs.phase?_request id c.trigger.sink
  unfold Trigger.obtain
  cases hp : c.pool? id with
  | none =>
    have hp' : c.trigger.pools.find? id = none := hp
    rw [hp', obtain, hp, Option.bind_none, onPool_none hp]
    exact arrives_proceed hfree rfl rfl rfl rfl rfl
  | some p =>
    have hp' : c.trigger.pools.find? id = some p := hp
    have hdone := onPool_request hp c.trigger.sink
    rw [hp', obtain, hp, Option.bind_some]
    rw [offer?, hp, Option.bind_some] at hphase
    dsimp only
    cases hstart : p.startObtain c.env with
    | mk env rest =>
      obtain ⟨p', o⟩ := rest
      rw [hstart] at hdone hphase
      cases o with
      | none =>
        refine arrives_proceed hfree ?_ rfl rfl ?_ hdone.2
        · exact congrArg (SortedMap.insert n _ ·) hbeside.posts
        · exact congrArg (Environment.count · (.cycles .backoff)) hdone.1
      | some o =>
        refine arrives_at (s := .opening id o) hfree ?_ rfl (fun id' lease hl => ?_) hdone.1 hdone.2
        · exact congrArg (SortedMap.insert n _ ·) hbeside.posts
        · cases hl
          refine ((hphase id o.lease).trans (if_pos rfl)).trans ?_
          exact congrArg (fun sink => some (Phase.opening o sink)) hbeside.sink.symm

/-- How a phase shows whether a lease could be opened. -/
def opened : Except IntakeError Lease → Phase
  | .ok l => .held l
  | .error _ => .ended

theorem onPool_supply (hs : Stocked c) (hp : c.pool? id = some p) {o : Offer} {sink : String}
    (hph : c.phase? id o.lease = some (.opening o sink)) :
    (c.onPool id (.supply o.lease)).env = (p.finishObtain c.env o sink).1 ∧
      (c.onPool id (.supply o.lease)).trigger =
        c.trigger.withPool (p.finishObtain c.env o sink).2.1 ∧
      (c.onPool id (.supply o.lease)).phase? id o.lease =
        some (opened (p.finishObtain c.env o sink).2.2) := by
  have hworld := (hs.phases_world hp o.lease).trans hph
  have hact : (c.world p).act (.supply o.lease) = (c.world p).supply o.lease o sink := by
    simp only [World.act, hworld]
  rw [hs.phase?_onPool hp, if_pos rfl, onPool_some hp, hact]
  have hfinish : (c.world p).pool.finishObtain (c.world p).env o sink =
      p.finishObtain c.env o sink := rfl
  rw [World.supply, hfinish]
  split <;> rename_i he <;> rw [he] <;> exact ⟨rfl, rfl, SortedMap.find?_insert_self ..⟩

theorem arrives_openLease (hs : Stocked c) {o : Offer}
    (hpost : c.posts.find? n = some (.opening id o.lease))
    (hphase : c.phase? id o.lease = some (.opening o c.trigger.sink)) (hfree : c.isLocked = false) :
    Arrives c n (c.trigger.openLease c.env id o) := by
  refine (turns_free hpost rfl).arrives ?_
  show Arrives (c.openLease n id o.lease) n _
  have hbeside := c.beside_onPool id (.supply o.lease)
  obtain ⟨p, hp⟩ := hs.pool_of_phase hphase
  have hp' : c.trigger.pools.find? id = some p := hp
  obtain ⟨henv, ht, hopened⟩ := onPool_supply hs hp hphase
  unfold openLease Trigger.openLease
  dsimp only
  rw [hopened, hp']
  dsimp only
  cases hfinish : p.finishObtain c.env o c.trigger.sink with
  | mk env rest =>
    obtain ⟨p', result⟩ := rest
    rw [hfinish] at henv ht hopened
    cases result with
    | ok l =>
      have hid : l.id = o.lease := by
        obtain ⟨-, connection, -, rfl⟩ := Pool.finishObtain_ok hfinish
        rfl
      refine arrives_at (s := .holding id l) hfree ?_ rfl (fun id' lease hl => ?_) henv ht
      · show (c.onPool id (.supply o.lease)).posts.insert n (.leased id o.lease .checking) = _
        rw [hbeside.posts, ← hid]
        rfl
      · cases hl
        rw [hid]
        exact hopened
    | error e =>
      refine arrives_proceed hfree ?_ rfl rfl ?_ ht
      · exact congrArg (SortedMap.insert n _ ·) hbeside.posts
      · exact congrArg (Environment.count · (.cycles .backoff)) henv

end Crew
end RecordIntake
