import RecordIntake.Proofs.Course

/-!
The cycles of a crew follow their course.  In every run, what the turns of a task add up to is what
its post says: nothing as long as it has had no lease, an account of its course while it has one,
and an account of its end when it is over.  Others may do whatever they like between its turns.
-/
namespace RecordIntake

namespace Post

/-- Whether a task has no lease and has had none. -/
def isIdle : Post → Bool
  | .opening _ _ | .leased _ _ _ | .ended _ => false
  | _ => true

end Post

namespace Crew

variable {t : CycleTerms} {c c' : Crew} {n : Nat} {post : Post} {acc : Account} {id : PoolId}
  {lease : LeaseId}

/-! ## What becomes of a trigger -/

/-- The terms of a trigger stay what they were, and of its pools each has done nothing but some
actions.  What is new among them was built on those terms. -/
structure Upkeep (c : Crew) (u : Trigger) : Prop where
  reader : u.reader = c.trigger.reader
  settings : u.settings = c.trigger.settings
  sink : u.sink = c.trigger.sink
  pools : ∀ id p, c.pool? id = some p → ∃ as, u.pools.find? id = some ((c.world p).run as).pool
  built : ∀ id p', u.pools.find? id = some p' →
    (∃ p, c.pool? id = some p) ∨ p'.reader = c.trigger.reader ∧ p'.settings = c.trigger.settings

namespace Upkeep

/-- Nothing happens to pools. -/
theorem of_pools {u : Trigger} (hreader : u.reader = c.trigger.reader)
    (hsettings : u.settings = c.trigger.settings) (hsink : u.sink = c.trigger.sink)
    (hpools : u.pools = c.trigger.pools) : Upkeep c u where
  reader := hreader
  settings := hsettings
  sink := hsink
  pools id p hp := ⟨[], hpools ▸ hp⟩
  built id p hp := .inl ⟨p, by rwa [pool?, ← hpools]⟩

theorem refl (c : Crew) : Upkeep c c.trigger := .of_pools rfl rfl rfl rfl

/-- One pool has done some actions. -/
theorem withPool {p p' : Pool} (hp : c.pool? id = some p) (hid : p'.id = id) (as : List Action)
    (hrun : ((c.world p).run as).pool = p') : Upkeep c (c.trigger.withPool p') where
  reader := rfl
  settings := rfl
  sink := rfl
  pools id' p₁ hp₁ := by
    show ∃ as, (c.trigger.pools.insert p'.id p').find? id' = _
    rw [SortedMap.find?_insert, hid]
    split
    · rename_i heq
      obtain rfl : p₁ = p := Option.some.inj (hp₁.symm.trans (heq ▸ hp))
      exact ⟨as, by rw [hrun]⟩
    · exact ⟨[], hp₁⟩
  built id' p₁ hp₁ := by
    change (c.trigger.pools.insert p'.id p').find? id' = _ at hp₁
    rw [SortedMap.find?_insert, hid] at hp₁
    split at hp₁
    · rename_i heq
      exact .inl ⟨p, heq ▸ hp⟩
    · exact .inl ⟨p₁, hp₁⟩

theorem onPool (hs : Stocked c) (id : PoolId) (a : Action) : Upkeep c (c.onPool id a).trigger := by
  cases hp : c.pool? id with
  | none =>
    rw [onPool_none hp]
    exact .refl c
  | some p =>
    rw [onPool_some hp]
    exact .withPool hp (hs.id_act hp a) [a] rfl

theorem onPool? (hs : Stocked c) (id : PoolId) (a : Option Action) :
    Upkeep c (c.onPool? id a).trigger := by
  cases a with
  | none => exact .refl c
  | some a => exact .onPool hs id a

theorem build (hs : Stocked c) (now : Nat) : Upkeep c (c.trigger.buildPool now).1 where
  reader := rfl
  settings := rfl
  sink := rfl
  pools id p hp :=
    ⟨[], (SortedMap.find?_insert_of_ne (Nat.ne_of_lt (hs.lt hp)) ..).trans hp⟩
  built id p' hp' := by
    obtain ⟨-, rfl⟩ | ⟨-, hold⟩ := SortedMap.of_find?_insert hp'
    · exact .inr ⟨rfl, rfl⟩
    · exact .inl ⟨p', hold⟩

theorem ask (hs : Stocked c) (n : Nat) (id : PoolId) (counts : SortedMap String Nat)
    (topics : List String) : Upkeep c (c.ask n id counts topics).trigger := by
  cases topics with
  | nil =>
    simp only [Crew.ask]
    split <;> exact .refl c
  | cons topic topics =>
    simp only [Crew.ask]
    split
    · exact .refl c
    · rename_i p hp
      have hid := (hs.owned_partitionCount hp topic).1
      obtain ⟨w', ⟨as, rfl⟩, -, hpool, -⟩ := (c.world p).partitionCount_reaches topic
      have hasked := withPool hp hid as hpool
      split <;> rename_i he <;> rw [he] at hasked <;> exact hasked

theorem turn (hs : Stocked c) (n : Nat) (post : Post) : Upkeep c (c.turn n post).trigger := by
  cases post with
  | arriving =>
    simp only [Crew.turn, arrive]
    split <;> exact .refl c
  | looking =>
    simp only [Crew.turn, look]
    split
    · exact .refl c
    · exact .build hs c.env.now
  | asking id topics counts => exact .ask hs n id counts topics
  | rejecting id => exact .onPool hs id .close
  | installing id => exact .refl c
  | placing id =>
    simp only [Crew.turn, place]
    split <;> exact .of_pools rfl rfl rfl rfl
  | dismissing id existing => cases existing <;> exact .onPool hs id .close
  | obtaining id =>
    simp only [Crew.turn, obtain]
    split <;> exact .onPool hs id (.request c.trigger.sink)
  | opening id lease =>
    simp only [Crew.turn, openLease]
    split <;> exact .onPool hs id (.supply lease)
  | leased id lease s =>
    have hact := onPool? hs id (c.actOn id lease s)
    simp only [Crew.turn, attend]
    split <;> exact hact
  | closing => exact .of_pools rfl rfl rfl rfl
  | taking =>
    simp only [Crew.turn, take]
    split <;> exact .of_pools rfl rfl rfl rfl
  | shutting id => exact .onPool hs id .close
  | rousing grace =>
    simp only [Crew.turn, rouse]
    split <;> exact .refl c
  | sparing id deadline next =>
    simp only [Crew.turn, spare]
    split
    · exact .refl c
    · split <;> exact .refl c
  | gathering id => exact .refl c
  | waking handles => cases handles <;> exact .refl c
  | ended o => exact .refl c
  | closed => exact .refl c

theorem act (hs : Stocked c) (d : Doing) : Upkeep c (c.act d).trigger := by
  cases d with
  | turn n =>
    simp only [Crew.act]
    split
    · split
      · exact .refl c
      · exact .turn hs n _
    · exact .refl c
  | lose n =>
    simp only [Crew.act]
    split <;> exact .refl c
  | unschedule => exact .of_pools rfl rfl rfl rfl
  | evictIdle =>
    simp only [Crew.act]
    split
    · exact .onPool hs _ .evictIdle
    · exact .refl c
  | _ => exact .refl c

end Upkeep

/-- The trigger, its pools and the cluster work on the given terms. -/
structure Under (t : CycleTerms) (c : Crew) : Prop where
  reader : c.trigger.reader = t.reader
  settings : c.trigger.settings = t.settings
  sink : c.trigger.sink = t.sink
  limit : c.env.cluster.maxPollRecords = t.limit
  pools : ∀ id p, c.pool? id = some p → p.reader = t.reader ∧ p.settings = t.settings

theorem under_start (maxPollRecords now : Nat) (resolver : Resolver) (reader : RecordReader)
    (settings : IntakeSettings) (sink : String) :
    Under ⟨reader, settings, sink, maxPollRecords⟩
      (start maxPollRecords now resolver reader settings sink) :=
  ⟨rfl, rfl, rfl, rfl, nofun⟩

theorem Under.act (h : Under t c) (hs : Stocked c) (d : Doing) : Under t (c.act d) := by
  have hkept := Upkeep.act hs d
  refine ⟨hkept.reader.trans h.reader, hkept.settings.trans h.settings, hkept.sink.trans h.sink,
    (c.onward_act d).limit.trans h.limit, fun id p' hp' => ?_⟩
  obtain ⟨p, hp⟩ | ⟨hreader, hsettings⟩ := hkept.built id p' hp'
  · obtain ⟨as, hrun⟩ := hkept.pools id p hp
    obtain rfl := Option.some.inj (hp'.symm.trans hrun)
    have hterms := World.sameTerms_run (c.world p) as
    obtain ⟨hreader, hsettings⟩ := h.pools id p hp
    exact ⟨hterms.reader.trans hreader, hterms.settings.trans hsettings⟩
  · exact ⟨hreader.trans h.reader, hsettings.trans h.settings⟩

/-! ## What a task has to account for -/

/-- What the turns of a task have come to, given where it is. -/
def Accounts (t : CycleTerms) (c : Crew) (acc : Account) : Post → Prop
  | .opening id lease => acc = {} ∧ ∃ o, c.phase? id lease = some (.opening o t.sink)
  | .leased id lease s => ∃ ph, c.phase? id lease = some ph ∧ Heads t c.env.now ph acc s
  | .ended o => acc = {} ∧ o = .backoff ∨ Ends t o acc
  | _ => acc = {}

theorem accounts_of_idle (hidle : post.isIdle = true) (hacc : acc = {}) : Accounts t c acc post := by
  cases post with
  | opening id lease => cases hidle
  | leased id lease s => cases hidle
  | ended o => cases hidle
  | _ => exact hacc

theorem Accounts.of_idle (h : Accounts t c acc post) (hidle : post.isIdle = true) : acc = {} := by
  cases post with
  | opening id lease => cases hidle
  | leased id lease s => cases hidle
  | ended o => cases hidle
  | _ => exact h

/-- Time passes, and the lease of the task stays where it is. -/
theorem Accounts.later (h : Accounts t c acc post) (hnow : c.env.now ≤ c'.env.now)
    (hph : ∀ id lease, post.lease? = some (id, lease) → c'.phase? id lease = c.phase? id lease) :
    Accounts t c' acc post := by
  cases post with
  | opening id lease =>
    obtain ⟨hacc, o, h⟩ := h
    exact ⟨hacc, o, (hph id lease rfl).trans h⟩
  | leased id lease s =>
    obtain ⟨ph, h, hheads⟩ := h
    exact ⟨ph, (hph id lease rfl).trans h, hheads.later hnow⟩
  | _ => exact h

/-- Where a task is after a turn, with what it has to account for. -/
def Reaches (t : CycleTerms) (c : Crew) (n : Nat) (acc : Account) : Prop :=
  ∃ post, c.posts.find? n = some post ∧ Accounts t c acc post

theorem reaches_idle (c : Crew) (n : Nat) (hidle : post.isIdle = true) :
    Reaches t (c.proceed n post) n {} :=
  ⟨post, SortedMap.find?_insert_self .., accounts_of_idle hidle rfl⟩

theorem reaches_backoff (c : Crew) (n : Nat) : Reaches t (c.finish n .backoff) n {} :=
  ⟨.ended .backoff, SortedMap.find?_insert_self .., .inl ⟨rfl, rfl⟩⟩

/-! ## Turns without a lease -/

theorem reaches_obtain (hs : Stocked c) (hu : Under t c) (n : Nat) (id : PoolId) :
    Reaches t (c.obtain n id) n {} := by
  have hphase := hs.phase?_request id c.trigger.sink
  unfold obtain
  split <;> rename_i ho <;> change c.offer? id = _ at ho <;> rw [ho] at hphase
  · exact reaches_backoff ..
  · rename_i o
    refine ⟨_, SortedMap.find?_insert_self .., rfl, o, ?_⟩
    rw [← hu.sink]
    exact (hphase id o.lease).trans (if_pos rfl)

theorem reaches_openLease (hs : Stocked c) (hu : Under t c)
    (h : Accounts t c acc (.opening id lease)) (n : Nat) :
    Reaches t (c.openLease n id lease) n acc := by
  obtain ⟨rfl, o, hph⟩ := h
  obtain ⟨p, hp⟩ := hs.pool_of_phase hph
  have hworld := (hs.phases_world hp lease).trans hph
  have hphase := (hs.phase?_onPool hp (.supply lease) id lease).trans (if_pos rfl)
  have henv : (c.onPool id (.supply lease)).env = ((c.world p).act (.supply lease)).env := by
    rw [onPool_some hp]
    rfl
  obtain ⟨hreader, hsettings⟩ := hu.pools id p hp
  unfold openLease
  dsimp only
  obtain ⟨connection, hheld⟩ | hended := World.phase_supply_issued hworld
  · rw [hheld] at hphase
    rw [hphase]
    refine ⟨_, SortedMap.find?_insert_self .., _, hphase, .on ?_⟩
    show Course t (c.onPool id (.supply lease)).env.now _ _ _
    rw [henv]
    show Course t _ .checking (.held (.issue o.lease connection p.reader p.settings t.sink _)) {}
    rw [hreader, hsettings]
    exact .begins o.lease connection
  · rw [hended] at hphase
    rw [hphase]
    exact reaches_backoff ..

/-- A task that has no lease has done nothing that has to be accounted for, and is at most about to
get one. -/
theorem reaches_turn_idle (hs : Stocked c) (hu : Under t c) (hpost : c.posts.find? n = some post)
    (hidle : post.isIdle = true) : Reaches t (c.turn n post) n {} := by
  cases post with
  | opening id lease => cases hidle
  | leased id lease s => cases hidle
  | ended o => cases hidle
  | arriving =>
    simp only [turn, arrive]
    split
    · exact reaches_idle _ n rfl
    · exact reaches_backoff ..
  | looking =>
    simp only [turn, look]
    split
    · exact reaches_idle _ n rfl
    · refine reaches_idle _ n ?_
      split <;> rfl
  | asking id topics counts =>
    cases topics with
    | nil =>
      simp only [turn, ask]
      split <;> exact reaches_idle _ n rfl
    | cons topic topics =>
      simp only [turn, ask]
      split
      · exact reaches_idle _ n rfl
      · split <;> exact reaches_idle _ n rfl
  | rejecting id => exact reaches_backoff ..
  | installing id =>
    refine reaches_idle _ n ?_
    split <;> rfl
  | placing id =>
    simp only [turn, place]
    split <;> exact reaches_idle _ n rfl
  | dismissing id existing =>
    cases existing with
    | none => exact reaches_backoff ..
    | some id' => exact reaches_idle _ n rfl
  | obtaining id => exact reaches_obtain hs hu n id
  | closing => exact reaches_idle _ n rfl
  | taking =>
    simp only [turn, take]
    split <;> exact reaches_idle _ n rfl
  | shutting id => exact reaches_idle _ n rfl
  | rousing grace =>
    simp only [turn, rouse]
    split <;> exact reaches_idle _ n rfl
  | sparing id deadline next =>
    simp only [turn, spare]
    split
    · exact ⟨_, hpost, rfl⟩
    · split <;> exact reaches_idle _ n rfl
  | gathering id => exact reaches_idle _ n rfl
  | waking handles =>
    cases handles with
    | nil => exact ⟨_, hpost, rfl⟩
    | cons handle handles => exact reaches_idle _ n rfl
  | closed => exact ⟨_, hpost, rfl⟩

/-! ## Turns with a lease -/

theorem posts_attend {s : Stint} (hs : ∀ o, s ≠ .returning o) (c : Crew) (n : Nat) (id : PoolId)
    (lease : LeaseId) : (c.attend n id lease s).posts.find? n =
      some (.leased id lease
        (s.next c.trigger.scheduled ((c.actOn id lease s).bind (c.reply id)))) := by
  cases s with
  | returning o => exact absurd rfl (hs o)
  | _ => exact SortedMap.find?_insert_self ..

theorem phase?_attend (c : Crew) (n : Nat) (id : PoolId) (lease : LeaseId) (s : Stint)
    (id' : PoolId) (lease' : LeaseId) : (c.attend n id lease s).phase? id' lease' =
      (c.onPool? id (c.actOn id lease s)).phase? id' lease' := by
  unfold attend
  dsimp only
  split <;> rfl

theorem reaches_attend (hs : Seated c) (hu : Under t c) {s : Stint}
    (hpost : c.posts.find? n = some (.leased id lease s))
    (h : Accounts t c acc (.leased id lease s)) :
    Reaches t (c.attend n id lease s) n (acc.add (c.gains n)) := by
  obtain ⟨ph, hph, hheads⟩ := h
  obtain ⟨ph', hph', hfits⟩ := (hs.manned.posts n _ hpost).2
  obtain rfl : ph = ph' := Option.some.inj (hph.symm.trans hph')
  obtain ⟨p, hp⟩ := hs.stocked.pool_of_phase hph
  have hworld := (hs.stocked.phases_world hp lease).trans hph
  have hact : c.actOn id lease s = s.action? lease ph.isWaiting := by
    rw [actOn, hph]
    rfl
  have hnow : c.env.now ≤ (c.attend n id lease s).env.now :=
    (c.onward_turn n (.leased id lease s)).now
  cases hheads with
  | back hends =>
    refine ⟨.ended _, SortedMap.find?_insert_self .., .inr ?_⟩
    rw [gains_attend hpost hp hact, ((c.world p).gains_leave lease).2, Account.add_empty]
    exact hends
  | @out o hends =>
    have hne : ∀ o', Stint.leaving o ≠ .returning o' := by rintro o' ⟨⟩
    obtain ⟨ph', hph', -⟩ := hs.stocked.seat_attend hph hfits hne
    refine ⟨_, posts_attend hne c n id lease, ph', (c.phase?_attend ..).trans hph', .back ?_⟩
    rw [gains_attend hpost hp hact, ((c.world p).gains_leave lease).1, Account.add_empty]
    exact hends
  | on h =>
    refine ⟨_, posts_attend (fun o => (h.not_leaving o).2) c n id lease, ?_⟩
    cases ha : s.action? lease ph.isWaiting with
    | some a =>
      rw [ha] at hact
      obtain ⟨ph', hph', hheads⟩ :=
        h.act (w := c.world p) hworld hfits ha hu.limit c.trigger.scheduled
      refine ⟨ph', ?_, ?_⟩
      · rw [phase?_attend, hact]
        exact ((hs.stocked.phase?_onPool hp a id lease).trans (if_pos rfl)).trans hph'
      · rw [gains_attend hpost hp hact, hact, Option.bind_some, reply_some hp]
        exact hheads.later hnow
    | none =>
      rw [ha] at hact
      rw [gains_idle hpost hact, Account.add_empty, hact]
      refine ⟨ph, ?_, Heads.later ?_ hnow⟩
      · rw [phase?_attend, hact]
        exact hph
      · cases hfits with
        | checking l =>
          have hlooks := h.looks c.trigger.scheduled
          exact .on hlooks
        | settling l =>
          cases hscheduled : c.trigger.scheduled with
          | true => exact .on h.schedules
          | false => exact .out (.unscheduled h)
        | _ => cases ha

/-! ## Every run -/

/-- A task is where its turns have brought it; one that is not there yet has had none. -/
def Conducts (t : CycleTerms) (c : Crew) (n : Nat) (acc : Account) : Prop :=
  match c.posts.find? n with
  | some post => Accounts t c acc post
  | none => acc = {}

theorem conducts_some (hpost : c.posts.find? n = some post) :
    Conducts t c n acc ↔ Accounts t c acc post := by
  rw [Conducts, hpost]

theorem conducts_none (hpost : c.posts.find? n = none) : Conducts t c n acc ↔ acc = {} := by
  rw [Conducts, hpost]

theorem Reaches.conducts (h : Reaches t c n acc) : Conducts t c n acc := by
  obtain ⟨post, hpost, h⟩ := h
  exact (conducts_some hpost).mpr h

namespace Conducts

/-- Somebody else has a turn, or something happens outside. -/
theorem aside (h : Conducts t c n acc) (hposts : c'.posts.find? n = c.posts.find? n)
    (hnow : c.env.now ≤ c'.env.now)
    (hph : ∀ post id lease, c.posts.find? n = some post → post.lease? = some (id, lease) →
      c'.phase? id lease = c.phase? id lease) : Conducts t c' n acc := by
  cases hpost : c.posts.find? n with
  | none =>
    rw [hpost] at hposts
    exact (conducts_none hposts).mpr ((conducts_none hpost).mp h)
  | some post =>
    rw [hpost] at hposts
    have hlater := ((conducts_some hpost).mp h).later hnow fun id lease => hph post id lease hpost
    exact (conducts_some hposts).mpr hlater

/-- A task is there that has done nothing yet. -/
theorem enter (hacc : acc = {}) (hposts : c'.posts.find? n = some post)
    (hidle : post.isIdle = true) : Conducts t c' n acc :=
  (conducts_some hposts).mpr (accounts_of_idle hidle hacc)

theorem turn (hs : Seated c) (hu : Under t c) (h : Conducts t c n acc) :
    Conducts t (c.act (.turn n)) n (acc.add (c.gains n)) := by
  cases hpost : c.posts.find? n with
  | none =>
    have hact : c.act (.turn n) = c := by simp only [Crew.act, hpost]
    have hgains : c.gains n = {} := gains_of_post fun id lease s h => by
      rw [hpost] at h
      cases h
    rwa [hact, hgains, Account.add_empty]
  | some post =>
    have haccounts := (conducts_some hpost).mp h
    cases post with
    | leased id lease s =>
      rw [act_turn_leased hpost]
      exact (reaches_attend hs hu hpost haccounts).conducts
    | _ =>
      have hgains : c.gains n = {} := gains_of_post fun id lease s h => by
        rw [hpost] at h
        cases h
      rw [hgains, Account.add_empty]
      simp only [Crew.act, hpost]
      split
      · exact h
      · first
        | exact (reaches_openLease hs.stocked hu haccounts n).conducts
        | exact h
        | obtain rfl := haccounts.of_idle rfl
          exact (reaches_turn_idle hs.stocked hu hpost rfl).conducts

/-- Another task has a turn, and touches no lease of this one. -/
theorem turn_other {m : Nat} (hs : Seated c) (hne : n ≠ m) (h : Conducts t c n acc) :
    Conducts t (c.act (.turn m)) n acc := by
  have hnow := (c.onward_act (.turn m)).now
  simp only [Crew.act] at hnow ⊢
  cases hm : c.posts.find? m with
  | none => exact h
  | some post =>
    rw [hm] at hnow
    dsimp only at hnow ⊢
    split at hnow
    · rw [if_pos ‹_›]
      exact h
    · rw [if_neg ‹_›]
      have ht := turned hs.stocked hm
      obtain ⟨post', -, hfind, -⟩ := ht.leads
      refine h.aside ((hfind n).trans (if_neg hne)) hnow fun post₁ id lease hn hlease => ?_
      have hlive := live_of_seat (hs.manned.posts n _ hn).2 hlease
      exact ht.others id lease hlive fun hl =>
        hne (hs.manned.apart n m _ post _ hn hm hlease hl)

/-- A task is spawned, perhaps this one. -/
theorem spawn (hs : Seated c) (h : Conducts t c n acc) (job : Job) :
    Conducts t (c.act (.spawn job)) n acc := by
  by_cases heq : n = c.nextTask
  · have hnone : c.posts.find? n = none := by
      cases hpost : c.posts.find? n with
      | none => rfl
      | some post => exact absurd (hs.manned.posts n post hpost).1 (heq ▸ Nat.lt_irrefl n)
    have hposts : (c.act (.spawn job)).posts.find? n = some job.post := by
      rw [heq]
      exact SortedMap.find?_insert_self ..
    exact enter ((conducts_none hnone).mp h) hposts (by cases job <;> rfl)
  · exact h.aside (SortedMap.find?_insert_of_ne heq ..) (Nat.le_refl _) fun _ _ _ _ _ => rfl

theorem act (hs : Seated c) (hu : Under t c) (h : Conducts t c n acc) (d : Doing) :
    Conducts t (c.act d) n (acc.add (if d.isTurnOf n = true then c.gains n else {})) := by
  have hnow := (c.onward_act d).now
  cases hd : d.isTurnOf n with
  | true =>
    cases d with
    | turn m =>
      obtain rfl : m = n := beq_iff_eq.mp hd
      exact h.turn hs hu
    | _ => cases hd
  | false =>
    rw [if_neg Bool.false_ne_true, Account.add_empty]
    cases d with
    | spawn job => exact h.spawn hs job
    | turn m =>
      have hne : n ≠ m := by
        rintro rfl
        exact absurd hd (by simp [Doing.isTurnOf])
      exact h.turn_other hs hne
    | lose m =>
      simp only [Crew.act]
      split
      · rename_i id topics counts hm
        by_cases heq : n = m
        · subst heq
          exact enter ((conducts_some hm).mp h) (SortedMap.find?_insert_self ..) rfl
        · exact h.aside (SortedMap.find?_insert_of_ne heq ..) (Nat.le_refl _) fun _ _ _ _ _ => rfl
      · exact h
    | evictIdle =>
      cases hslot : c.trigger.slot with
      | none =>
        simp only [Crew.act, hslot]
        exact h
      | some id =>
        simp only [Crew.act, hslot] at hnow ⊢
        have hbeside := c.beside_onPool id .evictIdle
        exact h.aside (by rw [hbeside.posts]) hnow fun _ id' lease _ _ =>
          hs.stocked.phase?_evictIdle id id' lease
    | _ => exact h.aside rfl hnow fun _ _ _ _ _ => rfl

/-- What holds of a task and its account before a run holds of them after it. -/
theorem run (hs : Seated c) (hu : Under t c) (h : Conducts t c n acc) (ds : List Doing) :
    Conducts t (c.run ds) n (acc.add (c.account n ds)) := by
  induction ds generalizing c acc with
  | nil => exact acc.add_empty.symm ▸ h
  | cons d ds ih =>
    have hnext := ih (seated_step (act_step c d) hs) (hu.act hs.stocked d) (h.act hs hu d)
    rwa [Account.add_assoc] at hnext

end Conducts

/-- In every run that starts with nobody there, a task is where its turns have brought it. -/
theorem conducts_start (maxPollRecords now : Nat) (resolver : Resolver) (reader : RecordReader)
    (settings : IntakeSettings) (sink : String) (ds : List Doing) (n : Nat) :
    Conducts ⟨reader, settings, sink, maxPollRecords⟩
      ((start maxPollRecords now resolver reader settings sink).run ds) n
      ((start maxPollRecords now resolver reader settings sink).account n ds) := by
  have hstart : Conducts ⟨reader, settings, sink, maxPollRecords⟩
      (start maxPollRecords now resolver reader settings sink) n {} := rfl
  have hrun := hstart.run (seated_start ..) (under_start ..) ds
  rwa [Account.empty_add] at hrun

end Crew
end RecordIntake
