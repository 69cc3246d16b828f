import RecordIntake.Proofs.Seating

/-!
One pool at most is ever installed, and none is left open that is not.

Cycles that find no pool build one each, with no lock held, and only then look whether they came
first.  What decides is the slot: it is filled only by a task that has its lock and has seen the
trigger scheduled, and emptied only by one that has unscheduled the trigger before.  So an empty
slot of a scheduled trigger was never filled, and of a trigger that was closed it stays empty.
-/
namespace RecordIntake

/-! ## What is remembered -/

def Milestone.installed? : Milestone → Option PoolId
  | .installed _ id => some id
  | _ => none

/-- The pools that were installed, one for each time. -/
def installedIn (h : List Milestone) : List PoolId := h.filterMap Milestone.installed?

/-- The counts that the cluster told through a pool. -/
def answersOf (id : PoolId) : List Milestone → SortedMap String Nat
  | [] => []
  | .answered _ id' topic k :: h =>
    if id' = id then (answersOf id h).insert topic k else answersOf id h
  | _ :: h => answersOf id h

/-- A task has built a pool, which was not installed. -/
structure Own (h : List Milestone) (n : Nat) (id : PoolId) : Prop where
  built : .built n id ∈ h
  absent : id ∉ installedIn h

/-- If counts have to be asked for, the assignment agrees with those that were told. -/
def Accepted (r : Resolver) (h : List Milestone) (id : PoolId) : Prop :=
  r.requiresCounts = true → ∃ s, r.resolve (answersOf id h) = .ok s

/-- What was built has one builder, who asked for its counts; what was installed was accepted; and
what was obtained was installed. -/
structure Chronicle (r : Resolver) (nextPool : PoolId) (h : List Milestone) : Prop where
  sole : (installedIn h).length ≤ 1
  builder : ∀ n n' id, .built n id ∈ h → .built n' id ∈ h → n = n'
  numbered : ∀ id, id < nextPool ↔ ∃ n, .built n id ∈ h
  installed : ∀ n id, .installed n id ∈ h → .built n id ∈ h ∧ Accepted r h id
  answered : ∀ n id topic k, .answered n id topic k ∈ h → .built n id ∈ h
  obtained : ∀ n id, .obtained n id ∈ h → id ∈ installedIn h

namespace Chronicle

variable {r : Resolver} {nextPool : PoolId} {h : List Milestone} {n : Nat} {id : PoolId}

theorem mem_installedIn (n : Nat) (id : PoolId) (h : List Milestone)
    (hm : .installed n id ∈ h) : id ∈ installedIn h :=
  List.mem_filterMap.mpr ⟨_, hm, rfl⟩

theorem exists_installed (hid : id ∈ installedIn h) : ∃ n, .installed n id ∈ h := by
  obtain ⟨m, hm, heq⟩ := List.mem_filterMap.mp hid
  cases m with
  | installed n id' =>
    cases heq
    exact ⟨n, hm⟩
  | _ => cases heq

theorem eq_of_installed (hc : Chronicle r nextPool h) {id' : PoolId} (hid : id ∈ installedIn h)
    (hid' : id' ∈ installedIn h) : id = id' := by
  obtain ⟨k, hk⟩ := List.length_eq_one_iff.mp
    (Nat.le_antisymm hc.sole (List.length_pos_of_mem hid))
  rw [hk, List.mem_singleton] at hid hid'
  exact hid.trans hid'.symm

theorem start (r : Resolver) : Chronicle r 0 [] :=
  ⟨Nat.zero_le 1, nofun, fun _ => ⟨nofun, nofun⟩, nofun, nofun, nofun⟩

/-- Nothing is said of a poll, or of the end of a call to close. -/
theorem cons (hc : Chronicle r nextPool h) {m : Milestone}
    (hm : (∃ n id, m = .obtained n id ∧ id ∈ installedIn h) ∨ (∃ n, m = .polled n) ∨
      ∃ n, m = .shut n) : Chronicle r nextPool (m :: h) := by
  have hinstalled : installedIn (m :: h) = installedIn h := by
    obtain ⟨n, id, rfl, -⟩ | ⟨n, rfl⟩ | ⟨n, rfl⟩ := hm <;> rfl
  have hanswers : ∀ id, answersOf id (m :: h) = answersOf id h := by
    intro id
    obtain ⟨n, id, rfl, -⟩ | ⟨n, rfl⟩ | ⟨n, rfl⟩ := hm <;> rfl
  have hbuilt : ∀ n id, .built n id ∈ m :: h ↔ .built n id ∈ h := by
    intro n id
    obtain ⟨n, id, rfl, -⟩ | ⟨n, rfl⟩ | ⟨n, rfl⟩ := hm <;> simp
  refine ⟨hinstalled ▸ hc.sole, ?_, ?_, ?_, ?_, ?_⟩
  · simpa only [hbuilt] using hc.builder
  · simpa only [hbuilt] using hc.numbered
  · intro n id hn
    have hn : .installed n id ∈ h := by
      obtain ⟨n, id, rfl, -⟩ | ⟨n, rfl⟩ | ⟨n, rfl⟩ := hm <;> simpa using hn
    simpa only [hbuilt, Accepted, hanswers] using hc.installed n id hn
  · intro n id topic k hn
    have hn : .answered n id topic k ∈ h := by
      obtain ⟨n, id, rfl, -⟩ | ⟨n, rfl⟩ | ⟨n, rfl⟩ := hm <;> simpa using hn
    exact (hbuilt n id).mpr (hc.answered n id topic k hn)
  · intro n id hn
    rw [hinstalled]
    obtain rfl | hn := List.mem_cons.mp hn
    · obtain ⟨n', id', heq, hid⟩ | ⟨n', heq⟩ | ⟨n', heq⟩ := hm <;> cases heq
      exact hid
    · exact hc.obtained n id hn

theorem build (hc : Chronicle r nextPool h) (n : Nat) :
    Chronicle r (nextPool + 1) (.built n nextPool :: h) := by
  have hnew : ∀ m, .built m nextPool ∉ h := fun m hm =>
    Nat.lt_irrefl _ ((hc.numbered nextPool).mpr ⟨m, hm⟩)
  refine ⟨hc.sole, fun m m' id hm hm' => ?_, fun id => ?_, fun m id hm => ?_,
    fun m id topic k hm => ?_, fun m id hm => ?_⟩
  · obtain heq | hm := List.mem_cons.mp hm <;> obtain heq' | hm' := List.mem_cons.mp hm'
    · cases heq
      cases heq'
      rfl
    · cases heq
      exact absurd hm' (hnew m')
    · cases heq'
      exact absurd hm (hnew m)
    · exact hc.builder m m' id hm hm'
  · rw [Nat.lt_succ_iff_lt_or_eq, hc.numbered]
    constructor
    · rintro (⟨m, hm⟩ | rfl)
      · exact ⟨m, List.mem_cons_of_mem _ hm⟩
      · exact ⟨n, List.mem_cons_self ..⟩
    · rintro ⟨m, hm⟩
      obtain heq | hm := List.mem_cons.mp hm
      · cases heq
        exact .inr rfl
      · exact .inl ⟨m, hm⟩
  · obtain heq | hm := List.mem_cons.mp hm
    · cases heq
    · obtain ⟨hb, ha⟩ := hc.installed m id hm
      exact ⟨List.mem_cons_of_mem _ hb, ha⟩
  · obtain heq | hm := List.mem_cons.mp hm
    · cases heq
    · exact List.mem_cons_of_mem _ (hc.answered m id topic k hm)
  · obtain heq | hm := List.mem_cons.mp hm
    · cases heq
    · exact hc.obtained m id hm

/-- Counts are told through a pool before it is installed. -/
theorem answer (hc : Chronicle r nextPool h) (hown : Own h n id) (topic : String) (k : Nat) :
    Chronicle r nextPool (.answered n id topic k :: h) := by
  have hbuilt : ∀ m id', .built m id' ∈ Milestone.answered n id topic k :: h ↔
      .built m id' ∈ h := by simp
  refine ⟨hc.sole, ?_, ?_, fun m id' hm => ?_, fun m id' topic' k' hm => ?_, fun m id' hm => ?_⟩
  · simpa only [hbuilt] using hc.builder
  · simpa only [hbuilt] using hc.numbered
  · obtain heq | hm := List.mem_cons.mp hm
    · cases heq
    · obtain ⟨hb, ha⟩ := hc.installed m id' hm
      have hne : id ≠ id' := fun heq => hown.absent (heq ▸ mem_installedIn m id' h hm)
      refine ⟨List.mem_cons_of_mem _ hb, fun hr => ?_⟩
      rw [answersOf, if_neg hne]
      exact ha hr
  · obtain heq | hm := List.mem_cons.mp hm
    · cases heq
      exact List.mem_cons_of_mem _ hown.built
    · exact List.mem_cons_of_mem _ (hc.answered m id' topic' k' hm)
  · obtain heq | hm := List.mem_cons.mp hm
    · cases heq
    · exact hc.obtained m id' hm

/-- The first pool is installed. -/
theorem install (hc : Chronicle r nextPool h) (hnone : installedIn h = []) (hown : Own h n id)
    (haccepted : Accepted r h id) : Chronicle r nextPool (.installed n id :: h) := by
  have hbuilt : ∀ m id', .built m id' ∈ Milestone.installed n id :: h ↔ .built m id' ∈ h := by
    simp
  have hinstalled : installedIn (.installed n id :: h) = [id] := congrArg (id :: ·) hnone
  refine ⟨Nat.le_of_eq (congrArg List.length hinstalled), ?_, ?_, fun m id' hm => ?_,
    fun m id' topic k hm => ?_, fun m id' hm => ?_⟩
  · simpa only [hbuilt] using hc.builder
  · simpa only [hbuilt] using hc.numbered
  · obtain heq | hm := List.mem_cons.mp hm
    · cases heq
      exact ⟨List.mem_cons_of_mem _ hown.built, haccepted⟩
    · have hmem := mem_installedIn m id' h hm
      rw [hnone] at hmem
      cases hmem
  · obtain heq | hm := List.mem_cons.mp hm
    · cases heq
    · exact List.mem_cons_of_mem _ (hc.answered m id' topic k hm)
  · obtain heq | hm := List.mem_cons.mp hm
    · cases heq
    · have hmem := hc.obtained m id' hm
      rw [hnone] at hmem
      cases hmem

end Chronicle

theorem answersOf_eq_nil {id : PoolId} {h : List Milestone}
    (hnone : ∀ n topic k, .answered n id topic k ∉ h) : answersOf id h = [] := by
  induction h with
  | nil => rfl
  | cons m h ih =>
    have htail := ih fun n topic k hm => hnone n topic k (List.mem_cons_of_mem _ hm)
    cases m with
    | answered n id' topic k =>
      refine (if_neg ?_).trans htail
      rintro rfl
      exact hnone n topic k (List.mem_cons_self ..)
    | _ => exact htail

/-! ## Posts -/

/-- The pool that a task has built and still has to see to. -/
def Post.own? : Post → Option PoolId
  | .asking id _ _ | .rejecting id | .installing id | .placing id | .dismissing id _ => some id
  | _ => none

/-- The pool that a cycle got and uses. -/
def Post.uses? : Post → Option PoolId
  | .obtaining id | .opening id _ | .leased id _ _ => some id
  | _ => none

/-- What holds of the trigger and of what is remembered when a task is at its post. -/
def Post.Proper (t : Trigger) (h : List Milestone) (n : Nat) : Post → Prop
  | .asking id _ counts => Own h n id ∧ counts = answersOf id h
  | .rejecting id => Own h n id
  | .installing id => Own h n id ∧ Accepted t.resolver h id
  | .placing id =>
    Own h n id ∧ Accepted t.resolver h id ∧ (t.slot = none → installedIn h = [])
  | .dismissing id existing => Own h n id ∧ ∀ id', existing = some id' → id' ∈ installedIn h
  | .obtaining id | .opening id _ | .leased id _ _ | .sparing id _ _ | .gathering id =>
    id ∈ installedIn h
  | .taking => t.scheduled = false
  | .shutting id => t.scheduled = false ∧ t.slot = none ∧ id ∈ installedIn h
  | _ => True

namespace Post.Proper

variable {t t' : Trigger} {h h' : List Milestone} {n : Nat} {post : Post}

theorem own (hp : post.Proper t h n) {id : PoolId} (hown : post.own? = some id) : Own h n id := by
  cases post <;> cases hown
  · exact hp.1
  · exact hp
  · exact hp.1
  · exact hp.1
  · exact hp.1

/-- A task without the lock does not depend on the slot. -/
theorem free (hp : post.Proper t h n) (hfree : post.holdsSlot = false)
    (hresolver : t'.resolver = t.resolver)
    (hscheduled : t.scheduled = false → t'.scheduled = false)
    (hsub : ∀ id, id ∈ installedIn h → id ∈ installedIn h')
    (hown : ∀ id, post.own? = some id → Own h' n id ∧ answersOf id h' = answersOf id h) :
    post.Proper t' h' n := by
  cases post with
  | asking id topics counts =>
    obtain ⟨hown, ha⟩ := hown id rfl
    exact ⟨hown, hp.2.trans ha.symm⟩
  | rejecting id => exact (hown id rfl).1
  | installing id =>
    obtain ⟨hown, ha⟩ := hown id rfl
    refine ⟨hown, ?_⟩
    rw [Accepted, ha, hresolver]
    exact hp.2
  | placing id => cases hfree
  | dismissing id existing => cases hfree
  | shutting id => cases hfree
  | taking => exact hscheduled hp
  | obtaining id => exact hsub id hp
  | opening id lease => exact hsub id hp
  | leased id lease s => exact hsub id hp
  | sparing id deadline next => exact hsub id hp
  | gathering id => exact hsub id hp
  | _ => trivial

/-- As long as the slot stays as it is, so does everybody. -/
theorem mono (hp : post.Proper t h n) (hresolver : t'.resolver = t.resolver)
    (hscheduled : t.scheduled = false → t'.scheduled = false) (hslot : t'.slot = t.slot)
    (hinstalled : installedIn h' = installedIn h)
    (hbuilt : ∀ id, .built n id ∈ h → .built n id ∈ h')
    (hanswers : ∀ id, post.own? = some id → answersOf id h' = answersOf id h) :
    post.Proper t' h' n := by
  have hown : ∀ id, post.own? = some id → Own h' n id ∧ answersOf id h' = answersOf id h := by
    intro id hid
    obtain ⟨hb, habsent⟩ := hp.own hid
    exact ⟨⟨hbuilt id hb, hinstalled ▸ habsent⟩, hanswers id hid⟩
  cases hholds : post.holdsSlot with
  | false => exact hp.free hholds hresolver hscheduled (fun id hid => hinstalled ▸ hid) hown
  | true =>
    cases post with
    | placing id =>
      obtain ⟨hown, ha⟩ := hown id rfl
      refine ⟨hown, ?_, ?_⟩
      · rw [Accepted, ha, hresolver]
        exact hp.2.1
      · rw [hslot, hinstalled]
        exact hp.2.2
    | dismissing id existing =>
      refine ⟨(hown id rfl).1, ?_⟩
      rw [hinstalled]
      exact hp.2
    | shutting id =>
      refine ⟨hscheduled hp.1, hslot.trans hp.2.1, ?_⟩
      rw [hinstalled]
      exact hp.2.2
    | _ => cases hholds

end Post.Proper

/-! ## The trigger and its tasks -/

namespace Crew

variable {r : Resolver} {c c' : Crew} {n : Nat} {post post' : Post} {id : PoolId}

/-- A pool is there, and closed. -/
def Closed (c : Crew) (id : PoolId) : Prop := ∃ p, c.pool? id = some p ∧ p.closed = true

/-- Whoever is not with its builder any more is installed or closed, nobody is at a post that does
not fit the slot, and an emptied slot stays empty. -/
structure Orderly (r : Resolver) (c : Crew) : Prop where
  resolver : c.trigger.resolver = r
  chronicle : Chronicle r c.trigger.nextPool c.history
  posts : ∀ n post, c.posts.find? n = some post → post.Proper c.trigger c.history n
  holder : ∀ n m post post', c.posts.find? n = some post → c.posts.find? m = some post' →
    post.holdsSlot = true → post'.holdsSlot = true → n = m
  slot : ∀ id, c.trigger.slot = some id → id ∈ installedIn c.history
  emptied : c.trigger.slot = none → installedIn c.history ≠ [] → c.trigger.scheduled = false ∧
    ((∃ m, .shut m ∈ c.history) ∨ ∃ n id, c.posts.find? n = some (.shutting id))
  seen : ∀ n id, .built n id ∈ c.history → id ∈ installedIn c.history ∨ c.Closed id ∨
    ∃ post, c.posts.find? n = some post ∧ post.own? = some id
  shut : ∀ n, .shut n ∈ c.history → c.trigger.scheduled = false ∧ c.trigger.slot = none ∧
    (∀ m id, c.posts.find? m ≠ some (.placing id)) ∧
      ∀ id ∈ installedIn c.history, c.Closed id

theorem free_of_unlocked (hfree : c.isLocked = false) (hpost : c.posts.find? n = some post) :
    post.holdsSlot = false := by
  have hall := List.any_eq_false.mp hfree _ (SortedMap.mem_of_find? hpost)
  exact Bool.eq_false_iff.mpr hall

/-- With one task at another post, there are still no two tasks that have the lock. -/
theorem sole_insert {posts : SortedMap Nat Post}
    (hsole : ∀ m m' post₁ post₂, posts.find? m = some post₁ → posts.find? m' = some post₂ →
      post₁.holdsSlot = true → post₂.holdsSlot = true → m = m')
    (hothers : post'.holdsSlot = true → ∀ m post₁, m ≠ n → posts.find? m = some post₁ →
      post₁.holdsSlot = false)
    (m m' : Nat) (post₁ post₂ : Post) (hm : (posts.insert n post').find? m = some post₁)
    (hm' : (posts.insert n post').find? m' = some post₂) (hholds₁ : post₁.holdsSlot = true)
    (hholds₂ : post₂.holdsSlot = true) : m = m' := by
  obtain ⟨rfl, rfl⟩ | ⟨hne, hold⟩ := SortedMap.of_find?_insert hm
  · by_contra hne
    obtain ⟨rfl, -⟩ | ⟨hne', hold'⟩ := SortedMap.of_find?_insert hm'
    · exact hne rfl
    · rw [hothers hholds₁ m' post₂ hne' hold'] at hholds₂
      cases hholds₂
  · obtain ⟨rfl, rfl⟩ | ⟨-, hold'⟩ := SortedMap.of_find?_insert hm'
    · rw [hothers hholds₂ m post₁ hne hold] at hholds₁
      cases hholds₁
    · exact hsole m m' post₁ post₂ hold hold' hholds₁ hholds₂

/-- Between two crews only pools and leases have changed, or the trigger was unscheduled, and no
pool was opened again. -/
structure Drifts (c c' : Crew) : Prop where
  posts : c'.posts = c.posts
  history : c'.history = c.history
  slot : c'.trigger.slot = c.trigger.slot
  scheduled : c.trigger.scheduled = false → c'.trigger.scheduled = false
  resolver : c'.trigger.resolver = c.trigger.resolver
  closed : ∀ id, c.Closed id → c'.Closed id

theorem Drifts.of_env (c : Crew) (env : Environment) : Drifts c { c with env := env } :=
  ⟨rfl, rfl, rfl, fun h => h, rfl, fun _ h => h⟩

theorem Drifts.unschedule (c : Crew) : Drifts c { c with trigger := c.trigger.unschedule } :=
  ⟨rfl, rfl, rfl, fun _ => rfl, rfl, fun _ h => h⟩

theorem Drifts.onPool (hs : Stocked c) (id : PoolId) (a : Action) : Drifts c (c.onPool id a) where
  posts := (c.beside_onPool id a).posts
  history := (c.beside_onPool id a).history
  slot := (c.beside_onPool id a).slot
  scheduled h := (c.beside_onPool id a).scheduled.trans h
  resolver := (c.beside_onPool id a).resolver
  closed id' := by
    rintro ⟨p', hp', hclosed⟩
    cases hp : c.pool? id with
    | none =>
      rw [onPool_none hp]
      exact ⟨p', hp', hclosed⟩
    | some p =>
      rw [Closed, onPool_some hp]
      simp only [pool?_withWorld, hs.id_act hp]
      split
      · rename_i heq
        obtain rfl : p' = p := Option.some.inj (hp'.symm.trans (heq ▸ hp))
        obtain ⟨_, _, _, _, ht⟩ :=
          World.transfers_of_step (World.act_step (c.world p') a) (hs.owned hp)
        exact ⟨_, rfl, (ht.shut hclosed).2⟩
      · exact ⟨p', hp', hclosed⟩

theorem Drifts.onPool? (hs : Stocked c) (id : PoolId) (a : Option Action) :
    Drifts c (c.onPool? id a) := by
  cases a with
  | none => exact .of_env c c.env
  | some a => exact .onPool hs id a

/-- A closed pool is not asked any more. -/
theorem Drifts.ask (hs : Stocked c) {p : Pool} (hp : c.pool? id = some p) (topic : String) :
    Drifts c { c with
      env := (p.partitionCount c.env topic).1
      trigger := c.trigger.withPool (p.partitionCount c.env topic).2.1 } := by
  refine ⟨rfl, rfl, rfl, fun h => h, rfl, ?_⟩
  rintro id' ⟨p', hp', hclosed⟩
  have hid := (hs.owned_partitionCount hp topic).1
  have hfind : ∀ p₁ : Pool, p₁.id = id → (c.trigger.withPool p₁).pools.find? id' =
      if id' = id then some p₁ else c.pool? id' := by
    rintro p₁ rfl
    exact SortedMap.find?_insert ..
  rw [Closed]
  show ∃ p₁, (c.trigger.withPool _).pools.find? id' = some p₁ ∧ _
  rw [hfind _ hid]
  split
  · rename_i heq
    obtain rfl : p' = p := Option.some.inj (hp'.symm.trans (heq ▸ hp))
    refine ⟨_, rfl, ?_⟩
    simp only [Pool.partitionCount, Pool.startQuery, Pool.supplyQuery, hclosed, if_true]
  · exact ⟨p', hp', hclosed⟩

theorem closed_close (hs : Stocked c) {p : Pool} (hp : c.pool? id = some p) :
    (c.onPool id .close).Closed id := by
  rw [Closed, onPool_some hp]
  simp only [pool?_withWorld, hs.id_act hp, if_true]
  exact ⟨_, rfl, Pool.closed_shut p⟩

namespace Orderly

theorem owned (h : Orderly r c) (hpost : c.posts.find? n = some post) (hown : post.own? = some id) :
    Own c.history n id := (h.posts n post hpost).own hown

theorem drift (h : Orderly r c) (hd : Drifts c c')
    (hnext : c'.trigger.nextPool = c.trigger.nextPool) : Orderly r c' where
  resolver := hd.resolver.trans h.resolver
  chronicle := hd.history ▸ hnext ▸ h.chronicle
  posts n post hpost := by
    rw [hd.history]
    exact (h.posts n post (hd.posts ▸ hpost)).mono hd.resolver hd.scheduled hd.slot rfl
      (fun _ hb => hb) fun _ _ => rfl
  holder := hd.posts ▸ h.holder
  slot id hslot := hd.history ▸ h.slot id (hd.slot ▸ hslot)
  emptied hslot hne := by
    rw [hd.history] at hne ⊢
    rw [hd.posts]
    obtain ⟨hsched, hdone⟩ := h.emptied (hd.slot ▸ hslot) hne
    exact ⟨hd.scheduled hsched, hdone⟩
  seen n id hb := by
    rw [hd.history] at hb ⊢
    rw [hd.posts]
    exact (h.seen n id hb).imp_right (Or.imp_left (hd.closed id))
  shut n hn := by
    rw [hd.history] at hn ⊢
    rw [hd.posts, hd.slot]
    obtain ⟨hsched, hslot, hplacing, hall⟩ := h.shut n hn
    exact ⟨hd.scheduled hsched, hslot, hplacing, fun id hid => hd.closed id (hall id hid)⟩

/-- A task goes on.  It may come to have the lock if nobody has it, it leaves its pool when that is
closed, and fills the slot only of a trigger that is scheduled. -/
theorem proceed (h : Orderly r c) (hpost : c.posts.find? n = some post)
    (hproper : post'.Proper c.trigger c.history n)
    (hholds : post'.holdsSlot = true → post.holdsSlot = true ∨ c.isLocked = false)
    (hown : ∀ id, post.own? = some id → post'.own? = some id ∨ c.Closed id)
    (hshutting : ∀ id, post = .shutting id → ∃ m, .shut m ∈ c.history)
    (hplacing : ∀ id, post' = .placing id → c.trigger.scheduled = true) :
    Orderly r (c.proceed n post') := by
  have halone : post'.holdsSlot = true → ∀ m post₁, m ≠ n → c.posts.find? m = some post₁ →
      post₁.holdsSlot = false := by
    intro hholds' m post₁ hne hm
    obtain hbefore | hfree := hholds hholds'
    · refine Bool.eq_false_iff.mpr fun hholds₁ => hne ?_
      exact h.holder m n post₁ post hm hpost hholds₁ hbefore
    · exact free_of_unlocked hfree hm
  refine { h with
    posts := ?posts
    holder := sole_insert h.holder halone
    emptied := ?emptied
    seen := ?seen
    shut := ?shut }
  case posts =>
    intro m post₁ hm
    obtain ⟨rfl, rfl⟩ | ⟨-, hm⟩ := SortedMap.of_find?_insert hm
    · exact hproper
    · exact h.posts m post₁ hm
  case emptied =>
    intro hslot hne
    obtain ⟨hsched, hshut | ⟨m, id, hm⟩⟩ := h.emptied hslot hne
    · exact ⟨hsched, .inl hshut⟩
    · obtain hm | ⟨-, heq⟩ := SortedMap.find?_insert_of_find? hpost hm post'
      · exact ⟨hsched, .inr ⟨m, id, hm⟩⟩
      · exact ⟨hsched, .inl (hshutting id heq.symm)⟩
  case seen =>
    intro m id hb
    obtain hinstalled | hclosed | ⟨post₁, hm, hid⟩ := h.seen m id hb
    · exact .inl hinstalled
    · exact .inr (.inl hclosed)
    · obtain hm | ⟨rfl, rfl⟩ := SortedMap.find?_insert_of_find? hpost hm post'
      · exact .inr (.inr ⟨post₁, hm, hid⟩)
      · obtain hown' | hclosed := hown id hid
        · exact .inr (.inr ⟨post', SortedMap.find?_insert_self .., hown'⟩)
        · exact .inr (.inl hclosed)
  case shut =>
    intro m hm
    obtain ⟨hsched, hslot, hnone, hall⟩ := h.shut m hm
    refine ⟨hsched, hslot, fun m' id hm' => ?_, hall⟩
    obtain ⟨-, heq⟩ | ⟨-, hm'⟩ := SortedMap.of_find?_insert hm'
    · have hscheduled := hplacing id heq.symm
      rw [hsched] at hscheduled
      cases hscheduled
    · exact hnone m' id hm'

/-- A task goes on that neither has the lock nor gets it, and that keeps its pool if it has one. -/
theorem keep (h : Orderly r c) (hpost : c.posts.find? n = some post)
    (hproper : post'.Proper c.trigger c.history n) (hholds : post.holdsSlot = false)
    (hholds' : post'.holdsSlot = false) (hown : ∀ id, post.own? = some id → post'.own? = some id) :
    Orderly r (c.proceed n post') := by
  refine h.proceed hpost hproper ?_ (fun id ho => .inl (hown id ho)) ?_ ?_
  · rw [hholds']
    rintro ⟨⟩
  · rintro id rfl
    cases hholds
  · rintro id rfl
    cases hholds'

/-- A task goes on that neither has the lock nor gets it, and that has no pool. -/
theorem pass (h : Orderly r c) (hpost : c.posts.find? n = some post)
    (hproper : post'.Proper c.trigger c.history n) (hholds : post.holdsSlot = false)
    (hholds' : post'.holdsSlot = false) (hnone : post.own? = none) :
    Orderly r (c.proceed n post') := by
  refine h.keep hpost hproper hholds hholds' fun id ho => ?_
  rw [hnone] at ho
  cases ho

/-- What is remembered of polls, of cycles that got their pool, and of calls to close. -/
theorem remember (h : Orderly r c) {m : Milestone}
    (hm : (∃ n id, m = .obtained n id ∧ id ∈ installedIn c.history) ∨ (∃ n, m = .polled n) ∨
      ∃ n, m = .shut n ∧ c.trigger.scheduled = false ∧ c.trigger.slot = none ∧
        (∀ m id, c.posts.find? m ≠ some (.placing id)) ∧
          ∀ id ∈ installedIn c.history, c.Closed id) : Orderly r (c.remember m) := by
  have hchronicle : Chronicle r c.trigger.nextPool (m :: c.history) := by
    refine h.chronicle.cons ?_
    obtain ho | hp | ⟨n, hs, -⟩ := hm
    · exact .inl ho
    · exact .inr (.inl hp)
    · exact .inr (.inr ⟨n, hs⟩)
  have hinstalled : installedIn (m :: c.history) = installedIn c.history := by
    obtain ⟨n, id, rfl, -⟩ | ⟨n, rfl⟩ | ⟨n, rfl, -⟩ := hm <;> rfl
  have hanswers : ∀ id, answersOf id (m :: c.history) = answersOf id c.history := by
    intro id
    obtain ⟨n, id, rfl, -⟩ | ⟨n, rfl⟩ | ⟨n, rfl, -⟩ := hm <;> rfl
  refine ⟨h.resolver, hchronicle, fun n post hpost => ?_, h.holder, ?_, ?_, fun n id hb => ?_,
    fun n hn => ?_⟩
  · exact (h.posts n post hpost).mono rfl (fun hs => hs) rfl hinstalled
      (fun _ hb => List.mem_cons_of_mem _ hb) fun id _ => hanswers id
  · show ∀ id, _ → id ∈ installedIn (m :: c.history)
    exact hinstalled ▸ h.slot
  · show _ → installedIn (m :: c.history) ≠ [] → _
    rw [hinstalled]
    intro hslot hne
    obtain ⟨hsched, hdone⟩ := h.emptied hslot hne
    exact ⟨hsched, hdone.imp_left fun ⟨k, hk⟩ => ⟨k, List.mem_cons_of_mem _ hk⟩⟩
  · show id ∈ installedIn (m :: c.history) ∨ _
    rw [hinstalled]
    refine h.seen n id ((List.mem_cons.mp hb).resolve_left ?_)
    rintro rfl
    obtain ⟨_, _, heq, -⟩ | ⟨_, heq⟩ | ⟨_, heq, -⟩ := hm <;> cases heq
  · show _ ∧ _ ∧ _ ∧ ∀ id ∈ installedIn (m :: c.history), _
    rw [hinstalled]
    obtain rfl | hn := List.mem_cons.mp hn
    · obtain ⟨_, _, heq, -⟩ | ⟨_, heq⟩ | ⟨_, heq, hshut⟩ := hm
      · cases heq
      · cases heq
      · exact hshut
    · exact h.shut n hn

/-- A task goes on with a pool that it builds or asks through, which is told of it only. -/
theorem advance (h : Orderly r c) {c₁ : Crew} (hd : Drifts c c₁)
    (hpost : c.posts.find? n = some post) {m : Milestone}
    (hm : m = .built n id ∨ ∃ topic k, m = .answered n id topic k)
    (hchronicle : Chronicle r c₁.trigger.nextPool (m :: c.history))
    (hfree : post.holdsSlot = false ∧ post'.holdsSlot = false)
    (hown : (∀ id', post.own? = some id' → id' = id) ∧ post'.own? = some id)
    (hproper : post'.Proper c₁.trigger (m :: c.history) n) :
    Orderly r ((c₁.remember m).proceed n post') := by
  have hposts : ((c₁.remember m).proceed n post').posts = c.posts.insert n post' := by
    rw [← hd.posts]
    rfl
  have hhistory : ((c₁.remember m).proceed n post').history = m :: c.history :=
    congrArg (m :: ·) hd.history
  have hinstalled : installedIn (m :: c.history) = installedIn c.history := by
    obtain rfl | ⟨topic, k, rfl⟩ := hm <;> rfl
  -- Nobody else has this pool, so nobody else is told anything.
  have hanswers : ∀ k post₁ id', k ≠ n → c.posts.find? k = some post₁ → post₁.own? = some id' →
      answersOf id' (m :: c.history) = answersOf id' c.history := by
    intro k post₁ id' hne hk hid
    obtain rfl | ⟨topic, count, rfl⟩ := hm
    · rfl
    · refine if_neg ?_
      rintro rfl
      have hb := hchronicle.answered n id topic count (List.mem_cons_self ..)
      exact hne (hchronicle.builder k n id (List.mem_cons_of_mem _ (h.owned hk hid).built) hb)
  refine {
    resolver := hd.resolver.trans h.resolver
    chronicle := hhistory ▸ hchronicle
    posts := ?posts
    holder := hposts ▸ sole_insert h.holder fun hholds => absurd hholds (Bool.eq_false_iff.mp hfree.2)
    slot := ?slot
    emptied := ?emptied
    seen := ?seen
    shut := ?shut }
  case posts =>
    intro k post₁ hk
    rw [hposts] at hk
    rw [hhistory]
    obtain ⟨rfl, rfl⟩ | ⟨hne, hk⟩ := SortedMap.of_find?_insert hk
    · exact hproper
    · exact (h.posts k post₁ hk).mono hd.resolver hd.scheduled hd.slot hinstalled
        (fun _ hb => List.mem_cons_of_mem _ hb) fun id' hid => hanswers k post₁ id' hne hk hid
  case slot =>
    intro id' hslot
    rw [hhistory, hinstalled]
    exact h.slot id' (hd.slot ▸ hslot)
  case emptied =>
    intro hslot hne
    rw [hhistory, hinstalled] at hne
    rw [hhistory, hposts]
    obtain ⟨hsched, ⟨k, hk⟩ | ⟨k, id', hk⟩⟩ := h.emptied (hd.slot ▸ hslot) hne
    · exact ⟨hd.scheduled hsched, .inl ⟨k, List.mem_cons_of_mem _ hk⟩⟩
    · obtain hk | ⟨-, rfl⟩ := SortedMap.find?_insert_of_find? hpost hk post'
      · exact ⟨hd.scheduled hsched, .inr ⟨k, id', hk⟩⟩
      · cases hfree.1
  case seen =>
    intro k id' hb
    rw [hhistory] at hb ⊢
    rw [hinstalled, hposts]
    by_cases heq : k = n ∧ id' = id
    · obtain ⟨rfl, rfl⟩ := heq
      exact .inr (.inr ⟨post', SortedMap.find?_insert_self .., hown.2⟩)
    · have hb : .built k id' ∈ c.history := by
        refine (List.mem_cons.mp hb).resolve_left fun hb => heq ?_
        obtain rfl | ⟨_, _, rfl⟩ := hm <;> cases hb
        exact ⟨rfl, rfl⟩
      obtain hinst | hclosed | ⟨post₁, hk, hid⟩ := h.seen k id' hb
      · exact .inl hinst
      · exact .inr (.inl (hd.closed id' hclosed))
      · obtain hk | ⟨rfl, rfl⟩ := SortedMap.find?_insert_of_find? hpost hk post'
        · exact .inr (.inr ⟨post₁, hk, hid⟩)
        · exact absurd ⟨rfl, hown.1 id' hid⟩ heq
  case shut =>
    intro k hs
    rw [hhistory] at hs ⊢
    rw [hinstalled, hposts]
    have hs : .shut k ∈ c.history := by
      refine (List.mem_cons.mp hs).resolve_left fun hs => ?_
      obtain rfl | ⟨_, _, rfl⟩ := hm <;> cases hs
    obtain ⟨hsched, hslot, hplacing, hall⟩ := h.shut k hs
    refine ⟨hd.scheduled hsched, hd.slot.trans hslot, fun k' id' hk' => ?_,
      fun id' hid => hd.closed id' (hall id' hid)⟩
    obtain ⟨-, rfl⟩ | ⟨-, hk'⟩ := SortedMap.of_find?_insert hk'
    · cases hfree.2
    · exact hplacing k' id' hk'

/-- The slot is filled for the first time. -/
theorem install (h : Orderly r c) (hpost : c.posts.find? n = some (.placing id))
    (hslot : c.trigger.slot = none) :
    Orderly r (({ c with trigger := { c.trigger with slot := some id } }.remember
      (.installed n id)).proceed n (.obtaining id)) := by
  obtain ⟨hown, haccepted, hfirst⟩ := h.posts n _ hpost
  have hnone := hfirst hslot
  have hinstalled : installedIn (.installed n id :: c.history) = [id] := congrArg (id :: ·) hnone
  have hmem : id ∈ installedIn (.installed n id :: c.history) := hinstalled ▸ List.mem_cons_self ..
  have halone : ∀ m post₁, m ≠ n → c.posts.find? m = some post₁ → post₁.holdsSlot = false := by
    refine fun m post₁ hne hm => Bool.eq_false_iff.mpr fun hholds => hne ?_
    exact h.holder m n post₁ _ hm hpost hholds rfl
  have haccepted' : Accepted r c.history id := h.resolver ▸ haccepted
  refine {
    resolver := h.resolver
    chronicle := h.chronicle.install hnone hown haccepted'
    posts := ?posts
    holder := sole_insert h.holder nofun
    slot := ?slot
    emptied := nofun
    seen := ?seen
    shut := ?shut }
  case posts =>
    intro m post₁ hm
    obtain ⟨rfl, rfl⟩ | ⟨hne, hm⟩ := SortedMap.of_find?_insert hm
    · exact hmem
    · refine (h.posts m post₁ hm).free (halone m post₁ hne hm) rfl (fun hs => hs)
        (fun id' hid => List.mem_cons_of_mem _ hid) fun id' hid => ?_
      obtain ⟨hb, -⟩ := h.owned hm hid
      refine ⟨⟨List.mem_cons_of_mem _ hb, ?_⟩, rfl⟩
      show id' ∉ installedIn (.installed n id :: c.history)
      rw [hinstalled, List.mem_singleton]
      rintro rfl
      exact hne (h.chronicle.builder m n id' hb hown.built)
  case slot =>
    intro id' hs
    obtain rfl : id = id' := Option.some.inj hs
    exact hmem
  case seen =>
    intro m id' hb
    have hb : .built m id' ∈ c.history := (List.mem_cons.mp hb).resolve_left nofun
    obtain hinst | hclosed | ⟨post₁, hm, hid⟩ := h.seen m id' hb
    · rw [hnone] at hinst
      cases hinst
    · exact .inr (.inl hclosed)
    · obtain hm | ⟨rfl, rfl⟩ := SortedMap.find?_insert_of_find? hpost hm (.obtaining id)
      · exact .inr (.inr ⟨post₁, hm, hid⟩)
      · cases hid
        exact .inl hmem
  case shut =>
    intro m hs
    have hs : .shut m ∈ c.history := (List.mem_cons.mp hs).resolve_left nofun
    exact absurd hpost ((h.shut m hs).2.2.1 n id)

/-- The slot is emptied, which the trigger does not outlive as scheduled. -/
theorem take (h : Orderly r c) (hpost : c.posts.find? n = some .taking)
    (hslot : c.trigger.slot = some id) (hfree : c.isLocked = false) :
    Orderly r ({ c with trigger := { c.trigger with slot := none } }.proceed n (.shutting id)) := by
  have hsched : c.trigger.scheduled = false := h.posts n _ hpost
  refine {
    resolver := h.resolver
    chronicle := h.chronicle
    posts := ?posts
    holder := sole_insert h.holder fun _ m post₁ _ hm => free_of_unlocked hfree hm
    slot := nofun
    emptied := fun _ _ => ⟨hsched, .inr ⟨n, id, SortedMap.find?_insert_self ..⟩⟩
    seen := ?seen
    shut := ?shut }
  case posts =>
    intro m post₁ hm
    obtain ⟨rfl, rfl⟩ | ⟨-, hm⟩ := SortedMap.of_find?_insert hm
    · exact ⟨hsched, rfl, h.slot id hslot⟩
    · exact (h.posts m post₁ hm).free (free_of_unlocked hfree hm) rfl (fun hs => hs)
        (fun _ hid => hid) fun id' hid => ⟨h.owned hm hid, rfl⟩
  case seen =>
    intro m id' hb
    obtain hinst | hclosed | ⟨post₁, hm, hid⟩ := h.seen m id' hb
    · exact .inl hinst
    · exact .inr (.inl hclosed)
    · obtain hm | ⟨-, rfl⟩ := SortedMap.find?_insert_of_find? hpost hm (.shutting id)
      · exact .inr (.inr ⟨post₁, hm, hid⟩)
      · cases hid
  case shut =>
    intro m hs
    rw [(h.shut m hs).2.1] at hslot
    cases hslot

theorem spawn (h : Orderly r c) (hm : Manned c) (job : Job) : Orderly r (c.spawn job) := by
  have hquiet : job.post.holdsSlot = false ∧ job.post.own? = none ∧
      job.post.Proper c.trigger c.history c.nextTask := by
    cases job <;> exact ⟨rfl, rfl, trivial⟩
  have hnone : c.posts.find? c.nextTask = none := by
    cases hpost : c.posts.find? c.nextTask with
    | none => rfl
    | some post => exact absurd (hm.posts _ post hpost).1 (Nat.lt_irrefl _)
  have hold : ∀ {m post}, c.posts.find? m = some post → (c.spawn job).posts.find? m = some post := by
    intro m post hpost
    refine (SortedMap.find?_insert_of_ne ?_ ..).trans hpost
    rintro rfl
    rw [hnone] at hpost
    cases hpost
  refine { h with
    posts := ?posts
    holder := sole_insert h.holder fun hholds => absurd hholds (Bool.eq_false_iff.mp hquiet.1)
    emptied := ?emptied
    seen := ?seen
    shut := ?shut }
  case posts =>
    intro m post₁ hm
    obtain ⟨rfl, rfl⟩ | ⟨-, hm⟩ := SortedMap.of_find?_insert hm
    · exact hquiet.2.2
    · exact h.posts m post₁ hm
  case emptied =>
    intro hslot hne
    obtain ⟨hsched, hshut | ⟨m, id, hm⟩⟩ := h.emptied hslot hne
    · exact ⟨hsched, .inl hshut⟩
    · exact ⟨hsched, .inr ⟨m, id, hold hm⟩⟩
  case seen =>
    intro m id hb
    obtain hinstalled | hclosed | ⟨post₁, hm, hid⟩ := h.seen m id hb
    · exact .inl hinstalled
    · exact .inr (.inl hclosed)
    · exact .inr (.inr ⟨post₁, hold hm, hid⟩)
  case shut =>
    intro m hm
    obtain ⟨hsched, hslot, hplacing, hall⟩ := h.shut m hm
    refine ⟨hsched, hslot, fun m' id hm' => ?_, hall⟩
    obtain ⟨-, heq⟩ | ⟨-, hm'⟩ := SortedMap.of_find?_insert hm'
    · rw [← heq] at hquiet
      cases hquiet.1
    · exact hplacing m' id hm'

/-! ## Every turn -/

theorem pool_of_own (h : Orderly r c) (hs : Stocked c) (hown : Own c.history n id) :
    ∃ p, c.pool? id = some p :=
  hs.built id ((h.chronicle.numbered id).mpr ⟨n, hown.built⟩)

/-- A cycle gets its pool. -/
theorem enter (h : Orderly r c) (hpost : c.posts.find? n = some post)
    (hid : id ∈ installedIn c.history) (hown : ∀ id', post.own? = some id' → c.Closed id')
    (hshutting : ∀ id', post ≠ .shutting id') : Orderly r (c.enter n id) := by
  have hentered : Orderly r (c.proceed n (.obtaining id)) :=
    h.proceed hpost hid nofun (fun id' ho => .inr (hown id' ho))
      (fun id' heq => absurd heq (hshutting id')) nofun
  exact hentered.remember (.inl ⟨n, id, rfl, hid⟩)

/-- A cycle ends. -/
theorem finish (h : Orderly r c) (hpost : c.posts.find? n = some post)
    (hown : ∀ id, post.own? = some id → c.Closed id) (hshutting : ∀ id, post ≠ .shutting id)
    (o : CycleOutcome) : Orderly r (c.finish n o) := by
  have hcounted := h.drift (.of_env c (c.env.count (.cycles o))) rfl
  exact hcounted.proceed hpost trivial nofun (fun id ho => .inr (hown id ho))
    (fun id heq => absurd heq (hshutting id)) nofun

theorem build (h : Orderly r c) (hs : Stocked c) (hpost : c.posts.find? n = some .looking) :
    Orderly r (c.build n) := by
  have hnew : ∀ m, .built m c.trigger.nextPool ∉ c.history := fun m hm =>
    Nat.lt_irrefl _ ((h.chronicle.numbered _).mpr ⟨m, hm⟩)
  have hown : Own (.built n c.trigger.nextPool :: c.history) n c.trigger.nextPool := by
    refine ⟨List.mem_cons_self .., fun hinst => ?_⟩
    obtain ⟨m, hm⟩ := Chronicle.exists_installed hinst
    have hm : .installed m c.trigger.nextPool ∈ c.history :=
      (List.mem_cons.mp hm).resolve_left nofun
    exact hnew m (h.chronicle.installed m _ hm).1
  have hunasked : answersOf c.trigger.nextPool c.history = [] :=
    answersOf_eq_nil fun m topic k hm => hnew m (h.chronicle.answered m _ topic k hm)
  have hd : Drifts c { c with trigger := (c.trigger.buildPool c.env.now).1 } := by
    refine ⟨rfl, rfl, rfl, fun h => h, rfl, ?_⟩
    rintro id' ⟨p', hp', hclosed⟩
    exact ⟨p', (SortedMap.find?_insert_of_ne (Nat.ne_of_lt (hs.lt hp')) _ _).trans hp', hclosed⟩
  show Orderly r ((({ c with trigger := (c.trigger.buildPool c.env.now).1 } : Crew).remember
    (.built n c.trigger.nextPool)).proceed n (if c.trigger.resolver.requiresCounts then
      .asking c.trigger.nextPool c.trigger.resolver.topicsToVerify []
      else .installing c.trigger.nextPool))
  refine h.advance hd hpost (.inl rfl) (h.chronicle.build n) ⟨rfl, ?_⟩ ⟨nofun, ?_⟩ ?_
  · split <;> rfl
  · split <;> rfl
  · split
    · exact ⟨hown, hunasked.symm⟩
    · exact ⟨hown, fun hr => absurd hr ‹_›⟩

theorem ask (h : Orderly r c) (hs : Stocked c) {topics : List String}
    {counts : SortedMap String Nat} (hpost : c.posts.find? n = some (.asking id topics counts)) :
    Orderly r (c.ask n id counts topics) := by
  obtain ⟨hown, hcounts⟩ := h.posts n _ hpost
  have hreject : Orderly r (c.proceed n (.rejecting id)) :=
    h.keep hpost hown rfl rfl fun id' ho => ho
  cases topics with
  | nil =>
    simp only [Crew.ask]
    split
    · rename_i s hr
      exact h.keep hpost ⟨hown, fun _ => ⟨s, hcounts ▸ hr⟩⟩ rfl rfl fun id' ho => ho
    · exact hreject
  | cons topic topics =>
    simp only [Crew.ask]
    split
    · exact hreject
    · rename_i p hp
      have hd := Drifts.ask hs hp topic
      split <;> rename_i he <;> rw [he] at hd
      · rename_i env p' k
        refine h.advance hd hpost (.inr ⟨topic, k, rfl⟩) (h.chronicle.answer hown topic k)
          ⟨rfl, rfl⟩ ⟨fun id' ho => (Option.some.inj ho).symm, rfl⟩ ⟨⟨?_, hown.absent⟩, ?_⟩
        · exact List.mem_cons_of_mem _ hown.built
        · rw [answersOf, if_pos rfl, hcounts]
      · exact (h.drift hd rfl).keep hpost hown rfl rfl fun id' ho => ho

theorem dismiss (h : Orderly r c) (hs : Stocked c) (hpost : c.posts.find? n = some post)
    (hown : post.own? = some id) {existing : Option PoolId}
    (hexisting : ∀ id', existing = some id' → id' ∈ installedIn c.history) :
    Orderly r (c.dismiss n id existing) := by
  obtain ⟨p, hp⟩ := h.pool_of_own hs (h.owned hpost hown)
  have hd := Drifts.onPool hs id .close
  have hdone := h.drift hd (c.beside_onPool id .close).nextPool
  have hpost' := hd.posts.symm ▸ hpost
  have hclosed : ∀ id', post.own? = some id' → (c.onPool id .close).Closed id' := by
    intro id' ho
    obtain rfl : id = id' := Option.some.inj (hown.symm.trans ho)
    exact closed_close hs hp
  have hshutting : ∀ id', post ≠ .shutting id' := by
    rintro id' rfl
    cases hown
  cases existing with
  | none => exact hdone.finish hpost' hclosed hshutting .backoff
  | some id' =>
    exact hdone.enter hpost' (hd.history.symm ▸ hexisting id' rfl) hclosed hshutting

theorem decide (h : Orderly r c) (hpost : c.posts.find? n = some (.installing id))
    (hfree : c.isLocked = false) : Orderly r (c.install n id) := by
  obtain ⟨hown, haccepted⟩ := h.posts n _ hpost
  unfold Crew.install
  cases hsched : c.trigger.scheduled with
  | true =>
    refine h.proceed hpost ⟨hown, haccepted, fun hslot => ?_⟩ (fun _ => .inr hfree)
      (fun id' ho => .inl ho) nofun fun _ _ => hsched
    -- A scheduled trigger whose slot is empty has had no pool.
    by_contra hne
    have hunscheduled := (h.emptied hslot hne).1
    rw [hsched] at hunscheduled
    cases hunscheduled
  | false =>
    exact h.proceed hpost ⟨hown, nofun⟩ (fun _ => .inr hfree) (fun id' ho => .inl ho) nofun nofun

theorem place (h : Orderly r c) (hpost : c.posts.find? n = some (.placing id)) :
    Orderly r (c.place n id) := by
  obtain ⟨hown, -⟩ := h.posts n _ hpost
  unfold Crew.place
  split
  · rename_i existing hslot
    refine h.proceed hpost ⟨hown, fun id' heq => ?_⟩ (fun _ => .inl rfl) (fun id' ho => .inl ho)
      nofun nofun
    exact h.slot id' (hslot.trans heq)
  · rename_i hslot
    exact (h.install hpost hslot).remember (.inl ⟨n, id, rfl, List.mem_cons_self ..⟩)

/-- What a cycle does with a lease of its pool. -/
theorem useLease (h : Orderly r c) (hs : Stocked c) (hpost : c.posts.find? n = some post)
    (huse : post = .obtaining id ∨ (∃ lease, post = .opening id lease) ∨
      ∃ lease s, post = .leased id lease s) (a : Option Action) :
    (∀ o, Orderly r ((c.onPool? id a).finish n o)) ∧
      ∀ post', ((∃ lease, post' = .opening id lease) ∨ ∃ lease s, post' = .leased id lease s) →
        Orderly r ((c.onPool? id a).proceed n post') := by
  have hd := Drifts.onPool? hs id a
  have hdone := h.drift hd (c.beside_onPool? id a).nextPool
  have hpost' := hd.posts.symm ▸ hpost
  have hid : id ∈ installedIn (c.onPool? id a).history := by
    rw [hd.history]
    have hproper := h.posts n post hpost
    obtain rfl | ⟨lease, rfl⟩ | ⟨lease, s, rfl⟩ := huse <;> exact hproper
  have hown : ∀ id', post.own? ≠ some id' := by
    obtain rfl | ⟨lease, rfl⟩ | ⟨lease, s, rfl⟩ := huse <;> exact nofun
  have hshutting : ∀ id', post ≠ .shutting id' := by
    obtain rfl | ⟨lease, rfl⟩ | ⟨lease, s, rfl⟩ := huse <;> exact nofun
  refine ⟨fun o => hdone.finish hpost' (fun id' ho => absurd ho (hown id')) hshutting o,
    fun post' hpost₁ => ?_⟩
  obtain ⟨lease, rfl⟩ | ⟨lease, s, rfl⟩ := hpost₁
  · exact hdone.proceed hpost' hid nofun (fun id' ho => absurd ho (hown id'))
      (fun id' heq => absurd heq (hshutting id')) nofun
  · exact hdone.proceed hpost' hid nofun (fun id' ho => absurd ho (hown id'))
      (fun id' heq => absurd heq (hshutting id')) nofun

/-- A call to close the trigger is over. -/
theorem shutDown (h : Orderly r c) (hpost : c.posts.find? n = some post)
    (hown : post.own? = none) (hsched : c.trigger.scheduled = false)
    (hslot : c.trigger.slot = none)
    (hplacing : ∀ m id, c.posts.find? m ≠ some (.placing id))
    (hall : ∀ id ∈ installedIn c.history, c.Closed id) : Orderly r (c.shut n) := by
  have hshut : Orderly r (c.remember (.shut n)) :=
    h.remember (.inr (.inr ⟨n, rfl, hsched, hslot, hplacing, hall⟩))
  refine hshut.proceed hpost trivial nofun (fun id ho => ?_)
    (fun _ _ => ⟨n, List.mem_cons_self ..⟩) nofun
  rw [hown] at ho
  cases ho

theorem taking (h : Orderly r c) (hpost : c.posts.find? n = some .taking)
    (hfree : c.isLocked = false) : Orderly r (c.take n) := by
  unfold Crew.take
  split
  · exact h.take hpost ‹_› hfree
  · rename_i hslot
    refine h.shutDown hpost rfl (h.posts n _ hpost) hslot (fun m id hm => ?_) fun id hid => ?_
    · exact absurd (free_of_unlocked hfree hm) nofun
    · obtain ⟨-, ⟨m, hm⟩ | ⟨m, id', hm⟩⟩ := h.emptied hslot (List.ne_nil_of_mem hid)
      · exact (h.shut m hm).2.2.2 id hid
      · exact absurd (free_of_unlocked hfree hm) nofun

theorem shutting (h : Orderly r c) (hs : Stocked c)
    (hpost : c.posts.find? n = some (.shutting id)) : Orderly r ((c.onPool id .close).shut n) := by
  obtain ⟨hsched, hslot, hid⟩ := h.posts n _ hpost
  obtain ⟨m, hm⟩ := Chronicle.exists_installed hid
  obtain ⟨p, hp⟩ := hs.built id
    ((h.chronicle.numbered id).mpr ⟨m, (h.chronicle.installed m id hm).1⟩)
  have hd := Drifts.onPool hs id .close
  have hpost' : (c.onPool id .close).posts.find? n = some (.shutting id) := hd.posts.symm ▸ hpost
  refine (h.drift hd (c.beside_onPool id .close).nextPool).shutDown hpost' rfl
    (hd.scheduled hsched) (hd.slot.trans hslot) (fun m' id' hm' => ?_) fun id' hid' => ?_
  · rw [hd.posts] at hm'
    obtain rfl := h.holder m' n _ _ hm' hpost rfl rfl
    rw [hpost] at hm'
    cases hm'
  · rw [hd.history] at hid'
    rw [h.chronicle.eq_of_installed hid' hid]
    exact closed_close hs hp

theorem turn (h : Orderly r c) (hs : Stocked c) (hpost : c.posts.find? n = some post)
    (hfree : post.needsSlot = true → c.isLocked = false) : Orderly r (c.turn n post) := by
  have hproper := h.posts n post hpost
  cases post with
  | arriving =>
    simp only [Crew.turn, arrive]
    split
    · exact h.pass hpost trivial rfl rfl rfl
    · exact h.finish hpost (by rintro id ⟨⟩) (by rintro id ⟨⟩) .backoff
  | looking =>
    simp only [Crew.turn, look]
    split
    · exact h.enter hpost (h.slot _ ‹_›) (by rintro id ⟨⟩) (by rintro id ⟨⟩)
    · exact h.build hs hpost
  | asking id topics counts => exact h.ask hs hpost
  | rejecting id =>
    show Orderly r (c.dismiss n id none)
    exact h.dismiss hs hpost rfl (by rintro id' ⟨⟩)
  | installing id => exact h.decide hpost (hfree rfl)
  | placing id => exact h.place hpost
  | dismissing id existing => exact h.dismiss hs hpost rfl hproper.2
  | obtaining id =>
    obtain ⟨hfinish, hgo⟩ := h.useLease hs hpost (.inl rfl) (some (.request c.trigger.sink))
    simp only [Crew.turn, obtain]
    split
    · exact hfinish .backoff
    · exact hgo _ (.inl ⟨_, rfl⟩)
  | opening id lease =>
    obtain ⟨hfinish, hgo⟩ := h.useLease hs hpost (.inr (.inl ⟨lease, rfl⟩)) (some (.supply lease))
    simp only [Crew.turn, openLease]
    split
    · exact hgo _ (.inr ⟨_, _, rfl⟩)
    · exact hfinish .backoff
  | leased id lease s =>
    obtain ⟨hfinish, hgo⟩ := h.useLease hs hpost (.inr (.inr ⟨lease, s, rfl⟩)) (c.actOn id lease s)
    simp only [Crew.turn, attend]
    split
    · exact (hgo _ (.inr ⟨_, _, rfl⟩)).remember (.inr (.inl ⟨n, rfl⟩))
    · exact hfinish _
    · exact hgo _ (.inr ⟨_, _, rfl⟩)
  | closing =>
    exact (h.drift (.unschedule c) rfl).pass hpost rfl rfl rfl rfl
  | taking => exact h.taking hpost (hfree rfl)
  | shutting id => exact h.shutting hs hpost
  | rousing grace =>
    simp only [Crew.turn, rouse]
    split
    · exact h.pass hpost (h.slot _ ‹_›) rfl rfl rfl
    · exact h.pass hpost trivial rfl rfl rfl
  | sparing id deadline next =>
    simp only [Crew.turn, spare]
    split
    · exact h
    · split <;> exact h.pass hpost hproper rfl rfl rfl
  | gathering id => exact h.pass hpost trivial rfl rfl rfl
  | waking handles =>
    cases handles with
    | nil => exact h
    | cons handle handles =>
      exact (h.drift (.of_env c (handle.wake c.env)) rfl).pass hpost trivial rfl rfl rfl
  | ended o => exact h
  | closed => exact h

theorem step (hstep : Step c c') (hs : Seated c) (h : Orderly r c) : Orderly r c' := by
  cases hstep with
  | stay => exact h
  | spawn job => exact h.spawn hs.manned job
  | turn hpost hfree => exact h.turn hs.stocked hpost hfree
  | lose hpost =>
    exact h.keep hpost (h.posts _ _ hpost).1 rfl rfl fun id' ho => ho
  | unschedule => exact h.drift (.unschedule c) rfl
  | environs hr => exact h.drift (.of_env c _) rfl
  | wake handle => exact h.drift (.of_env c _) rfl
  | @evictIdle id hslot =>
    exact h.drift (.onPool hs.stocked id .evictIdle) (c.beside_onPool id .evictIdle).nextPool

end Orderly

/-! ## Every run -/

theorem orderly_start (maxPollRecords now : Nat) (resolver : Resolver) (reader : RecordReader)
    (settings : IntakeSettings) (sink : String) :
    Orderly resolver (start maxPollRecords now resolver reader settings sink) := by
  refine ⟨rfl, .start resolver, fun n post hpost => ?_, fun n m post post' hpost => ?_,
    fun id hslot => ?_, fun _ hne => absurd rfl hne, fun n id hbuilt => ?_, fun n hshut => ?_⟩
  · cases hpost
  · cases hpost
  · cases hslot
  · cases hbuilt
  · cases hshut

theorem orderly_run (hs : Seated c) (h : Orderly r c) (ds : List Doing) :
    Seated (c.run ds) ∧ Orderly r (c.run ds) :=
  run_induction (P := fun c => Seated c ∧ Orderly r c)
    (fun _ _ hstep h => ⟨seated_step hstep h.1, h.2.step hstep h.1⟩) ⟨hs, h⟩ ds

/-- However cycles, calls to unschedule and calls to close come in between each other, and whatever
the cluster answers, one pool at most is ever installed.  The slot holds no other, no cycle gets
another, and it was installed only if the assignment agrees with the counts that its builder was
told.  Of all pools that there are, any other is closed as soon as its builder has left it; and when
a call to close is over, the slot is empty from then on, and the pool that was installed is
closed. -/
theorem one_pool_is_installed (maxPollRecords now : Nat) (resolver : Resolver)
    (reader : RecordReader) (settings : IntakeSettings) (sink : String) (ds : List Doing) :
    let c := (start maxPollRecords now resolver reader settings sink).run ds
    (installedIn c.history).length ≤ 1 ∧
      (∀ id, c.trigger.slot = some id → id ∈ installedIn c.history) ∧
      (∀ n id, .obtained n id ∈ c.history → id ∈ installedIn c.history) ∧
      (∀ n post id, c.posts.find? n = some post → post.uses? = some id →
        id ∈ installedIn c.history) ∧
      (∀ n id, .installed n id ∈ c.history → .built n id ∈ c.history ∧
        (∀ m topic k, .answered m id topic k ∈ c.history → m = n) ∧
          (resolver.requiresCounts = true →
            ∃ s, resolver.resolve (answersOf id c.history) = .ok s)) ∧
      (∀ id p, c.pool? id = some p → ∃ n, .built n id ∈ c.history ∧
        (id ∈ installedIn c.history ∨ p.closed = true ∨
          ∃ post, c.posts.find? n = some post ∧ post.own? = some id)) ∧
      ∀ n, .shut n ∈ c.history → ∀ later, (c.run later).trigger.slot = none ∧
        ∀ id ∈ installedIn (c.run later).history, (c.run later).Closed id := by
  intro c
  have hrun := fun ds => orderly_run (seated_start maxPollRecords now resolver reader settings sink)
    (orderly_start maxPollRecords now resolver reader settings sink) ds
  obtain ⟨hs, h⟩ := hrun ds
  have hc := h.chronicle
  refine ⟨hc.sole, h.slot, hc.obtained, fun n post id hpost huse => ?_, fun n id hi => ?_,
    fun id p hp => ?_, fun n hn later => ?_⟩
  · have hproper := h.posts n post hpost
    cases post <;> cases huse <;> exact hproper
  · obtain ⟨hbuilt, haccepted⟩ := hc.installed n id hi
    exact ⟨hbuilt, fun m topic k ha =>
      hc.builder m n id (hc.answered m id topic k ha) hbuilt, haccepted⟩
  · obtain ⟨n, hn⟩ := (hc.numbered id).mp (hs.stocked.lt hp)
    refine ⟨n, hn, (h.seen n id hn).imp_right (Or.imp_left ?_)⟩
    rintro ⟨p', hp', hclosed⟩
    obtain rfl : p = p' := Option.some.inj (hp.symm.trans hp')
    exact hclosed
  · have hlater : (start maxPollRecords now resolver reader settings sink).run (ds ++ later) =
        c.run later := run_append ..
    obtain ⟨-, hafter⟩ := hlater ▸ hrun (ds ++ later)
    obtain ⟨-, hslot, -, hall⟩ := hafter.shut n (mem_history_run hn later)
    exact ⟨hslot, hall⟩

/-- Two cycles build a pool each for an assignment that they check, and then the trigger is
closed. -/
def buildTwice : List Doing :=
  [.onCluster (.setPartitionCount "t" 1), .spawn .cycle, .spawn .cycle, .turn 0, .turn 1, .turn 0,
    .turn 1, .turn 0, .turn 0, .turn 1, .turn 1, .turn 0, .turn 1, .turn 0, .turn 1, .turn 1,
    .turn 1, .spawn .close, .turn 2, .turn 2, .turn 2]

/-- The second one finds the slot taken, and both use the pool of the first one. -/
theorem one_pool_is_installed_buildTwice :
    let c := (start 10 0 ⟨.partitions [("t", [0])], some 1⟩ Record.read {} "s").run buildTwice
    c.posts.find? 1 = some (.obtaining 0) ∧ 0 ∈ installedIn c.history ∧
      (c.pool? 1).map (·.closed) = some true ∧
        ∀ later, (c.run later).trigger.slot = none ∧
          ∀ id ∈ installedIn (c.run later).history, (c.run later).Closed id := by
  intro c
  obtain ⟨-, -, hobtained, -, -, -, hshut⟩ :=
    one_pool_is_installed 10 0 ⟨.partitions [("t", [0])], some 1⟩ Record.read {} "s" buildTwice
  refine ⟨?_, hobtained 1 0 (by decide +kernel), by decide +kernel, hshut 2 (by decide +kernel)⟩
  rfl

end Crew
end RecordIntake
