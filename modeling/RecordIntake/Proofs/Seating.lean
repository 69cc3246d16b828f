import RecordIntake.Proofs.Stock

/-!
Where the tasks of a crew are.  Each cycle with a lease is where the phase of that lease says, no
lease has two cycles, and none that is not over is left without one.

What one turn of a task can do is said once, in `Turned`: where it leads, that nobody else is moved,
and that no lease changes that belongs to somebody else.  All that holds of tasks at any time
follows from that.
-/
namespace RecordIntake

/-- The lease that a task has, or is about to get. -/
def Post.lease? : Post → Option (PoolId × LeaseId)
  | .opening id lease | .leased id lease _ => some (id, lease)
  | _ => none

/-- Whether a task is there to interrupt leases. -/
def Post.rouses : Post → Bool
  | .rousing _ | .sparing _ _ _ | .gathering _ | .waking _ => true
  | _ => false

namespace Crew

variable {c c' : Crew} {id : PoolId} {p : Pool} {a : Action} {n : Nat} {post post' : Post}
  {lease : LeaseId}

/-! ## Posts -/

/-- The lease of a task is where its post says. -/
def Seat (c : Crew) : Post → Prop
  | .opening id lease => ∃ o sink, c.phase? id lease = some (.opening o sink)
  | .leased id lease s => ∃ ph, c.phase? id lease = some ph ∧ s.Fits ph
  | _ => True

/-- A lease that is not over. -/
def Live (c : Crew) (id : PoolId) (lease : LeaseId) : Prop :=
  ∃ ph, c.phase? id lease = some ph ∧ ph ≠ .ended

theorem seat_of_none (c : Crew) (h : post.lease? = none) : c.Seat post := by
  cases post with
  | opening id lease => cases h
  | leased id lease s => cases h
  | _ => trivial

theorem live_of_seat (h : c.Seat post) (hlease : post.lease? = some (id, lease)) :
    c.Live id lease := by
  cases post with
  | opening id' lease' =>
    cases hlease
    obtain ⟨o, sink, hph⟩ := h
    exact ⟨_, hph, by rintro ⟨⟩⟩
  | leased id' lease' s =>
    cases hlease
    obtain ⟨ph, hph, hfits⟩ := h
    exact ⟨_, hph, hfits.ne_ended⟩
  | _ => cases hlease

theorem seat_congr (h : c.Seat post)
    (hph : ∀ id lease, post.lease? = some (id, lease) →
      c'.phase? id lease = c.phase? id lease) : c'.Seat post := by
  cases post with
  | opening id lease =>
    obtain ⟨o, sink, h⟩ := h
    exact ⟨o, sink, (hph id lease rfl).trans h⟩
  | leased id lease s =>
    obtain ⟨ph, h, hfits⟩ := h
    exact ⟨ph, (hph id lease rfl).trans h, hfits⟩
  | _ => trivial

/-- Every task is where its lease is, and each lease that is not over has one task. -/
structure Manned (c : Crew) : Prop where
  posts : ∀ n post, c.posts.find? n = some post → n < c.nextTask ∧ c.Seat post
  apart : ∀ n m post post' key, c.posts.find? n = some post → c.posts.find? m = some post' →
    post.lease? = some key → post'.lease? = some key → n = m
  tended : ∀ id lease, c.Live id lease →
    ∃ n post, c.posts.find? n = some post ∧ post.lease? = some (id, lease)

/-! ## What a turn can do -/

/-- What comes next for a task. -/
inductive Leads (c : Crew) : Post → Post → Prop where
  | opens (id : PoolId) (lease : LeaseId) :
    Leads c (.opening id lease) (.leased id lease .checking)
  | attends (id : PoolId) (lease : LeaseId) (s : Stint) :
    Leads c (.leased id lease s) (.leased id lease
      (s.next c.trigger.scheduled ((c.actOn id lease s).bind (c.reply id))))
  | missing (grace : Nat) (h : c.trigger.slot = none) : Leads c (.rousing grace) (.waking [])
  | rouses (grace deadline next : Nat) {id : PoolId} (h : c.trigger.slot = some id) :
    Leads c (.rousing grace) (.sparing id deadline next)
  | spares (id : PoolId) (deadline next deadline' next' : Nat) :
    Leads c (.sparing id deadline next) (.sparing id deadline' next')
  | spared (id : PoolId) (deadline next : Nat) :
    Leads c (.sparing id deadline next) (.gathering id)
  | gathers (id : PoolId) :
    Leads c (.gathering id) (.waking (((c.pool? id).map Pool.activeLeases).getD []))
  | wakes (h : LeaseHandle) (hs : List LeaseHandle) : Leads c (.waking (h :: hs)) (.waking hs)
  | woken : Leads c (.waking []) (.waking [])
  | other {post post' : Post} (h : post.rouses = false)
    (h' : ∀ id lease s, post' ≠ .leased id lease s)
    (hcloses : post'.closes = true → post.closes = true) : Leads c post post'

/-- A task that has nothing to do with interrupting may go on without a lease. -/
theorem Leads.away (h : post.rouses = false) (hnone : post'.lease? = none)
    (hcloses : post'.closes = false ∨ post.closes = true) : Leads c post post' := by
  refine .other h ?_ fun hc => hcloses.resolve_left ?_
  · rintro id lease s rfl
    cases hnone
  · rw [hc]
    exact Bool.noConfusion

/-- What a turn of a task can do to tasks and their leases. -/
structure Turned (c : Crew) (n : Nat) (post : Post) (c' : Crew) : Prop where
  nextTask : c'.nextTask = c.nextTask
  /-- A trigger that was unscheduled stays so. -/
  scheduled : c.trigger.scheduled = false → c'.trigger.scheduled = false
  /-- The task comes where its lease is, which it had before or nobody had, and leaves none. -/
  leads : ∃ post', Leads c post post' ∧
    (∀ m, c'.posts.find? m = if m = n then some post' else c.posts.find? m) ∧
      (c.Seat post → c'.Seat post' ∧ ∀ id lease, c'.Live id lease →
        post'.lease? = some (id, lease) ∨ c.Live id lease ∧ post.lease? ≠ some (id, lease)) ∧
        ∀ id lease, post'.lease? = some (id, lease) →
          post.lease? = some (id, lease) ∨ ¬c.Live id lease
  /-- The leases of others stay as they are. -/
  others : ∀ id lease, c.Live id lease → post.lease? ≠ some (id, lease) →
    c'.phase? id lease = c.phase? id lease

/-- No task is moved, and the trigger is not scheduled again. -/
structure Still (c c' : Crew) : Prop where
  posts : c'.posts = c.posts
  nextTask : c'.nextTask = c.nextTask
  scheduled : c.trigger.scheduled = false → c'.trigger.scheduled = false

theorem Beside.still (h : Beside c c') : Still c c' :=
  ⟨h.posts, h.nextTask, fun hs => h.scheduled.trans hs⟩

namespace Turned

theorem proceed {c₁ : Crew} (hstill : Still c c₁) (hleads : Leads c post post')
    (hothers : ∀ id lease, c.Live id lease → post.lease? ≠ some (id, lease) →
      c₁.phase? id lease = c.phase? id lease)
    (hseat : c.Seat post → c₁.Seat post' ∧ ∀ id lease, c₁.Live id lease →
      post'.lease? = some (id, lease) ∨ c.Live id lease ∧ post.lease? ≠ some (id, lease))
    (hlease : ∀ id lease, post'.lease? = some (id, lease) →
      post.lease? = some (id, lease) ∨ ¬c.Live id lease) :
    Turned c n post (c₁.proceed n post') where
  nextTask := hstill.nextTask
  scheduled := hstill.scheduled
  others := hothers
  leads := by
    refine ⟨post', hleads, ?_, fun h => ?_, hlease⟩
    · rw [← hstill.posts]
      exact fun m => SortedMap.find?_insert ..
    · obtain ⟨hseat, htends⟩ := hseat h
      exact ⟨seat_congr hseat fun _ _ _ => rfl, htends⟩

/-- A turn of a task that has no lease and gets none, and that changes no lease. -/
theorem move {c₁ : Crew} (hstill : Still c c₁)
    (hphases : ∀ id lease, c₁.phase? id lease = c.phase? id lease) (hleads : Leads c post post')
    (hfree : post.lease? = none) (hnone : post'.lease? = none) :
    Turned c n post (c₁.proceed n post') := by
  refine .proceed hstill hleads (fun id lease _ _ => hphases id lease)
    (fun _ => ⟨seat_of_none c₁ hnone, fun id lease hlive => .inr ⟨?_, ?_⟩⟩) fun id lease hl => ?_
  · rwa [Live, hphases] at hlive
  · rw [hfree]
    rintro ⟨⟩
  · rw [hnone] at hl
    cases hl

theorem stay (hpost : c.posts.find? n = some post) (hleads : Leads c post post) :
    Turned c n post c := by
  refine ⟨rfl, fun h => h, ⟨post, hleads, fun m => ?_, fun h => ⟨h, fun id lease hlive => ?_⟩,
    fun _ _ h => .inl h⟩, fun _ _ _ _ => rfl⟩
  · split
    · rename_i heq
      rw [heq, hpost]
    · rfl
  · exact (Classical.em (post.lease? = some (id, lease))).imp_right fun hne => ⟨hlive, hne⟩

end Turned

/-! ## Turns with a lease -/

/-- The number of the next lease is nobody's. -/
theorem Stocked.not_live_offer (h : Stocked c) {o : Offer} (ho : c.offer? id = some o) :
    ¬c.Live id o.lease := by
  rintro ⟨ph, hph, hne⟩
  obtain ⟨p, hp⟩ := h.pool_of_phase hph
  rw [offer?, hp, Option.bind_some] at ho
  have howned := h.owned hp
  rw [← h.phases_world hp] at hph
  obtain hended | ⟨loan, hloan, -⟩ := howned.phases _ ph hph
  · exact hne hended
  · have hnext := howned.find?_next
    rw [World.offer_lease (w := c.world p) (Prod.ext rfl (Prod.ext rfl ho)), hnext] at hloan
    cases hloan

theorem turned_obtain (hs : Stocked c) (n : Nat) (id : PoolId) :
    Turned c n (.obtaining id) (c.obtain n id) := by
  have hphase := hs.phase?_request id c.trigger.sink
  have hstill := (c.beside_onPool id (.request c.trigger.sink)).still
  unfold obtain
  split <;> rename_i ho <;> change c.offer? id = _ at ho <;> rw [ho] at hphase
  · exact .move ⟨hstill.posts, hstill.nextTask, hstill.scheduled⟩ hphase (.away rfl rfl (.inl rfl))
      rfl rfl
  · rename_i o
    have hlive := hs.not_live_offer ho
    have hleads : Leads c (.obtaining id) (.opening id o.lease) :=
      .other rfl (by rintro id lease s ⟨⟩) (by rintro ⟨⟩)
    refine .proceed hstill hleads (fun id' lease hl _ => ?_)
      (fun _ => ⟨⟨o, c.trigger.sink, (hphase id o.lease).trans (if_pos rfl)⟩,
        fun id' lease hl => ?_⟩) fun id' lease hl => ?_
    · refine (hphase id' lease).trans (if_neg fun heq => hlive ?_)
      cases heq
      exact hl
    · by_cases heq : (id', lease) = (id, o.lease)
      · exact .inl (congrArg some heq.symm)
      · have hsame := (hphase id' lease).trans (if_neg heq)
        rw [Live, hsame] at hl
        exact .inr ⟨hl, by rintro ⟨⟩⟩
    · cases hl
      exact .inr hlive

/-- Who has a lease leaves all others as they are. -/
theorem tends {c₁ : Crew} (hlease : post.lease? = some (id, lease))
    (hsame : ∀ id' lease', (id, lease) ≠ (id', lease') →
      c₁.phase? id' lease' = c.phase? id' lease')
    (hown : c₁.Live id lease → post'.lease? = some (id, lease)) (id' : PoolId) (lease' : LeaseId)
    (hlive : c₁.Live id' lease') :
    post'.lease? = some (id', lease') ∨ c.Live id' lease' ∧ post.lease? ≠ some (id', lease') := by
  by_cases heq : (id, lease) = (id', lease')
  · cases heq
    exact .inl (hown hlive)
  · rw [Live, hsame id' lease' heq] at hlive
    rw [hlease]
    exact .inr ⟨hlive, fun h => heq (Option.some.inj h)⟩

theorem turned_openLease (hs : Stocked c) (n : Nat) (id : PoolId) (lease : LeaseId) :
    Turned c n (.opening id lease) (c.openLease n id lease) := by
  have hstill := (c.beside_onPool id (.supply lease)).still
  have hsame : ∀ id' lease', (id, lease) ≠ (id', lease') →
      (c.onPool id (.supply lease)).phase? id' lease' = c.phase? id' lease' :=
    fun id' lease' hne => hs.phase?_other rfl hne
  have hothers : ∀ id' lease', c.Live id' lease' →
      (Post.opening id lease).lease? ≠ some (id', lease') →
      (c.onPool id (.supply lease)).phase? id' lease' = c.phase? id' lease' :=
    fun id' lease' _ hne => hsame id' lease' fun heq => hne (congrArg some heq)
  unfold openLease
  dsimp only
  split
  · rename_i l hph
    exact .proceed hstill (.opens id lease) hothers
      (fun _ => ⟨⟨_, hph, .checking l⟩, tends rfl hsame fun _ => rfl⟩) fun id' lease' hl => .inl hl
  · rename_i hph
    refine .proceed ⟨hstill.posts, hstill.nextTask, hstill.scheduled⟩ (.away rfl rfl (.inl rfl))
      hothers (fun hseat => ⟨trivial, tends rfl hsame fun hlive => ?_⟩) fun id' lease' hl => by cases hl
    obtain ⟨o, sink, hopening⟩ := hseat
    obtain ⟨p, hp⟩ := hs.pool_of_phase hopening
    have hworld := (hs.phases_world hp lease).trans hopening
    have hphase := (hs.phase?_onPool hp (.supply lease) id lease).trans (if_pos rfl)
    obtain ⟨ph, hlive, hne⟩ := hlive
    obtain ⟨l, hheld⟩ | hended := World.phase_supply hworld
    · exact absurd (hphase.trans hheld) (hph l)
    · have hlive : (c.onPool id (.supply lease)).phase? id lease = some ph := hlive
      rw [hphase, hended] at hlive
      cases hlive
      exact absurd rfl hne

/-- A cycle comes where its lease is then. -/
theorem Stocked.seat_attend (h : Stocked c) {s : Stint} {ph : Phase}
    (hph : c.phase? id lease = some ph) (hfits : s.Fits ph) (hs : ∀ o, s ≠ .returning o) :
    (c.onPool? id (c.actOn id lease s)).Seat
      (.leased id lease (s.next c.trigger.scheduled
        ((c.actOn id lease s).bind (c.reply id)))) := by
  have hact : c.actOn id lease s = s.action? lease ph.isWaiting := by
    rw [actOn, hph]
    rfl
  rw [hact]
  cases ha : s.action? lease ph.isWaiting with
  | some a =>
    obtain ⟨p, hp⟩ := h.pool_of_phase hph
    have hworld := h.phases_world hp lease
    obtain ⟨ph', hph', hfits'⟩ :=
      World.fits_act (hworld.trans hph) hfits ha hs c.trigger.scheduled
    refine ⟨ph', ?_, ?_⟩
    · show (c.onPool id a).phase? id lease = _
      rw [h.phase?_onPool hp, if_pos rfl]
      exact hph'
    · show (s.next _ (c.reply id a)).Fits ph'
      rw [reply_some hp]
      exact hfits'
  | none =>
    refine ⟨ph, hph, ?_⟩
    cases hfits with
    | checking l =>
      cases c.trigger.scheduled with
      | true => exact .weighing l
      | false => exact .settling l
    | settling l =>
      cases c.trigger.scheduled with
      | true => exact .committing l
      | false => exact .leaving _ l
    | _ => cases ha

theorem turned_attend (hs : Stocked c) (n : Nat) (id : PoolId) (lease : LeaseId) (s : Stint) :
    Turned c n (.leased id lease s) (c.attend n id lease s) := by
  have hstill := (c.beside_onPool? id (c.actOn id lease s)).still
  have hsame : ∀ id' lease', (id, lease) ≠ (id', lease') →
      (c.onPool? id (c.actOn id lease s)).phase? id' lease' = c.phase? id' lease' := by
    intro id' lease' hne
    cases ha : c.actOn id lease s with
    | none => rfl
    | some a => exact hs.phase?_other (Stint.lease?_action ha) hne
  have hothers : ∀ id' lease', c.Live id' lease' →
      (Post.leased id lease s).lease? ≠ some (id', lease') →
      (c.onPool? id (c.actOn id lease s)).phase? id' lease' = c.phase? id' lease' :=
    fun id' lease' _ hne => hsame id' lease' fun heq => hne (congrArg some heq)
  have hseat : (∀ o, s ≠ .returning o) → c.Seat (.leased id lease s) →
      (c.onPool? id (c.actOn id lease s)).Seat (.leased id lease (s.next c.trigger.scheduled
        ((c.actOn id lease s).bind (c.reply id)))) := by
    rintro hreturning ⟨ph, hph, hfits⟩
    exact hs.seat_attend hph hfits hreturning
  unfold attend
  dsimp only
  split
  · exact .proceed ⟨hstill.posts, hstill.nextTask, hstill.scheduled⟩ (.attends ..) hothers
      (fun h => ⟨hseat (by rintro o ⟨⟩) h, tends rfl hsame fun _ => rfl⟩) fun id' lease' hl => .inl hl
  · rename_i o
    refine .proceed ⟨hstill.posts, hstill.nextTask, hstill.scheduled⟩ (.away rfl rfl (.inl rfl))
      hothers (fun h => ⟨trivial, tends rfl hsame fun hlive => ?_⟩) fun id' lease' hl => by cases hl
    obtain ⟨ph, hph, hfits⟩ := h
    obtain ⟨ph', hlive, hne⟩ := hlive
    cases hfits with
    | returning o connection discard =>
      obtain ⟨p, hp⟩ := hs.pool_of_phase hph
      have hworld := (hs.phases_world hp lease).trans hph
      have hphase : (c.onPool id (.checkIn lease)).phase? id lease = some .ended :=
        ((hs.phase?_onPool hp (.checkIn lease) id lease).trans (if_pos rfl)).trans
          (World.phase_checkIn hworld)
      have hlive : (c.onPool id (.checkIn lease)).phase? id lease = some ph' := hlive
      rw [hphase] at hlive
      cases hlive
      exact absurd rfl hne
  · exact .proceed hstill (.attends ..) hothers
      (fun h => ⟨hseat ‹_› h, tends rfl hsame fun _ => rfl⟩) fun id' lease' hl => .inl hl

/-! ## Every turn -/

theorem turned_ask (c : Crew) (n : Nat) (id : PoolId) (topics : List String)
    (counts : SortedMap String Nat) :
    Turned c n (.asking id topics counts) (c.ask n id counts topics) := by
  cases topics with
  | nil =>
    simp only [ask]
    split <;> exact .move ⟨rfl, rfl, fun h => h⟩ (fun _ _ => rfl) (.away rfl rfl (.inl rfl)) rfl rfl
  | cons topic topics =>
    simp only [ask]
    split
    · exact .move ⟨rfl, rfl, fun h => h⟩ (fun _ _ => rfl) (.away rfl rfl (.inl rfl)) rfl rfl
    · split <;> exact .move ⟨rfl, rfl, fun h => h⟩ (fun _ _ => rfl) (.away rfl rfl (.inl rfl)) rfl rfl

theorem turned_dismiss (hs : Stocked c) (n : Nat) (hpost : post.rouses = false)
    (hfree : post.lease? = none) (id : PoolId) (existing : Option PoolId) :
    Turned c n post (c.dismiss n id existing) := by
  have hstill := (c.beside_onPool id .close).still
  have hphases := hs.phase?_close id
  cases existing with
  | none =>
    exact .move ⟨hstill.posts, hstill.nextTask, hstill.scheduled⟩ hphases
      (.away hpost rfl (.inl rfl)) hfree rfl
  | some id' =>
    exact .move ⟨hstill.posts, hstill.nextTask, hstill.scheduled⟩ hphases
      (.away hpost rfl (.inl rfl)) hfree rfl

theorem turned (hs : Stocked c) (hpost : c.posts.find? n = some post) :
    Turned c n post (c.turn n post) := by
  cases post with
  | arriving =>
    simp only [turn, arrive]
    split <;> exact .move ⟨rfl, rfl, fun h => h⟩ (fun _ _ => rfl) (.away rfl rfl (.inl rfl)) rfl rfl
  | looking =>
    simp only [turn, look]
    split
    · exact .move ⟨rfl, rfl, fun h => h⟩ (fun _ _ => rfl) (.away rfl rfl (.inl rfl)) rfl rfl
    · refine .move ⟨rfl, rfl, fun h => h⟩ (fun _ _ => rfl) (.away rfl ?_ (.inl ?_)) rfl ?_
      · split <;> rfl
      · split <;> rfl
      · split <;> rfl
  | asking id topics counts => exact turned_ask ..
  | rejecting id => exact turned_dismiss hs n rfl rfl id none
  | installing id =>
    refine .move ⟨rfl, rfl, fun h => h⟩ (fun _ _ => rfl) (.away rfl ?_ (.inl ?_)) rfl ?_
    · split <;> rfl
    · split <;> rfl
    · split <;> rfl
  | placing id =>
    simp only [turn, place]
    split <;> exact .move ⟨rfl, rfl, fun h => h⟩ (fun _ _ => rfl) (.away rfl rfl (.inl rfl)) rfl rfl
  | dismissing id existing => exact turned_dismiss hs n rfl rfl id existing
  | obtaining id => exact turned_obtain hs n id
  | opening id lease => exact turned_openLease hs n id lease
  | leased id lease s => exact turned_attend hs n id lease s
  | closing =>
    exact .move ⟨rfl, rfl, fun _ => rfl⟩ (fun _ _ => rfl) (.away rfl rfl (.inr rfl)) rfl rfl
  | taking =>
    simp only [turn, take]
    split <;>
      exact .move ⟨rfl, rfl, fun h => h⟩ (fun _ _ => rfl) (.away rfl rfl (.inr rfl)) rfl rfl
  | shutting id =>
    have hstill := (c.beside_onPool id .close).still
    exact .move ⟨hstill.posts, hstill.nextTask, hstill.scheduled⟩ (hs.phase?_close id)
      (.away rfl rfl (.inr rfl)) rfl rfl
  | rousing grace =>
    simp only [turn, rouse]
    split
    · exact .move ⟨rfl, rfl, fun h => h⟩ (fun _ _ => rfl) (.rouses grace _ _ ‹_›) rfl rfl
    · exact .move ⟨rfl, rfl, fun h => h⟩ (fun _ _ => rfl) (.missing grace ‹_›) rfl rfl
  | sparing id deadline next =>
    simp only [turn, spare]
    split
    · exact .stay hpost (.spares ..)
    · split
      · exact .move ⟨rfl, rfl, fun h => h⟩ (fun _ _ => rfl) (.spares ..) rfl rfl
      · exact .move ⟨rfl, rfl, fun h => h⟩ (fun _ _ => rfl) (.spared ..) rfl rfl
  | gathering id => exact .move ⟨rfl, rfl, fun h => h⟩ (fun _ _ => rfl) (.gathers id) rfl rfl
  | waking handles =>
    cases handles with
    | nil => exact .stay hpost .woken
    | cons h hs => exact .move ⟨rfl, rfl, fun h => h⟩ (fun _ _ => rfl) (.wakes h hs) rfl rfl
  | ended o => exact .stay hpost (.away rfl rfl (.inl rfl))
  | closed => exact .stay hpost (.away rfl rfl (.inr rfl))

/-! ## Every step -/

namespace Manned

theorem turn (h : Manned c) (hpost : c.posts.find? n = some post) (ht : Turned c n post c') :
    Manned c' := by
  obtain ⟨post', -, hfind, hseat, hlease⟩ := ht.leads
  obtain ⟨hseat, htends⟩ := hseat (h.posts n post hpost).2
  -- Whoever else has a lease has another one than this task has then.
  have hfresh : ∀ m post₁ id lease, m ≠ n → c.posts.find? m = some post₁ →
      post₁.lease? = some (id, lease) → post'.lease? ≠ some (id, lease) := by
    intro m post₁ id lease hne hm hl heq
    obtain hsame | hlive := hlease id lease heq
    · exact hne (h.apart m n post₁ post _ hm hpost hl hsame)
    · exact hlive (live_of_seat (h.posts m post₁ hm).2 hl)
  refine ⟨fun m post₁ hm => ?_, fun m m' post₁ post₂ key hm hm' hl hl' => ?_,
    fun id lease hlive => ?_⟩
  · rw [hfind] at hm
    rw [ht.nextTask]
    split at hm
    · rename_i heq
      cases hm
      exact ⟨heq ▸ (h.posts n post hpost).1, hseat⟩
    · rename_i hne
      obtain ⟨hlt, hseat₁⟩ := h.posts m post₁ hm
      refine ⟨hlt, seat_congr hseat₁ fun id lease hl => ?_⟩
      refine ht.others id lease (live_of_seat hseat₁ hl) fun heq => ?_
      exact hne (h.apart m n post₁ post _ hm hpost hl heq)
  · rw [hfind] at hm hm'
    split at hm <;> rename_i heq <;> split at hm' <;> rename_i heq'
    · exact heq.trans heq'.symm
    · cases hm
      exact absurd hl (hfresh m' post₂ key.1 key.2 heq' hm' hl')
    · cases hm'
      exact absurd hl' (hfresh m post₁ key.1 key.2 heq hm hl)
    · exact h.apart m m' post₁ post₂ key hm hm' hl hl'
  · obtain hl | ⟨hlive, hne⟩ := htends id lease hlive
    · exact ⟨n, post', (hfind n).trans (if_pos rfl), hl⟩
    · obtain ⟨m, post₁, hm, hl⟩ := h.tended id lease hlive
      refine ⟨m, post₁, (hfind m).trans ((if_neg ?_).trans hm), hl⟩
      rintro rfl
      obtain rfl : post = post₁ := Option.some.inj (hpost.symm.trans hm)
      exact hne hl

/-- Nothing happens but outside, and with pools. -/
theorem congr (h : Manned c) (hposts : c'.posts = c.posts) (hnext : c'.nextTask = c.nextTask)
    (hphases : ∀ id lease, c'.phase? id lease = c.phase? id lease) : Manned c' := by
  refine ⟨fun n post hpost => ?_, hposts ▸ h.apart, fun id lease hlive => ?_⟩
  · obtain ⟨hlt, hseat⟩ := h.posts n post (hposts ▸ hpost)
    exact ⟨hnext ▸ hlt, seat_congr hseat fun id lease _ => hphases id lease⟩
  · rw [Live, hphases] at hlive
    rw [hposts]
    exact h.tended id lease hlive

theorem spawn (h : Manned c) (job : Job) : Manned (c.spawn job) := by
  have hnone : job.post.lease? = none := by cases job <;> rfl
  refine ⟨fun n post hpost => ?_, fun n m post post' key hn hm hl hl' => ?_,
    fun id lease hlive => ?_⟩
  · obtain ⟨rfl, rfl⟩ | ⟨-, hold⟩ := SortedMap.of_find?_insert hpost
    · exact ⟨Nat.lt_succ_self _, seat_of_none _ hnone⟩
    · obtain ⟨hlt, hseat⟩ := h.posts n post hold
      exact ⟨Nat.lt_succ_of_lt hlt, seat_congr hseat fun _ _ _ => rfl⟩
  · obtain ⟨-, rfl⟩ | ⟨-, hold⟩ := SortedMap.of_find?_insert hn
    · rw [hnone] at hl
      cases hl
    · obtain ⟨-, rfl⟩ | ⟨-, hold'⟩ := SortedMap.of_find?_insert hm
      · rw [hnone] at hl'
        cases hl'
      · exact h.apart n m post post' key hold hold' hl hl'
  · obtain ⟨n, post, hpost, hl⟩ := h.tended id lease hlive
    have hne : n ≠ c.nextTask := Nat.ne_of_lt (h.posts n post hpost).1
    exact ⟨n, post, (SortedMap.find?_insert_of_ne hne ..).trans hpost, hl⟩

theorem step (hstep : Step c c') (hs : Stocked c) (h : Manned c) : Manned c' := by
  cases hstep with
  | stay => exact h
  | spawn job => exact h.spawn job
  | turn hpost hfree => exact h.turn hpost (turned hs hpost)
  | @lose n id topics counts hpost =>
    exact h.turn hpost
      (.move ⟨rfl, rfl, fun h => h⟩ (fun _ _ => rfl) (.away rfl rfl (.inl rfl)) rfl rfl)
  | unschedule => exact h.congr rfl rfl fun _ _ => rfl
  | environs hr => exact h.congr rfl rfl fun _ _ => rfl
  | wake handle => exact h.congr rfl rfl fun _ _ => rfl
  | @evictIdle id hslot =>
    have hbeside := c.beside_onPool id .evictIdle
    exact h.congr hbeside.posts hbeside.nextTask (hs.phase?_evictIdle id)

end Manned

/-- The pools agree with their leases, and the tasks too. -/
structure Seated (c : Crew) : Prop where
  stocked : Stocked c
  manned : Manned c

theorem seated_start (maxPollRecords now : Nat) (resolver : Resolver) (reader : RecordReader)
    (settings : IntakeSettings) (sink : String) :
    Seated (start maxPollRecords now resolver reader settings sink) := by
  refine ⟨⟨fun id p hp => ?_, fun id hid => ?_, fun id hid => ⟨rfl, rfl⟩⟩,
    ⟨fun n post hpost => ?_, fun n m post post' key hpost => ?_, fun id lease hlive => ?_⟩⟩
  · cases hp
  · exact absurd hid (Nat.not_lt_zero id)
  · cases hpost
  · cases hpost
  · obtain ⟨ph, hph, -⟩ := hlive
    cases hph

theorem seated_step (hstep : Step c c') (h : Seated c) : Seated c' :=
  ⟨stocked_step hstep h.stocked, h.manned.step hstep h.stocked⟩

end Crew
end RecordIntake
