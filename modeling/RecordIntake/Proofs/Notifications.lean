import RecordIntake.Interrupt

/-!
All calls on one interrupt signal, with their steps in any order.  No request is lost, because those
who wait listen before they look, and those who request store before they notify: a waiter that
looks too early to see a request listens already when the notification comes.

What carries this is `Attentive`: while a request is pending and nobody has still to notify, whoever
has looked in vain was notified since.  It holds after any notification, since nobody knows of
notifications that are still to come, and until the next request a waiter that looks finds the one
that is pending.
-/
namespace RecordIntake.InterruptSignal

/-- How far a call that makes a request has come. -/
inductive Trigger where
  /-- The request is stored, and those who wait are not notified of it yet. -/
  | stored
  | notified
  deriving DecidableEq, Repr

/-- A signal with all calls that were ever made on it, each kind in the order of the calls. -/
structure Traffic where
  signal : InterruptSignal
  waiters : List Waiter
  triggers : List Trigger
  deriving DecidableEq, Repr

/-- One step of one call. -/
inductive Move where
  | wait
  /-- The next step of the waiter at a place. -/
  | goOn (waiter : Nat)
  /-- A request, with its first step. -/
  | trigger
  /-- The second step of the request at a place. -/
  | notify (trigger : Nat)
  | take
  | isRequested
  deriving DecidableEq, Repr

namespace Traffic

def start : Traffic := ⟨.quiet, [], []⟩

def act (t : Traffic) : Move → Traffic
  | .wait => { t with waiters := t.waiters ++ [.begun] }
  | .goOn i => { t with waiters := t.waiters.modify i (Waiter.step t.signal) }
  | .trigger => { t with signal := t.signal.store, triggers := t.triggers ++ [.stored] }
  | .notify i =>
    match t.triggers[i]? with
    | some .stored => { t with signal := t.signal.notify, triggers := t.triggers.set i .notified }
    | _ => t
  | .take => { t with signal := t.signal.take.1 }
  | .isRequested => t

def run (t : Traffic) (ms : List Move) : Traffic := ms.foldl act t

theorem run_append (t : Traffic) (ms ns : List Move) : t.run (ms ++ ns) = (t.run ms).run ns :=
  List.foldl_append

end Traffic
end RecordIntake.InterruptSignal

namespace RecordIntake.Waiter

variable {s s' : InterruptSignal} {w : Waiter}

/-- How many notifications a waiter knows of, once it listens. -/
def known? : Waiter → Option Nat
  | .listening known | .parking known | .parked known => some known
  | .begun | .returned => none

/-- Whether a waiter is not stuck: if it has looked in vain, it was notified since. -/
def IsReady (s : InterruptSignal) : Waiter → Prop
  | .parking known | .parked known => isNotified known s = true
  | .begun | .listening _ | .returned => True

/-- The number of steps after which a waiter that is not stuck returns, as long as a request is
pending. -/
def stepsLeft : Waiter → Nat
  | .returned => 0
  | .listening _ => 1
  | .begun => 2
  | .parking _ | .parked _ => 3

theorem eq_returned (h : w.stepsLeft = 0) : w = .returned := by
  cases w <;> first | rfl | cases h

theorem stepsLeft_le (w : Waiter) : w.stepsLeft ≤ 3 := by
  cases w <;> simp [stepsLeft]

/-- Nobody forgets a notification. -/
theorem IsReady.mono (h : w.IsReady s) (hs : s.notifications ≤ s'.notifications) :
    w.IsReady s' := by
  cases w with
  | parking known | parked known =>
    exact decide_eq_true (Nat.lt_of_lt_of_le (of_decide_eq_true h) hs)
  | begun | listening known | returned => trivial

/-- A waiter that is not stuck comes closer to its return with each step that it takes while a
request is pending. -/
theorem IsReady.step (h : w.IsReady s) (hs : s.requested = true) :
    (w.step s).IsReady s ∧ (w.step s).stepsLeft ≤ w.stepsLeft - 1 := by
  cases w with
  | begun => exact ⟨trivial, Nat.le_refl 1⟩
  | listening known =>
    rw [Waiter.step, if_pos hs]
    exact ⟨trivial, Nat.le_refl 0⟩
  | parking known | parked known =>
    have hnotified : isNotified known s = true := h
    rw [Waiter.step, if_pos hnotified]
    exact ⟨trivial, Nat.le_refl 2⟩
  | returned => exact ⟨trivial, Nat.le_refl 0⟩

theorem IsReady.run (h : w.IsReady s) (hs : s.requested = true) : w.run s = .returned := by
  have h₁ := h.step hs
  have h₂ := h₁.1.step hs
  have h₃ := h₂.1.step hs
  have h₄ := h₃.1.step hs
  refine eq_returned ?_
  show (Waiter.step s (Waiter.step s (Waiter.step s (Waiter.step s w)))).stepsLeft = 0
  have := w.stepsLeft_le
  omega

/-- Nobody knows of notifications that are still to come. -/
theorem known_step (hw : ∀ k, w.known? = some k → k ≤ s.notifications) :
    ∀ k, (w.step s).known? = some k → k ≤ s.notifications := by
  intro k hk
  cases w with
  | begun =>
    obtain rfl := Option.some.inj hk
    exact Nat.le_refl _
  | listening known =>
    rw [Waiter.step] at hk
    split at hk
    · cases hk
    · exact hw k hk
  | parking known | parked known =>
    rw [Waiter.step] at hk
    split at hk
    · cases hk
    · exact hw k hk
  | returned => cases hk

end RecordIntake.Waiter

namespace RecordIntake.InterruptSignal.Traffic

variable {t : Traffic} {w : Waiter}

/-! ## Where the waiters stand -/

theorem notifications_act (t : Traffic) (m : Move) :
    t.signal.notifications ≤ (t.act m).signal.notifications := by
  cases m with
  | notify i =>
    simp only [act]
    split
    · exact Nat.le_succ _
    · exact Nat.le_refl _
  | _ => exact Nat.le_refl _

/-- A waiter stays where it is until its own next step. -/
theorem waiter_act {m : Move} {i : Nat} (hm : m ≠ .goOn i) (hw : t.waiters[i]? = some w) :
    (t.act m).waiters[i]? = some w := by
  cases m with
  | wait =>
    obtain ⟨hi, -⟩ := List.getElem?_eq_some_iff.mp hw
    exact (List.getElem?_append_left hi).trans hw
  | goOn j =>
    have hne : j ≠ i := fun h => hm (congrArg Move.goOn h)
    show (t.waiters.modify j (Waiter.step t.signal))[i]? = _
    simp only [List.getElem?_modify, if_neg hne, hw, Option.map_eq_map, Option.map_some]
  | notify j =>
    simp only [act]
    split <;> exact hw
  | trigger | take | isRequested => exact hw

theorem waiter_goOn {i : Nat} (hw : t.waiters[i]? = some w) :
    (t.act (.goOn i)).waiters[i]? = some (w.step t.signal) := by
  show (t.waiters.modify i (Waiter.step t.signal))[i]? = _
  simp only [List.getElem?_modify, if_true, hw, Option.map_eq_map, Option.map_some]

/-- A waiter that is not stuck returns when it has taken its steps, whatever happens in between, if
a request is pending whenever it takes one. -/
theorem returns_of_ready {i : Nat} (hw : t.waiters[i]? = some w) (hready : w.IsReady t.signal)
    {ms : List Move} (hms : ∀ xs ys, ms = xs ++ .goOn i :: ys → (t.run xs).signal.requested = true)
    (hcount : w.stepsLeft ≤ ms.count (.goOn i)) :
    (t.run ms).waiters[i]? = some .returned := by
  induction ms generalizing t w with
  | nil =>
    rw [← Waiter.eq_returned (Nat.le_zero.mp hcount)]
    exact hw
  | cons m ms ih =>
    have hlater : ∀ xs ys, ms = xs ++ .goOn i :: ys →
        ((t.act m).run xs).signal.requested = true := fun xs ys h =>
      hms (m :: xs) ys (congrArg (m :: ·) h)
    by_cases hm : m = .goOn i
    · subst hm
      obtain ⟨hready', hleft⟩ := hready.step (hms [] ms rfl)
      refine ih (waiter_goOn hw) hready' hlater ?_
      rw [List.count_cons_self] at hcount
      omega
    · rw [List.count_cons_of_ne hm] at hcount
      exact ih (waiter_act hm hw) (hready.mono (t.notifications_act m)) hlater hcount

/-! ## Nobody is stuck -/

structure Attentive (t : Traffic) : Prop where
  known : ∀ w ∈ t.waiters, ∀ k, w.known? = some k → k ≤ t.signal.notifications
  ready : t.signal.requested = true → .stored ∉ t.triggers → ∀ w ∈ t.waiters, w.IsReady t.signal

theorem attentive_start : Attentive start where
  known := List.forall_mem_nil _
  ready _ _ := List.forall_mem_nil _

/-- After a notification nobody is stuck. -/
theorem Attentive.ready_notify (h : Attentive t) : ∀ w ∈ t.waiters, w.IsReady t.signal.notify := by
  intro w hw
  have hknown := h.known w hw
  cases w with
  | parking known | parked known => exact decide_eq_true (Nat.lt_succ_of_le (hknown known rfl))
  | begun | listening known | returned => trivial

theorem forall_waiters_wait {P : Waiter → Prop} (hbegun : P .begun) (h : ∀ w ∈ t.waiters, P w) :
    ∀ w ∈ (t.act .wait).waiters, P w := by
  intro w hw
  obtain hold | hnew := List.mem_append.mp hw
  · exact h w hold
  · rw [List.mem_singleton.mp hnew]
    exact hbegun

theorem forall_waiters_goOn {P : Waiter → Prop}
    (h : ∀ w ∈ t.waiters, P w ∧ P (w.step t.signal)) (i : Nat) :
    ∀ w ∈ (t.act (.goOn i)).waiters, P w := by
  intro w hw
  obtain ⟨j, hj⟩ := List.getElem?_of_mem hw
  rw [act, List.getElem?_modify, Option.map_eq_map, Option.map_eq_some_iff] at hj
  obtain ⟨w', hw', rfl⟩ := hj
  have hboth := h w' (List.mem_of_getElem? hw')
  split
  · exact hboth.2
  · exact hboth.1

theorem Attentive.act (h : Attentive t) (m : Move) : Attentive (t.act m) := by
  cases m with
  | wait =>
    exact ⟨forall_waiters_wait (fun k hk => nomatch hk) h.known,
      fun hr hs => forall_waiters_wait trivial (h.ready hr hs)⟩
  | goOn i =>
    constructor
    · exact forall_waiters_goOn (fun w hw => ⟨h.known w hw, Waiter.known_step (h.known w hw)⟩) i
    · intro hr hs
      have hready := h.ready hr hs
      exact forall_waiters_goOn (fun w hw => ⟨hready w hw, ((hready w hw).step hr).1⟩) i
  | trigger =>
    refine ⟨h.known, fun _ hs => absurd ?_ hs⟩
    exact List.mem_append_right _ List.mem_cons_self
  | notify i =>
    simp only [Traffic.act]
    split
    · exact ⟨fun w hw k hk => Nat.le_succ_of_le (h.known w hw k hk), fun _ _ => h.ready_notify⟩
    · exact h
  | take => exact ⟨h.known, fun hr => nomatch hr⟩
  | isRequested => exact h

theorem attentive_run (h : Attentive t) (ms : List Move) : Attentive (t.run ms) := by
  induction ms generalizing t with
  | nil => exact h
  | cons m ms ih => exact ih (h.act m)

/-! ## Who takes a request -/

theorem requested_act {m : Move} (hm : m ≠ .take) (h : t.signal.requested = true) :
    (t.act m).signal.requested = true := by
  cases m with
  | take => exact absurd rfl hm
  | trigger => rfl
  | notify i =>
    simp only [act]
    split <;> exact h
  | wait | goOn i | isRequested => exact h

/-- A request is pending until it is taken. -/
theorem requested_run {ms : List Move} (hms : .take ∉ ms) (h : t.signal.requested = true) :
    (t.run ms).signal.requested = true := by
  induction ms generalizing t with
  | nil => exact h
  | cons m ms ih =>
    have hne : m ≠ .take := fun heq => hms (heq ▸ List.mem_cons_self)
    exact ih (fun hmem => hms (List.mem_cons_of_mem m hmem)) (requested_act hne h)

/-- A request is pending after a step if the step makes it, or if it was pending and is not
taken. -/
theorem requested_act_iff {m : Move} :
    (t.act m).signal.requested = true ↔ m = .trigger ∨ m ≠ .take ∧ t.signal.requested = true := by
  cases m with
  | trigger => exact ⟨fun _ => .inl rfl, fun _ => rfl⟩
  | take => exact ⟨fun h => (nomatch h), fun h => h.elim nofun fun h => absurd rfl h.1⟩
  | notify i =>
    simp only [act]
    split <;> exact ⟨fun h => .inr ⟨nofun, h⟩, fun h => h.elim nofun fun h => h.2⟩
  | wait | goOn i | isRequested =>
    exact ⟨fun h => .inr ⟨nofun, h⟩, fun h => h.elim nofun fun h => h.2⟩

/-- A request is pending if one was made and nothing was taken since. -/
theorem requested_take_iff (ms : List Move) (n : Nat) :
    (start.run (ms.take n)).signal.requested = true ↔
      ∃ i < n, ms[i]? = some .trigger ∧ ∀ j, i < j → j < n → ms[j]? ≠ some .take := by
  induction n with
  | zero => exact ⟨nofun, fun ⟨i, hi, _⟩ => absurd hi (Nat.not_lt_zero i)⟩
  | succ n ih =>
    rw [List.take_add_one, run_append]
    cases hm : ms[n]? with
    | none =>
      refine ih.trans ⟨fun ⟨i, hi, hmade, hfirst⟩ => ⟨i, Nat.lt_succ_of_lt hi, hmade, ?_⟩,
        fun ⟨i, hi, hmade, hfirst⟩ => ⟨i, ?_, hmade, ?_⟩⟩
      · intro j hij hj
        obtain hj | rfl := Nat.lt_succ_iff_lt_or_eq.mp hj
        · exact hfirst j hij hj
        · rw [hm]
          nofun
      · obtain hi | rfl := Nat.lt_succ_iff_lt_or_eq.mp hi
        · exact hi
        · rw [hm] at hmade
          cases hmade
      · exact fun j hij hj => hfirst j hij (Nat.lt_succ_of_lt hj)
    | some m =>
      refine requested_act_iff.trans ⟨?_, ?_⟩
      · rintro (rfl | ⟨htake, hr⟩)
        · exact ⟨n, Nat.lt_succ_self n, hm, fun j hnj hjn => absurd hnj (Nat.not_lt.mpr
            (Nat.le_of_lt_succ hjn))⟩
        · obtain ⟨i, hi, hmade, hfirst⟩ := ih.mp hr
          refine ⟨i, Nat.lt_succ_of_lt hi, hmade, fun j hij hj => ?_⟩
          obtain hj | rfl := Nat.lt_succ_iff_lt_or_eq.mp hj
          · exact hfirst j hij hj
          · rw [hm]
            exact fun heq => htake (Option.some.inj heq)
      · rintro ⟨i, hi, hmade, hfirst⟩
        obtain hi | rfl := Nat.lt_succ_iff_lt_or_eq.mp hi
        · refine .inr ⟨fun heq => hfirst n hi (Nat.lt_succ_self n) (heq ▸ hm), ih.mpr ?_⟩
          exact ⟨i, hi, hmade, fun j hij hj => hfirst j hij (Nat.lt_succ_of_lt hj)⟩
        · exact .inl (Option.some.inj (hm.symm.trans hmade))

/-- In a run, the request at one place is consumed by the take at another one, which is the first
take after it. -/
structure Consumes (ms : List Move) (trigger take : Nat) : Prop where
  made : ms[trigger]? = some .trigger
  taken : ms[take]? = some .take
  after : trigger < take
  first : ∀ i, trigger < i → i < take → ms[i]? ≠ some .take

theorem Consumes.unique {ms : List Move} {i p q : Nat} (hp : Consumes ms i p)
    (hq : Consumes ms i q) : p = q := by
  obtain hlt | heq | hgt := Nat.lt_trichotomy p q
  · exact absurd hp.taken (hq.first p hp.after hlt)
  · exact heq
  · exact absurd hq.taken (hp.first q hq.after hgt)

/-- A take finds a request if and only if it consumes one. -/
theorem take_iff_consumes {ms : List Move} {p : Nat} (hp : ms[p]? = some .take) :
    (start.run (ms.take p)).signal.take.2 = true ↔ ∃ i, Consumes ms i p := by
  refine (requested_take_iff ms p).trans ⟨?_, ?_⟩
  · rintro ⟨i, hi, hmade, hfirst⟩
    exact ⟨i, hmade, hp, hi, hfirst⟩
  · rintro ⟨i, h⟩
    exact ⟨i, h.after, h.made, h.first⟩

/-! ## No request is lost -/

/-- In every state that calls on a signal can reach, if a request is pending and everyone who made
one has notified, then nobody is parked who was not notified.  So every waiter returns when it runs
next: at once if nothing else happens, and in any case after three steps if a request is pending at
each of them.  A request that is made is seen by every wait that is called later, unless it is taken
before; so it is after the two steps in which the wait listens and looks.  A take finds a request if
and only if one was made since the take before, and no request is consumed by two takes. -/
theorem no_request_lost (ms : List Move) :
    let t := start.run ms
    (t.signal.requested = true → .stored ∉ t.triggers →
      (∀ known, .parked known ∈ t.waiters → Waiter.isNotified known t.signal = true) ∧
        (∀ w ∈ t.waiters, w.run t.signal = .returned) ∧
        ∀ i ns, i < t.waiters.length → 3 ≤ ns.count (.goOn i) →
          (∀ xs ys, ns = xs ++ .goOn i :: ys → (t.run xs).signal.requested = true) →
          (t.run ns).waiters[i]? = some .returned) ∧
      (∀ ns later, .take ∉ ns ++ later →
        let before := (t.act .trigger).run ns
        2 ≤ later.count (.goOn before.waiters.length) →
          ((before.act .wait).run later).waiters[before.waiters.length]? = some .returned) ∧
      (∀ p, ms[p]? = some .take →
        ((start.run (ms.take p)).signal.take.2 = true ↔ ∃ i, Consumes ms i p)) ∧
      ∀ i p q, Consumes ms i p → Consumes ms i q → p = q := by
  intro t
  have hattentive : Attentive t := attentive_run attentive_start ms
  refine ⟨fun hr hs => ?_, ?_, fun p hp => take_iff_consumes hp, fun i p q hp hq => hp.unique hq⟩
  · have hready := hattentive.ready hr hs
    refine ⟨fun known hmem => hready _ hmem, fun w hw => (hready w hw).run hr,
      fun i ns hi hcount hpending => ?_⟩
    have hw : t.waiters[i]? = some t.waiters[i] := List.getElem?_eq_getElem hi
    exact returns_of_ready hw (hready _ (List.getElem_mem hi)) hpending
      (Nat.le_trans (Waiter.stepsLeft_le _) hcount)
  · intro ns later htake before hcount
    have htaken : .take ∉ ns ∧ .take ∉ later := by
      rw [List.mem_append, not_or] at htake
      exact htake
    have hr : before.signal.requested = true :=
      requested_run (t := t.act .trigger) htaken.1 rfl
    have hw : (before.act .wait).waiters[before.waiters.length]? = some .begun :=
      List.getElem?_concat_length
    refine returns_of_ready hw trivial (fun xs ys hsplit => ?_) hcount
    refine requested_run (t := before.act .wait) (fun hmem => htaken.2 ?_) hr
    rw [hsplit]
    exact List.mem_append_left _ hmem

/-- A waiter parks between the two steps of a request. -/
def parkBeforeNotified : List Move :=
  [.wait, .goOn 0, .goOn 0, .trigger, .goOn 0, .notify 0]

/-- It returns, and the take that comes then consumes the request, while a second one consumes
none. -/
theorem no_request_lost_parkBeforeNotified :
    let t := start.run parkBeforeNotified
    let taken := parkBeforeNotified ++ [.take, .take]
    t.signal.requested = true ∧ .stored ∉ t.triggers ∧ t.waiters = [.parked 0] ∧
      Waiter.isNotified 0 t.signal = true ∧ (Waiter.parked 0).run t.signal = .returned ∧
      (t.run [.goOn 0, .isRequested, .goOn 0, .goOn 0]).waiters[0]? = some .returned ∧
      (((t.act .trigger).act .wait).run [.goOn 1, .goOn 1]).waiters[1]? = some .returned ∧
      (∃ i, Consumes taken i 6 ∧ ∀ p, Consumes taken i p → p = 6) ∧ ¬∃ i, Consumes taken i 7 := by
  intro t taken
  have hrequested : t.signal.requested = true := by decide
  have hnotified : .stored ∉ t.triggers := by decide
  have hwaiters : t.waiters = [.parked 0] := by decide
  obtain ⟨hpending, hseen, -, -⟩ := no_request_lost parkBeforeNotified
  obtain ⟨hparked, hruns, hreturns⟩ := hpending hrequested hnotified
  have hmem : .parked 0 ∈ t.waiters := hwaiters ▸ List.mem_cons_self
  obtain ⟨-, -, htakes, hunique⟩ := no_request_lost taken
  obtain ⟨i, hi⟩ := (htakes 6 (by decide)).mp (by decide)
  refine ⟨hrequested, hnotified, hwaiters, hparked 0 hmem, hruns _ hmem,
    hreturns 0 _ (by decide) (by decide) fun xs ys h => ?_, hseen [] _ (by decide) (by decide),
    ⟨i, hi, fun p hp => hunique i p 6 hp hi⟩, fun hnone => ?_⟩
  · refine requested_run (fun hmem => ?_) hrequested
    have htake : .take ∈ xs ++ .goOn 0 :: ys := List.mem_append_left _ hmem
    rw [← h] at htake
    exact absurd htake (by decide)
  · exact absurd ((htakes 7 (by decide)).mpr hnone) (by decide)

end RecordIntake.InterruptSignal.Traffic
