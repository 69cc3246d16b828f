import RecordIntake.Proofs.Exclusion

/-!
Where a connection is between two leases.  Nobody else has it meanwhile, so the next lease on it
gets it as it came back from the last one, or new.
-/
namespace RecordIntake

/-- The connection of a number as it came back from the last lease on it. -/
def lastReturned (k : ConnectionId) : List Occurrence → Option Connection
  | [] => none
  | .returned _ c :: h => if c.id = k then some c else lastReturned k h
  | _ :: h => lastReturned k h

/-- The connection is as the last lease on it left it, or nobody has had it yet. -/
def Untouched (h : List Occurrence) (c : Connection) : Prop :=
  lastReturned c.id h = some c ∨ lastReturned c.id h = none ∧ c.positions = []

namespace World

variable {w w' : World}

/-! ## Spare connections -/

theorem Inquiry.serves_connection {p : Pool} {x : Inquiry} {c : Connection} (h : x.Serves p)
    (hc : x.connection? = some c) : c.Serves p x.loan := by
  cases x with
  | taken s =>
    cases s with
    | idle i =>
      cases hc
      exact h
    | fresh signal partition => cases hc
  | asking q =>
    cases hc
    exact h
  | answered q faulty =>
    cases hc
    exact h

/-- A spare connection is none that a lease has got. -/
theorem spare_apart (h : Owned w.pool w.phases w.inquiries) {id : LeaseId} {ph : Phase}
    {loan : Loan} (hph : w.phases.find? id = some ph) (hno : ∀ o sink, ph ≠ .opening o sink)
    (hloan : w.pool.outstanding.find? id = some loan) {c : Connection} (hc : w.Spare c) :
    ∃ loan', c.Serves w.pool loan' ∧ Apart w.pool loan loan' := by
  cases hc with
  | idle i hi hic =>
    subst hic
    exact ⟨i.loan, h.idle i hi, apart_idle h hloan hi⟩
  | inquiry x hx hxc =>
    exact ⟨x.loan, Inquiry.serves_connection (h.inquiries x hx) hxc, apart_inquiry h hloan hx⟩
  | opening id' o sink hph' ho =>
    have hne : id' ≠ id := by
      rintro rfl
      exact hno o sink (Option.some.inj (hph.symm.trans hph'))
    obtain hended | ⟨loan', hloan', -, hl, hs⟩ := h.phases id' _ hph'
    · cases hended
    · refine ⟨loan', ?_, apart_lease h hloan hloan' hne⟩
      cases hsupply : o.supply with
      | idle i =>
        rw [hsupply] at ho hl hs
        cases ho
        exact hl ▸ hs
      | fresh signal partition =>
        rw [hsupply] at ho
        cases ho

theorem unopened_apart (h : Owned w.pool w.phases w.inquiries) {id : LeaseId} {ph : Phase}
    {loan : Loan} (hph : w.phases.find? id = some ph) (hno : ∀ o sink, ph ≠ .opening o sink)
    (hloan : w.pool.outstanding.find? id = some loan) {k : ConnectionId} (hk : w.Unopened k) :
    k ≠ loan.signal.connection := by
  have hnumber : ∀ s : Supply, Pool.Supply.unopened? s = some k →
      (Pool.Supply.loan s).signal.connection = k := by
    intro s hs
    cases s with
    | idle i => cases hs
    | fresh signal partition => exact Option.some.inj hs
  cases hk with
  | inquiry s hs hk =>
    rw [← hnumber s hk]
    exact (apart_inquiry h hloan hs).number
  | opening id' o sink hph' ho =>
    have hne : id' ≠ id := by
      rintro rfl
      exact hno o sink (Option.some.inj (hph.symm.trans hph'))
    obtain hended | ⟨loan', hloan', -, hl, -⟩ := h.phases id' _ hph'
    · cases hended
    · rw [← hnumber o.supply ho, hl]
      exact (apart_lease h hloan hloan' hne).number

/-- A lease that has got its connection leaves the spare ones alone. -/
theorem Spare.of_insert {env : Environment} {id : LeaseId} {ph' : Phase} {h : List Occurrence}
    (hno : ∀ o sink, ph' ≠ .opening o sink) {c : Connection}
    (hc : Spare { w with env := env, phases := w.phases.insert id ph', history := h } c) :
    w.Spare c := by
  cases hc with
  | idle i hi hic => exact .idle i hi hic
  | inquiry x hx hxc => exact .inquiry x hx hxc
  | opening id' o sink hph ho =>
    rw [SortedMap.find?_insert] at hph
    split at hph
    · exact absurd (Option.some.inj hph) (hno o sink)
    · exact .opening id' o sink hph ho

theorem Unopened.of_insert {env : Environment} {id : LeaseId} {ph' : Phase} {h : List Occurrence}
    (hno : ∀ o sink, ph' ≠ .opening o sink) {k : ConnectionId}
    (hk : Unopened { w with env := env, phases := w.phases.insert id ph', history := h } k) :
    w.Unopened k := by
  cases hk with
  | inquiry s hs hk => exact .inquiry s hs hk
  | opening id' o sink hph ho =>
    rw [SortedMap.find?_insert] at hph
    split at hph
    · exact absurd (Option.some.inj hph) (hno o sink)
    · exact .opening id' o sink hph ho

/-! ## Connections between leases -/

structure Placed (w : World) : Prop where
  spare : ∀ c, w.Spare c → Untouched w.history c
  unopened : ∀ k, w.Unopened k → lastReturned k w.history = none
  known : ∀ k c, lastReturned k w.history = some c → k ≤ w.pool.lastConnection
  lent : ∀ id c earlier, .lent id c :: earlier <:+ w.history → Untouched earlier c

theorem placed_calm (hcalm : Calm w w') (h : Placed w) : Placed w' where
  spare c hc := by
    rw [hcalm.history]
    obtain hc | ⟨hnil, hk⟩ := hcalm.spare c hc
    · exact h.spare c hc
    · exact .inr ⟨h.unopened c.id hk, hnil⟩
  unopened k hk := by
    rw [hcalm.history]
    obtain hk | rfl := hcalm.unopened k hk
    · exact h.unopened k hk
    · cases hlast : lastReturned (w.pool.lastConnection + 1) w.history with
      | none => rfl
      | some c => exact absurd (h.known _ c hlast) (Nat.not_succ_le_self _)
  known k c hk := by
    rw [hcalm.history] at hk
    exact Nat.le_trans (h.known k c hk) hcalm.lastConnection
  lent := by
    rw [hcalm.history]
    exact h.lent

/-- A lease that has got its connection goes on, and nothing comes back. -/
theorem placed_insert (h : Placed w) {env : Environment} {id : LeaseId} {ph' : Phase}
    {history : List Occurrence} (hno : ∀ o sink, ph' ≠ .opening o sink)
    (hlast : ∀ k, lastReturned k history = lastReturned k w.history)
    (hlent : ∀ id c earlier, .lent id c :: earlier <:+ history → Untouched earlier c) :
    Placed { w with env := env, phases := w.phases.insert id ph', history := history } where
  spare c hc := by
    have := h.spare c (hc.of_insert hno)
    rwa [Untouched, hlast]
  unopened k hk := by
    rw [hlast]
    exact h.unopened k (hk.of_insert hno)
  known k c hk := by
    rw [hlast] at hk
    exact h.known k c hk
  lent := hlent

/-- What is remembered is not that a lease began. -/
theorem placed_remember (h : Placed w) {o : Occurrence} (ho : ∀ id c, o ≠ .lent id c) :
    ∀ id c earlier, .lent id c :: earlier <:+ o :: w.history → Untouched earlier c := by
  intro id c earlier hsuffix
  obtain heq | hsuffix := List.suffix_cons_iff.mp hsuffix
  · exact absurd (List.cons.inj heq).1.symm (ho id c)
  · exact h.lent id c earlier hsuffix

/-- The pool takes a connection back, which is spare again if it is kept. -/
theorem spare_checkIn {id : LeaseId} {c : Connection} {discard : Bool} {env : Environment}
    {now : Nat} {history : List Occurrence} {c' : Connection}
    (hc : Spare
      { w with
        env := env
        pool := (w.pool.takeBack id (some c) discard now).1
        phases := w.phases.insert id .ended
        history := history } c') :
    w.Spare c' ∨ c = c' ∧ (discard || w.pool.closed) = false := by
  cases hc with
  | idle i hi hic =>
    obtain hi | ⟨hi, hkept⟩ := Pool.mem_idle_takeBack hi
    · exact .inl (.idle i hi hic)
    · exact .inr ⟨(Option.some.inj hi).trans hic, hkept⟩
  | inquiry x hx hxc => exact .inl (.inquiry x hx hxc)
  | opening id' o sink hph ho =>
    rw [SortedMap.find?_insert] at hph
    split at hph
    · cases hph
    · exact .inl (.opening id' o sink hph ho)

theorem unopened_checkIn {id : LeaseId} {c : Connection} {discard : Bool} {env : Environment}
    {now : Nat} {history : List Occurrence} {k : ConnectionId}
    (hk : Unopened
      { w with
        env := env
        pool := (w.pool.takeBack id (some c) discard now).1
        phases := w.phases.insert id .ended
        history := history } k) : w.Unopened k := by
  cases hk with
  | inquiry s hs hk => exact .inquiry s hs hk
  | opening id' o sink hph ho =>
    rw [SortedMap.find?_insert] at hph
    split at hph
    · cases hph
    · exact .opening id' o sink hph ho

/-- Whoever has a connection number, it is one that was given. -/
theorem number_le (h : Owned w.pool w.phases w.inquiries) {id : LeaseId} {loan : Loan}
    (hloan : w.pool.outstanding.find? id = some loan) :
    loan.signal.connection ≤ w.pool.lastConnection := by
  refine Nat.le_of_not_lt fun hlt => ?_
  have hzero := (h.numbered loan.signal.connection).2 hlt
  have hpos := List.count_pos_iff.mpr (mem_lentIds hloan)
  omega

theorem placed_checkIn (howned : Owned w.pool w.phases w.inquiries) (h : Placed w) {id : LeaseId}
    {c : Connection} {discard : Bool} {env : Environment}
    (hph : w.phases.find? id = some (.returning c discard)) (now : Nat) :
    Placed
      { w with
        env := env
        pool := (w.pool.takeBack id (some c) discard now).1
        phases := w.phases.insert id .ended
        history := if discard || w.pool.closed then w.history else .returned id c :: w.history } := by
  have hlast := w.pool.lastConnection_takeBack id (some c) discard now
  cases hkept : discard || w.pool.closed with
  | true =>
    refine ⟨fun c' hc' => ?_, fun k hk => h.unopened k (unopened_checkIn hk), fun k c' hk => ?_,
      h.lent⟩
    · obtain hc' | ⟨-, hno⟩ := spare_checkIn hc'
      · exact h.spare c' hc'
      · rw [hkept] at hno
        cases hno
    · exact Nat.le_trans (h.known k c' hk) (Nat.le_of_eq hlast.symm)
  | false =>
    obtain hended | ⟨loan, hloan, hserves⟩ := howned.phases id _ hph
    · cases hended
    have hno : ∀ o sink, Phase.returning c discard ≠ .opening o sink := by simp
    have hother : ∀ k, k ≠ c.id →
        lastReturned k (.returned id c :: w.history) = lastReturned k w.history :=
      fun k hk => if_neg hk.symm
    refine ⟨fun c' hc' => ?_, fun k hk => ?_, fun k c' hk => ?_, placed_remember h (by simp)⟩
    · obtain hc' | ⟨rfl, -⟩ := spare_checkIn hc'
      · obtain ⟨loan', hserves', hapart⟩ := spare_apart howned hph hno hloan hc'
        have hne : c'.id ≠ c.id := by
          rw [hserves'.id, hserves.id]
          exact hapart.number
        have hspare := h.spare c' hc'
        simp only [Bool.false_eq_true, if_false]
        rwa [Untouched, hother c'.id hne]
      · exact .inl (if_pos rfl)
    · have hk := unopened_checkIn hk
      have hne : k ≠ c.id := by
        rw [hserves.id]
        exact unopened_apart howned hph hno hloan hk
      simp only [Bool.false_eq_true, if_false]
      rw [hother k hne]
      exact h.unopened k hk
    · show k ≤ (w.pool.takeBack id (some c) discard now).1.lastConnection
      rw [hlast]
      by_cases hkc : k = c.id
      · rw [hkc, hserves.id]
        exact number_le howned hloan
      · simp only [Bool.false_eq_true, if_false] at hk
        rw [hother k hkc] at hk
        exact h.known k c' hk

theorem placed_moves (howned : Owned w.pool w.phases w.inquiries) (hmoves : Moves w w')
    (h : Placed w) : Placed w' := by
  cases hmoves with
  | calm hcalm => exact placed_calm hcalm h
  | @lend id o sink _ c env hph hsteady hy now =>
    refine placed_insert h (by simp) (fun k => rfl) fun id' c' earlier hsuffix => ?_
    obtain heq | hsuffix := List.suffix_cons_iff.mp hsuffix
    · cases heq
      obtain hspare | ⟨hnil, hunopened⟩ := spare_of_yields hph hy
      · exact h.spare c hspare
      · exact .inr ⟨h.unopened c.id hunopened, hnil⟩
    · exact h.lent id' c' earlier hsuffix
  | read hph hl hsteady hpolls hph' =>
    exact placed_insert h hph'.not_opening (fun k => rfl) (placed_remember h (by simp))
  | absorb hph hx hsteady hph' => exact placed_insert h hph'.not_opening (fun k => rfl) h.lent
  | accept hph hcluster hj => exact placed_insert h (by simp) (fun k => rfl) h.lent
  | commit hph hempty hlogs hj hc now =>
    exact placed_insert h (by simp) (fun k => rfl) (placed_remember h (by simp))
  | refuse hph hlogs hj hc => exact placed_insert h (by simp) (fun k => rfl) h.lent
  | abandon hph hl hsteady ha => exact placed_insert h (by simp) (fun k => rfl) h.lent
  | checkIn hph hsteady now => exact placed_checkIn howned h hph now

end World
end RecordIntake
