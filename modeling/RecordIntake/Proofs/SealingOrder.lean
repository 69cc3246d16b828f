import RecordIntake.Proofs.Arrivals

/-!
The order in which batches are sealed together.  The open batches are kept without any order of
their own, and a run in which they are rearranged before every call hands on the same units.  Those
that are sealed at once come in the order in which their first records came in.
-/
namespace RecordIntake

/-! ## Open batches in any order -/

namespace Pending

variable {p q : Pending}

/-- The open batches are known by what is found for each group. -/
theorem perm_iff (hp : (p.map (·.1)).Nodup) (hq : (q.map (·.1)).Nodup) :
    p.Perm q ↔ ∀ g, p.find? g = q.find? g := by
  have hmem : ∀ {r : Pending}, (r.map (·.1)).Nodup → ∀ g b, (g, b) ∈ r ↔ r.find? g = some b :=
    fun hr g b => ⟨find?_eq_some_of_mem hr, mem_of_find?⟩
  refine (List.perm_ext_iff_of_nodup (hp.of_map _) (hq.of_map _)).trans
    ⟨fun h g => Option.ext fun b => ?_, fun h x => ?_⟩
  · exact (hmem hp g b).symm.trans ((h (g, b)).trans (hmem hq g b))
  · rw [hmem hp x.1 x.2, hmem hq x.1 x.2, h]

theorem nodup_of_perm (hp : (p.map (·.1)).Nodup) (h : q.Perm p) : (q.map (·.1)).Nodup :=
  (h.map _).nodup_iff.mpr hp

theorem perm_add (hp : (p.map (·.1)).Nodup) (h : q.Perm p) (g : Group) (sequence now : Nat)
    (m : Message) (v : Json.Value) : (q.add g sequence now m v).Perm (p.add g sequence now m v) := by
  have hq := nodup_of_perm hp h
  have hfind := (perm_iff hq hp).mp h
  refine (perm_iff (nodup_add hq ..) (nodup_add hp ..)).mpr fun g' => ?_
  rw [find?_add, find?_add, hfind, hfind]

/-- Whether one batch was opened before another. -/
def opensBefore (x y : Group × PendingBatch) : Bool := x.2.sequence ≤ y.2.sequence

theorem pairwise_mergeSort (p : Pending) : (p.mergeSort opensBefore).Pairwise (opensBefore · ·) := by
  refine List.pairwise_mergeSort (fun x y z hxy hyz => ?_) (fun x y => ?_) p
  · exact decide_eq_true (Nat.le_trans (of_decide_eq_true hxy) (of_decide_eq_true hyz))
  · simp only [opensBefore, Bool.or_eq_true, decide_eq_true_eq]
    exact Nat.le_total ..

/-- As long as no two batches were opened at one place, there is one order to seal them in. -/
theorem sealAll_eq_of_perm (s : BatchSettings)
    (hp : ∀ x ∈ p, ∀ y ∈ p, x.2.sequence = y.2.sequence → x = y) (h : q.Perm p) :
    q.sealAll s = p.sealAll s := by
  refine congrArg (List.map _) (List.Perm.eq_of_pairwise (fun x y hx hy hxy hyx => ?_)
    q.pairwise_mergeSort p.pairwise_mergeSort ?_)
  · refine hp x ?_ y ?_ (Nat.le_antisymm (of_decide_eq_true hxy) (of_decide_eq_true hyx))
    · exact h.mem_iff.mp (List.mem_mergeSort.mp hx)
    · exact List.mem_mergeSort.mp hy
  · exact (List.mergeSort_perm ..).trans (h.trans (List.mergeSort_perm ..).symm)

end Pending

namespace Accumulator

variable {a a' : Accumulator} {xs : List Arrival}

theorem Dated.sequence_inj (h : a.Dated xs) {x y : Group × PendingBatch} (hx : x ∈ a.pending)
    (hy : y ∈ a.pending) (heq : x.2.sequence = y.2.sequence) : x = y := by
  have hfind := Pending.find?_eq_some_of_mem h.nodup hx
  have hfind' := Pending.find?_eq_some_of_mem h.nodup hy
  obtain ⟨r, hr⟩ := h.opened _ _ hfind
  obtain ⟨r', hr'⟩ := h.opened _ _ hfind'
  have hplace := hr.place
  rw [heq, hr'.place] at hplace
  cases hplace
  have hgroup : x.1 = y.1 := hr.group.symm.trans hr'.group
  rw [hgroup] at hfind
  exact Prod.ext hgroup (Option.some.inj (hfind.symm.trans hfind'))

/-! ## Each call -/

/-- The accumulator with its open batches in another order. -/
def rearrange (a : Accumulator) (p : Pending) : Accumulator := { a with pending := p }

/-- Both hand on the same units, and afterwards they keep the same batches in some order. -/
def Agrees (r r' : Accumulator × List Emission) : Prop :=
  r'.2 = r.2 ∧ ∃ p : Pending, p.Perm r.1.pending ∧ r'.1 = r.1.rearrange p

variable {p : Pending}

theorem Dated.rearrange (h : a.Dated xs) (hp : p.Perm a.pending) : (a.rearrange p).Dated xs where
  nodup := Pending.nodup_of_perm h.nodup hp
  next := h.next
  opened g b hb := by
    have hfind := (Pending.perm_iff (Pending.nodup_of_perm h.nodup hp) h.nodup).mp hp
    exact h.opened g b ((hfind g).symm.trans hb)

theorem agrees_addRecord (h : a.Dated xs) (hp : p.Perm a.pending) (m : Message) (now : Nat)
    (g : Group) (r : Record) :
    Agrees (a.addRecord m now g r) ((a.rearrange p).addRecord m now g r) := by
  have hadd := Pending.perm_add h.nodup hp g a.nextSequence now m r.value
  have hnodup := Pending.nodup_add h.nodup g a.nextSequence now m r.value
  have hfind := (Pending.perm_iff (Pending.nodup_of_perm hnodup hadd) hnodup).mp hadd g
  simp only [addRecord, rearrange, hfind]
  cases (a.pending.add g a.nextSequence now m r.value).find? g with
  | none => exact ⟨rfl, _, hadd, rfl⟩
  | some b =>
    by_cases hfull : a.settings.maxRecords ≤ b.records.size
    · simp only [hfull, if_true]
      exact ⟨rfl, _, hadd.filter _, rfl⟩
    · simp only [hfull, if_false]
      exact ⟨rfl, _, hadd, rfl⟩

theorem agrees_addRecords (h : a.Dated xs) (hp : p.Perm a.pending) (m : Message) (now : Nat)
    {es : List Entry} (hes : ∀ e ∈ es, e.message = m) :
    Agrees (a.addRecords m now (commonGroup a.settings m) (es.map Entry.record))
      ((a.rearrange p).addRecords m now (commonGroup a.settings m)
        (es.map Entry.record)) := by
  induction es generalizing a p xs with
  | nil => exact ⟨rfl, p, hp, rfl⟩
  | cons e es ih =>
    obtain rfl := hes e List.mem_cons_self
    have hstays := stays_addRecord h now e
    obtain ⟨hunits, q, hq, heq⟩ := agrees_addRecord h hp e.message now (e.group a.settings) e.record
    obtain ⟨hrest, hend⟩ := ih hstays.dated hq fun e' he' => hes e' (List.mem_cons_of_mem e he')
    rw [hstays.settings, ← heq] at hrest hend
    exact ⟨congrArg₂ (· ++ ·) hunits hrest, hend⟩

theorem Dated.sealAll_eq (h : a.Dated xs) (hp : p.Perm a.pending)
    (f : Group × PendingBatch → Bool) :
    Pending.sealAll a.settings (p.filter f) = Pending.sealAll a.settings (a.pending.filter f) := by
  refine Pending.sealAll_eq_of_perm a.settings (fun x hx y hy heq => ?_) (hp.filter f)
  exact h.sequence_inj (List.mem_filter.mp hx).1 (List.mem_filter.mp hy).1 heq

/-- No call depends on the order in which the open batches are kept. -/
theorem agrees_act (h : a.Dated xs) (hp : p.Perm a.pending) (c : Call) :
    Agrees (a.act c) ((a.rearrange p).act c) := by
  cases c with
  | absorb m now =>
    simp only [act, absorb, rearrange]
    cases a.reader m.payload with
    | ok rs =>
      have hagrees := agrees_addRecords h hp m now (m.message_of_mem_entries rs)
      rwa [Message.map_record_entries] at hagrees
    | error e => exact ⟨rfl, p, hp, rfl⟩
  | takeExpired now =>
    simp only [act, takeExpired_eq]
    exact ⟨h.sealAll_eq hp _, _, hp.filter _, rfl⟩
  | flushAll =>
    have hunits := h.sealAll_eq hp fun _ => true
    simp only [List.filter_true] at hunits
    exact ⟨hunits, _, .refl _, rfl⟩
  | discard => exact ⟨rfl, _, .refl _, rfl⟩

/-! ## Runs -/

/-- A run in which the open batches may come in any order whenever they are gone through: they are
rearranged before each call and at the end. -/
inductive Shuffled : Accumulator → List Call → Accumulator → List (List Emission) → Prop where
  | done {a : Accumulator} {p : Pending} (hp : p.Perm a.pending) :
    Shuffled a [] (a.rearrange p) []
  | call {a a' : Accumulator} {p : Pending} {c : Call} {cs : List Call}
    {outs : List (List Emission)} (hp : p.Perm a.pending)
    (h : Shuffled ((a.rearrange p).act c).1 cs a' outs) :
    Shuffled a (c :: cs) a' (((a.rearrange p).act c).2 :: outs)

/-- Whatever order the batches come in, the same units are handed on. -/
theorem Shuffled.agrees {b : Accumulator} {cs : List Call} {outs : List (List Emission)}
    (h : Shuffled b cs a' outs) (hd : a.Dated xs) (hp : p.Perm a.pending)
    (hb : b = a.rearrange p) :
    outs = a.outputs cs ∧
      ∃ q : Pending, q.Perm (a.after cs).pending ∧ a' = (a.after cs).rearrange q := by
  induction h generalizing a p xs with
  | done hq =>
    subst hb
    exact ⟨rfl, _, hq.trans hp, rfl⟩
  | @call b b' q c cs outs hq _ ih =>
    subst hb
    obtain ⟨hunits, r, hr, heq⟩ := agrees_act hd (hq.trans hp) c
    obtain ⟨hrest, hend⟩ := ih (stays_act hd c).dated hr heq
    exact ⟨congrArg₂ List.cons hunits hrest, hend⟩

/-! ## Main result -/

/-- The units are the batches that are due.  Each of them holds the records of its group from its
first one on, and they come in the order in which these first records came in. -/
def SealsInOrder (a : Accumulator) (xs : List Arrival) (due : PendingBatch → Bool)
    (units : List Emission) : Prop :=
  ∃ bs : Pending, bs.Perm (a.pending.filter fun x => due x.2) ∧
    (∀ x ∈ bs, ∃ first, x.2.OpenedBy a.settings xs x.1 first) ∧
    bs.Pairwise (fun x y => x.2.sequence < y.2.sequence) ∧
    units = bs.map fun x => .batch (x.2.toSealed a.settings x.1)

theorem Dated.sealsInOrder (h : a.Dated xs) (due : PendingBatch → Bool) :
    a.SealsInOrder xs due
      (Pending.sealAll a.settings (a.pending.filter fun x => due x.2)) := by
  have hperm := List.mergeSort_perm (a.pending.filter fun x => due x.2) Pending.opensBefore
  have hmem : ∀ x ∈ (a.pending.filter fun x => due x.2).mergeSort Pending.opensBefore,
      x ∈ a.pending := fun x hx => (List.mem_filter.mp (hperm.mem_iff.mp hx)).1
  have hnodup := (h.nodup.of_map _).filter fun x => due x.2
  refine ⟨_, hperm, fun x hx => ?_, ?_, rfl⟩
  · exact h.opened _ _ (Pending.find?_eq_some_of_mem h.nodup (hmem x hx))
  · refine ((Pending.pairwise_mergeSort _).and (hperm.nodup_iff.mpr hnodup)).imp_of_mem
      fun hx hy ⟨hle, hne⟩ => ?_
    refine Nat.lt_of_le_of_ne (of_decide_eq_true hle) fun heq => hne ?_
    exact h.sequence_inj (hmem _ hx) (hmem _ hy) heq

/-- The order of what is handed on is the order of arrival.  In a run in which the open batches are
rearranged at will, every call hands on what it would otherwise, and batches that are sealed
together come in the order in which their first records came in. -/
theorem sealed_in_order_of_arrival (reader : RecordReader) (s : BatchSettings) {cs : List Call}
    {a : Accumulator} {outs : List (List Emission)} (h : Shuffled (start reader s) cs a outs) :
    let xs := cs.flatMap (Call.arrivals reader)
    let b := (start reader s).after cs
    outs = (start reader s).outputs cs ∧
    (∀ now, (a.takeExpired now).2 = (b.takeExpired now).2 ∧
      a.SealsInOrder xs (isExpired s now) (a.takeExpired now).2) ∧
    a.flushAll.2 = b.flushAll.2 ∧ a.SealsInOrder xs (fun _ => true) a.flushAll.2 := by
  intro xs b
  obtain ⟨houts, p, hp, rfl⟩ := h.agrees (dated_start reader s) (.refl _) rfl
  have hstays := stays_after (dated_start reader s) cs
  have hd : b.Dated xs := hstays.dated
  have hsettings : b.settings = s := hstays.settings
  have hrearranged := hd.rearrange hp
  have hall := (agrees_act hd hp .flushAll).1
  have hflush := hrearranged.sealsInOrder fun _ => true
  simp only [List.filter_true] at hflush
  refine ⟨houts, fun now => ⟨(agrees_act hd hp (.takeExpired now)).1, ?_⟩, hall, hflush⟩
  have hexpired : (b.rearrange p).SealsInOrder xs (isExpired b.settings now)
      ((b.rearrange p).takeExpired now).2 := by
    rw [takeExpired_eq]
    exact hrearranged.sealsInOrder _
  rw [hsettings] at hexpired
  exact hexpired

/-- A message of each of two partitions. -/
def twoPartitions : List Call :=
  [.absorb ⟨⟨"t", 0⟩, 0, none, some [123, 125], none, []⟩ 0,
    .absorb ⟨⟨"t", 1⟩, 0, none, some [123, 125], none, []⟩ 0]

/-- The batch that was opened last is gone through first, and comes out last. -/
theorem sealed_in_order_of_arrival_twoPartitions :
    let a := (empty {}).after twoPartitions
    let b := a.rearrange a.pending.reverse
    Shuffled (empty {}) twoPartitions b [[], []] ∧
      b.pending.map (·.1.partition.number) = [1, 0] ∧
      b.flushAll.2.map (·.metadata.partition) = [0, 1] := by
  intro a b
  have hrun : Shuffled (empty {}) twoPartitions b [[], []] :=
    .call (.refl _) (.call (.refl _) (.done (List.reverse_perm _)))
  obtain ⟨-, -, hflush, -⟩ := sealed_in_order_of_arrival Record.read {} hrun
  have hsorted : a.pending.mergeSort Pending.opensBefore = a.pending :=
    List.mergeSort_of_pairwise (by decide +kernel)
  refine ⟨hrun, by decide +kernel, ?_⟩
  rw [hflush]
  show ((a.pending.mergeSort Pending.opensBefore).map _).map _ = _
  rw [hsorted]
  decide +kernel

end Accumulator
end RecordIntake
