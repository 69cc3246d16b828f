import RecordIntake.Proofs.Lines
import RecordIntake.Proofs.ReaderValues

/-!
What an accumulator emits can be written and told again.  The numbers of a unit come from those of
its messages, its headers are selected in order, its records are what the reader makes, and there
are no more of them than a batch may have.  All this holds of a batch while it is open, and each
record that joins it keeps it.
-/
namespace RecordIntake

/-- The numbers of a message are as great as they may be. -/
structure Message.Fits (m : Message) : Prop where
  partition : Json.IsInteger m.partition.number
  offset : Json.IsInteger m.offset
  timestamp : ∀ t ∈ m.timestamp, Json.IsInteger t

theorem BatchSettings.sorted_selectedHeaders (s : BatchSettings) (m : Message) :
    (s.selectedHeaders m).Sorted :=
  SortedMap.sorted_ofList _

/-- The later one of two timestamps is one of them. -/
theorem latest_eq_some {t u : Option Int} {n : Int} (h : latest t u = some n) :
    t = some n ∨ u = some n := by
  cases t with
  | none => exact .inr h
  | some t =>
    cases u with
    | none => exact .inl h
    | some u =>
      obtain rfl := Option.some.inj h
      have hmax : t = max t u ∨ u = max t u := by omega
      exact hmax.imp (congrArg some) (congrArg some)

/-! ## Open batches -/

namespace PendingBatch

variable {b : PendingBatch} {g : Group} {m : Message} {v : Json.Value}

/-- The batch of a group, when it is sealed, fits unless it has too many records. -/
structure Fits (b : PendingBatch) (g : Group) : Prop where
  partition : Json.IsInteger g.partition.number
  headers : g.headers.Sorted
  timestamp : ∀ t ∈ b.timestamp, Json.IsInteger t
  firstOffset : Json.IsInteger b.firstOffset
  lastOffset : Json.IsInteger b.lastOffset
  records : ∀ v ∈ b.records.toList, v.WellFormed

theorem fits_start (hm : m.Fits) (hpartition : g.partition = m.partition)
    (hheaders : g.headers.Sorted) (hv : v.WellFormed) (sequence now : Nat) :
    (start sequence now m v).Fits g where
  partition := hpartition ▸ hm.partition
  headers := hheaders
  timestamp := hm.timestamp
  firstOffset := hm.offset
  lastOffset := hm.offset
  records := List.forall_mem_singleton.mpr hv

theorem Fits.push (h : b.Fits g) (hm : m.Fits) (hv : v.WellFormed) : (b.push m v).Fits g where
  partition := h.partition
  headers := h.headers
  timestamp := by
    intro t ht
    rcases latest_eq_some ht with ht | ht
    · exact h.timestamp t ht
    · exact hm.timestamp t ht
  firstOffset := h.firstOffset
  lastOffset := hm.offset
  records := by
    intro w hw
    rw [PendingBatch.push, Array.toList_push] at hw
    rcases List.mem_append.mp hw with hw | hw
    · exact h.records w hw
    · rw [List.mem_singleton.mp hw]
      exact hv

theorem Fits.toSealed (h : b.Fits g) (hsize : b.records.size < 2 ^ 64) (s : BatchSettings) :
    (Emission.batch (b.toSealed s g)).Fits :=
  ⟨⟨h.partition, h.timestamp, h.headers, hsize, h.firstOffset, h.lastOffset⟩, h.records⟩

end PendingBatch

/-- A batch after a record was added: none but that of its group is another one. -/
theorem Pending.mem_add {g : Group} {sequence now : Nat} {m : Message} {v : Json.Value}
    {p : Pending} {x : Group × PendingBatch} (h : x ∈ p.add g sequence now m v) :
    x ∈ p ∨ x = (g, (p.find? g).elim (.start sequence now m v) (·.push m v)) := by
  induction p with
  | nil => exact .inr (List.mem_singleton.mp h)
  | cons y rest ih =>
    obtain ⟨g', b⟩ := y
    rw [add] at h
    rw [find?]
    by_cases hg : g' = g
    · rw [if_pos hg] at h ⊢
      rcases List.mem_cons.mp h with rfl | h
      · exact .inr (by rw [hg]; rfl)
      · exact .inl (List.mem_cons_of_mem _ h)
    · rw [if_neg hg] at h ⊢
      rcases List.mem_cons.mp h with rfl | h
      · exact .inl List.mem_cons_self
      · exact (ih h).imp_left (List.mem_cons_of_mem _)

/-! ## Accumulators -/

namespace Accumulator

variable {a : Accumulator} {m : Message} {g : Group}

/-- Every open batch fits, and is not full. -/
structure Fits (a : Accumulator) : Prop where
  countable : a.settings.maxRecords < 2 ^ 64
  reads : a.reader = Record.read
  pending : ∀ x ∈ a.pending, x.2.Fits x.1 ∧ x.2.records.size < a.settings.maxRecords

/-- The message of a call, if it has one, fits. -/
def Call.Fits : Call → Prop
  | .absorb m _ => m.Fits
  | .takeExpired _ | .flushAll | .discard => True

/-- What is kept still fits, and so does what is emitted. -/
structure Yields (r : Accumulator × List Emission) : Prop where
  kept : r.1.Fits
  emitted : ∀ u ∈ r.2, u.Fits

theorem fits_empty {s : BatchSettings} (hs : s.maxRecords < 2 ^ 64) : (empty s).Fits :=
  ⟨hs, rfl, List.forall_mem_nil _⟩

/-- Some batches may be taken away. -/
theorem Fits.sublist (h : a.Fits) {p : Pending} (hp : ∀ x ∈ p, x ∈ a.pending) :
    { a with pending := p }.Fits :=
  ⟨h.countable, h.reads, fun x hx => h.pending x (hp x hx)⟩

theorem Fits.sealAll (h : a.Fits) {p : Pending} (hp : ∀ x ∈ p, x ∈ a.pending) :
    ∀ u ∈ Pending.sealAll a.settings p, u.Fits := by
  intro u hu
  obtain ⟨x, hx, rfl⟩ := List.mem_map.mp hu
  obtain ⟨hfits, hsize⟩ := h.pending x (hp x (List.mem_mergeSort.mp hx))
  exact hfits.toSealed (Nat.lt_trans hsize h.countable) a.settings

/-- What becomes of the batch that a record joins, whether it is open or not. -/
theorem Fits.joined (h : a.Fits) (hm : m.Fits) (hpartition : g.partition = m.partition)
    (hheaders : g.headers.Sorted) {v : Json.Value} (hv : v.WellFormed) (sequence now : Nat) :
    let b := (a.pending.find? g).elim (.start sequence now m v) (·.push m v)
    b.Fits g ∧ b.records.size ≤ max 1 a.settings.maxRecords := by
  cases hg : a.pending.find? g with
  | none =>
    exact ⟨PendingBatch.fits_start hm hpartition hheaders hv sequence now, Nat.le_max_left ..⟩
  | some b =>
    obtain ⟨hfits, hsize⟩ := h.pending _ (Pending.mem_of_find? hg)
    refine ⟨hfits.push hm hv, Nat.le_trans ?_ (Nat.le_max_right ..)⟩
    show (b.records.push v).size ≤ _
    rw [Array.size_push]
    exact hsize

theorem yields_addRecord (h : a.Fits) (hm : m.Fits) (hpartition : g.partition = m.partition)
    (hheaders : g.headers.Sorted) {r : Record} (hr : r.value.WellFormed) (now : Nat) :
    Yields (a.addRecord m now g r) := by
  obtain ⟨hfits, hsize⟩ := h.joined hm hpartition hheaders hr a.nextSequence now
  have hcountable := h.countable
  unfold addRecord
  dsimp only
  rw [Pending.find?_add, if_pos rfl]
  dsimp only
  split
  · -- The batch is full, so it is sealed, and the others are as they were.
    refine ⟨⟨h.countable, h.reads, ?_⟩, ?_⟩
    · intro x hx
      obtain ⟨hmem, hne⟩ := List.mem_filter.mp hx
      rcases Pending.mem_add hmem with hold | rfl
      · exact h.pending x hold
      · simp at hne
    · intro u hu
      rw [List.mem_singleton.mp hu]
      exact hfits.toSealed (by omega) a.settings
  · rename_i hroom
    refine ⟨⟨h.countable, h.reads, ?_⟩, List.forall_mem_nil _⟩
    intro x hx
    rcases Pending.mem_add hx with hold | rfl
    · exact h.pending x hold
    · exact ⟨hfits, Nat.lt_of_not_le hroom⟩

theorem yields_addRecords (h : a.Fits) (hm : m.Fits) (hpartition : g.partition = m.partition)
    (hheaders : g.headers.Sorted) {rs : List Record} (hrs : ∀ r ∈ rs, r.value.WellFormed)
    (now : Nat) : Yields (a.addRecords m now g rs) := by
  induction rs generalizing a with
  | nil => exact ⟨h, List.forall_mem_nil _⟩
  | cons r rs ih =>
    obtain ⟨hr, hrs⟩ := List.forall_mem_cons.mp hrs
    have hfirst := yields_addRecord (g := { g with schema := r.schema }) h hm hpartition hheaders
      hr now
    have hrest := ih hfirst.kept hrs
    exact ⟨hrest.kept, List.forall_mem_append.mpr ⟨hfirst.emitted, hrest.emitted⟩⟩

theorem yields_absorb (h : a.Fits) (hm : m.Fits) (now : Nat) : Yields (a.absorb m now) := by
  have hheaders := a.settings.sorted_selectedHeaders m
  unfold absorb
  cases hread : a.reader m.payload with
  | ok rs =>
    rw [h.reads] at hread
    exact yields_addRecords h hm rfl hheaders (Record.wellFormed_of_read hread) now
  | error e =>
    refine ⟨h, List.forall_mem_singleton.mpr ⟨?_, List.forall_mem_nil _⟩⟩
    exact ⟨hm.partition, hm.timestamp, hheaders, Nat.one_lt_two_pow (by decide), hm.offset,
      hm.offset⟩

theorem yields_act (h : a.Fits) {c : Call} (hc : c.Fits) : Yields (a.act c) := by
  cases c with
  | absorb m now => exact yields_absorb h hc now
  | takeExpired now =>
    rw [act, takeExpired, List.partition_eq_filter_filter]
    exact ⟨h.sublist fun x hx => (List.mem_filter.mp hx).1,
      h.sealAll fun x hx => (List.mem_filter.mp hx).1⟩
  | flushAll => exact ⟨h.sublist (List.forall_mem_nil _), h.sealAll fun x hx => hx⟩
  | discard => exact ⟨h.sublist (List.forall_mem_nil _), List.forall_mem_nil _⟩

/-- Whatever calls an accumulator of JSON records gets, what it emits fits. -/
theorem fits_of_mem_outputs {s : BatchSettings} (hs : s.maxRecords < 2 ^ 64) {cs : List Call}
    (hcs : ∀ c ∈ cs, c.Fits) : ∀ u ∈ ((empty s).outputs cs).flatten, u.Fits := by
  suffices hall : ∀ a : Accumulator, a.Fits → ∀ u ∈ (a.outputs cs).flatten, u.Fits from
    hall _ (fits_empty hs)
  intro a ha
  induction cs generalizing a with
  | nil => exact List.forall_mem_nil _
  | cons c cs ih =>
    obtain ⟨hc, hcs⟩ := List.forall_mem_cons.mp hcs
    have hone := yields_act ha hc
    rw [outputs, List.flatten_cons]
    exact List.forall_mem_append.mpr ⟨hone.emitted, ih hcs _ hone.kept⟩

end Accumulator
end RecordIntake
