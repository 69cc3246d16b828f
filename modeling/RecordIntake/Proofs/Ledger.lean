import RecordIntake.Proofs.Reading

/-!
What a ledger knows after the messages of a poll.  It keeps the partitions apart, and from each of
them it is given consecutive offsets; so it knows where they begin and where they end.
-/
namespace RecordIntake
namespace Ledger

/-- Notes messages one after the other. -/
def recordAll (l : Ledger) (ms : List Message) : Ledger :=
  ms.foldl (fun l m => l.record m.partition m.offset) l

@[simp] theorem recordAll_nil (l : Ledger) : l.recordAll [] = l := rfl

@[simp] theorem recordAll_cons (l : Ledger) (m : Message) (ms : List Message) :
    l.recordAll (m :: ms) = (l.record m.partition m.offset).recordAll ms := rfl

theorem recordAll_append (l : Ledger) (ms ns : List Message) :
    l.recordAll (ms ++ ns) = (l.recordAll ms).recordAll ns := List.foldl_append

/-- The range after one more offset, or the range that it was if there is no offset behind. -/
def extendOrKeep (range : Option OffsetRange) (offset : Int) : Option OffsetRange :=
  (extend range offset).or range

theorem find?_record (l : Ledger) (q p : Partition) (offset : Int) :
    (l.record q offset).ranges.find? p =
      if p = q then extendOrKeep (l.ranges.find? q) offset else l.ranges.find? p := by
  simp only [record, record?, extendOrKeep]
  cases h : extend (l.ranges.find? q) offset with
  | none =>
    by_cases hp : p = q
    · subst hp; simp
    · simp [hp]
  | some r => simp [SortedMap.find?_insert]

theorem sorted_record {l : Ledger} (h : l.ranges.Sorted) (q : Partition) (offset : Int) :
    (l.record q offset).ranges.Sorted := by
  simp only [record, record?]
  cases extend (l.ranges.find? q) offset with
  | none => exact h
  | some r => exact SortedMap.sorted_insert h q r

theorem sorted_recordAll {l : Ledger} (h : l.ranges.Sorted) (ms : List Message) :
    (l.recordAll ms).ranges.Sorted := by
  induction ms generalizing l with
  | nil => exact h
  | cons m ms ih => exact ih (sorted_record h m.partition m.offset)

theorem find?_recordAll (l : Ledger) (ms : List Message) (p : Partition) :
    (l.recordAll ms).ranges.find? p =
      ((Message.onlyOf p ms).map (·.offset)).foldl extendOrKeep (l.ranges.find? p) := by
  induction ms generalizing l with
  | nil => rfl
  | cons m ms ih =>
    rw [recordAll_cons, ih, find?_record]
    by_cases hp : p = m.partition
    · subst hp
      simp [Message.onlyOf]
    · simp [Message.onlyOf, hp, Ne.symm hp]

theorem find?_committable (l : Ledger) (p : Partition) :
    l.committable.find? p = (l.ranges.find? p).map (·.next) :=
  SortedMap.find?_mapValues ..

theorem sorted_committable {l : Ledger} (h : l.ranges.Sorted) : l.committable.Sorted :=
  SortedMap.sorted_mapValues h

theorem find?_rewindPositions (l : Ledger) (p : Partition) :
    l.rewindPositions.find? p = (l.ranges.find? p).map (·.first) :=
  SortedMap.find?_mapValues ..

theorem sorted_rewindPositions {l : Ledger} (h : l.ranges.Sorted) : l.rewindPositions.Sorted :=
  SortedMap.sorted_mapValues h

/-! ## What is noted stays covered -/

theorem next_le_extendOrKeep (r : OffsetRange) (offset : Int) :
    ∃ r', extendOrKeep (some r) offset = some r' ∧ r.next ≤ r'.next := by
  unfold extendOrKeep extend
  dsimp only
  split
  · exact ⟨_, rfl, Int.le_refl _⟩
  · split
    · exact ⟨_, rfl, by simp only; omega⟩
    · exact ⟨r, rfl, Int.le_refl _⟩

theorem lt_next_extendOrKeep (range : Option OffsetRange) {offset : Int}
    (h : offset < greatestOffset) :
    ∃ r, extendOrKeep range offset = some r ∧ offset < r.next := by
  cases range with
  | none => exact ⟨⟨offset, offset + 1⟩, by simp [extendOrKeep, extend, h], Int.lt_succ offset⟩
  | some r =>
    unfold extendOrKeep extend
    dsimp only
    rw [if_pos h]
    split
    · exact ⟨_, rfl, ‹_›⟩
    · exact ⟨_, rfl, Int.lt_succ offset⟩

theorem next_le_recordAll {l : Ledger} {p : Partition} {r : OffsetRange}
    (h : l.ranges.find? p = some r) (ms : List Message) :
    ∃ r', (l.recordAll ms).ranges.find? p = some r' ∧ r.next ≤ r'.next := by
  induction ms generalizing l r with
  | nil => exact ⟨r, h, Int.le_refl _⟩
  | cons m ms ih =>
    obtain ⟨r₁, hrange, hle⟩ : ∃ r₁, (l.record m.partition m.offset).ranges.find? p = some r₁ ∧
        r.next ≤ r₁.next := by
      rw [find?_record]
      split
      · rename_i heq
        rw [← heq, h]
        exact next_le_extendOrKeep r m.offset
      · exact ⟨r, h, Int.le_refl _⟩
    obtain ⟨r', hrange', hle'⟩ := ih hrange
    exact ⟨r', hrange', Int.le_trans hle hle'⟩

/-- What was noted of a partition reaches beyond each of its messages, except for one at the
greatest offset, which has no other after it. -/
theorem lt_next_recordAll (l : Ledger) {ms : List Message} {m : Message} (hm : m ∈ ms)
    (h : m.offset < greatestOffset) :
    ∃ r, (l.recordAll ms).ranges.find? m.partition = some r ∧ m.offset < r.next := by
  induction ms generalizing l with
  | nil => cases hm
  | cons m' ms ih =>
    obtain rfl | hm := List.mem_cons.mp hm
    · obtain ⟨r, hrange, hlt⟩ := lt_next_extendOrKeep (l.ranges.find? m.partition) h
      have hnoted : (l.record m.partition m.offset).ranges.find? m.partition = some r := by
        rw [find?_record, if_pos rfl, hrange]
      obtain ⟨r', hrange', hle⟩ := next_le_recordAll hnoted ms
      exact ⟨r', hrange', Int.lt_of_lt_of_le hlt hle⟩
    · exact ih (l.record m'.partition m'.offset) hm

/-! ## Consecutive offsets -/

theorem extendOrKeep_next {r : OffsetRange} (h : r.next < greatestOffset) :
    extendOrKeep (some r) r.next = some { r with next := r.next + 1 } := by
  simp [extendOrKeep, extend, h]

theorem foldl_extendOrKeep (r : OffsetRange) (n : Nat) (h : r.next + n ≤ greatestOffset) :
    (offsetsFrom r.next n).foldl extendOrKeep (some r) = some ⟨r.first, r.next + n⟩ := by
  induction n generalizing r with
  | zero => simp [offsetsFrom]
  | succ n ih =>
    rw [offsetsFrom, List.foldl_cons, extendOrKeep_next (by omega)]
    refine (ih ⟨r.first, r.next + 1⟩ (by simp only; omega)).trans ?_
    simp only [Option.some.injEq, OffsetRange.mk.injEq, true_and]
    omega

/-- The range after `n` offsets that follow it, or that begin at `start` if there is none yet. -/
def prolong (range : Option OffsetRange) (start : Int) (n : Nat) : Option OffsetRange :=
  match range with
  | some r => some ⟨r.first, start + n⟩
  | none => if n = 0 then none else some ⟨start, start + n⟩

theorem find?_recordAll_of_offsets {l : Ledger} {ms : List Message} {p : Partition} {start : Int}
    {n : Nat} (hms : (Message.onlyOf p ms).map (·.offset) = offsetsFrom start n)
    (hstart : ∀ r, l.ranges.find? p = some r → r.next = start)
    (hroom : n ≠ 0 → start + n ≤ greatestOffset) :
    (l.recordAll ms).ranges.find? p = prolong (l.ranges.find? p) start n := by
  rw [find?_recordAll, hms]
  cases h : l.ranges.find? p with
  | some r =>
    obtain rfl := hstart r h
    cases n with
    | zero => simp [offsetsFrom, prolong]
    | succ n => exact foldl_extendOrKeep r (n + 1) (hroom (Nat.succ_ne_zero n))
  | none =>
    cases n with
    | zero => rfl
    | succ n =>
      have hroom := hroom (Nat.succ_ne_zero n)
      have hfirst : extendOrKeep none start = some ⟨start, start + 1⟩ := by
        have : start < greatestOffset := by omega
        simp [extendOrKeep, extend, this]
      rw [offsetsFrom, List.foldl_cons, hfirst]
      refine (foldl_extendOrKeep ⟨start, start + 1⟩ n (by simp only; omega)).trans ?_
      simp only [prolong, Nat.succ_ne_zero, if_false, Option.some.injEq, OffsetRange.mk.injEq,
        true_and]
      omega

end Ledger

/-! ## The first offsets of a poll -/

/-- The least offset so far. -/
def leastOffset : Option Int → Int → Option Int
  | none, offset => some offset
  | some least, offset => some (min least offset)

theorem find?_firstOffsets (offsets : List (Partition × Int)) (p : Partition) :
    (firstOffsets offsets).find? p =
      ((offsets.filter fun e => e.1 = p).map (·.2)).foldl leastOffset none := by
  suffices h : ∀ acc : Offsets, (offsets.foldl lowerOffset acc).find? p =
      ((offsets.filter fun e => e.1 = p).map (·.2)).foldl leastOffset (acc.find? p) from h []
  induction offsets with
  | nil => intro acc; rfl
  | cons e offsets ih =>
    intro acc
    obtain ⟨q, n⟩ := e
    rw [List.foldl_cons, ih]
    simp only [lowerOffset, SortedMap.upsert, SortedMap.find?_insert]
    by_cases hp : p = q
    · subst hp
      simp only [if_true, List.filter_cons, decide_true, List.map_cons, List.foldl_cons]
      congr 1
      cases acc.find? p <;> rfl
    · simp [hp, Ne.symm hp]

theorem sorted_firstOffsets (offsets : List (Partition × Int)) :
    (firstOffsets offsets).Sorted := by
  suffices h : ∀ acc : Offsets, acc.Sorted → (offsets.foldl lowerOffset acc).Sorted from
    h [] SortedMap.sorted_nil
  induction offsets with
  | nil => exact fun _ h => h
  | cons e offsets ih =>
    intro acc h
    exact ih _ (SortedMap.sorted_insert h ..)

theorem Message.sorted_firstOffsets (ms : List Message) : (Message.firstOffsets ms).Sorted :=
  RecordIntake.sorted_firstOffsets _

theorem foldl_leastOffset {least start : Int} (h : least ≤ start) (n : Nat) :
    (offsetsFrom start n).foldl leastOffset (some least) = some least := by
  induction n generalizing start with
  | zero => rfl
  | succ n ih =>
    have hmin : leastOffset (some least) start = some least :=
      congrArg some (Int.min_eq_left h)
    rw [offsetsFrom, List.foldl_cons, hmin, ih (by omega)]

theorem find?_firstOffsets_of_offsets {ms : List Message} {p : Partition} {start : Int} {n : Nat}
    (hms : (Message.onlyOf p ms).map (·.offset) = offsetsFrom start n) :
    (Message.firstOffsets ms).find? p = if n = 0 then none else some start := by
  have hfilter : ((ms.map fun m => (m.partition, m.offset)).filter fun e => e.1 = p).map (·.2) =
      (Message.onlyOf p ms).map (·.offset) := by
    rw [List.filter_map, List.map_map]
    rfl
  rw [Message.firstOffsets, find?_firstOffsets, hfilter, hms]
  cases n with
  | zero => rfl
  | succ n =>
    rw [offsetsFrom, List.foldl_cons, if_neg (Nat.succ_ne_zero n)]
    exact foldl_leastOffset (Int.le_add_one (Int.le_refl start)) n

end RecordIntake
