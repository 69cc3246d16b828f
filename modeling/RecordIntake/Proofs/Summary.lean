import Mathlib.Data.Int.Order.Basic
import Mathlib.Order.Bounds.Basic
import RecordIntake.Proofs.Ledger

/-!
What a ledger knows after messages in any order.  It keeps two offsets of each partition, and a
message moves at most one of them; still these are the least offset of the messages so far and the
one behind the greatest.  Both are told by the offsets alone, whatever order they came in, and so is
all that a ledger holds.  A message at the greatest offset there is has none behind it, and is the
only one that cannot be noted.
-/
namespace RecordIntake

/-- The offsets of one partition among those of all. -/
def offsetsOf (p : Partition) (offsets : List (Partition × Int)) : Set Int := {n | (p, n) ∈ offsets}

section

variable {p q : Partition} {n : Int} {offsets offsets' : List (Partition × Int)}

theorem offsetsOf_nil (p : Partition) : offsetsOf p [] = ∅ :=
  Set.eq_empty_iff_forall_notMem.mpr fun _ h => nomatch h

theorem offsetsOf_concat_self (p : Partition) (n : Int) (offsets : List (Partition × Int)) :
    offsetsOf p (offsets ++ [(p, n)]) = insert n (offsetsOf p offsets) := by
  ext m
  simp [offsetsOf, or_comm]

theorem offsetsOf_concat_other (h : p ≠ q) (n : Int) (offsets : List (Partition × Int)) :
    offsetsOf p (offsets ++ [(q, n)]) = offsetsOf p offsets := by
  ext m
  simp [offsetsOf, h]

theorem offsetsOf_perm (h : offsets.Perm offsets') (p : Partition) :
    offsetsOf p offsets = offsetsOf p offsets' :=
  Set.ext fun _ => h.mem_iff

end

/-! ## One partition -/

namespace OffsetRange

/-- The range begins at the least of some offsets and ends behind the greatest. -/
structure Encloses (r : OffsetRange) (ns : Set Int) : Prop where
  first : IsLeast ns r.first
  next : IsGreatest ns (r.next - 1)

/-- What is kept of a partition tells the offsets that were noted of it: there is a range if
there are any, and it encloses them. -/
def Tells : Option OffsetRange → Set Int → Prop
  | none, ns => ns = ∅
  | some r, ns => r.Encloses ns

namespace Encloses

variable {r r' : OffsetRange} {ns : Set Int}

theorem unique (h : r.Encloses ns) (h' : r'.Encloses ns) : r = r' := by
  obtain ⟨first, next⟩ := r
  obtain ⟨first', next'⟩ := r'
  have hfirst : first = first' := h.first.unique h'.first
  have hnext : next - 1 = next' - 1 := h.next.unique h'.next
  obtain rfl : next = next' := by omega
  rw [hfirst]

theorem first_lt_next (h : r.Encloses ns) : r.first < r.next := by
  have hle := h.next.2 h.first.1
  omega

/-- A range whose offsets can all be noted does not end behind the greatest offset there is. -/
theorem next_le (h : r.Encloses ns) (hns : ∀ n ∈ ns, n < Ledger.greatestOffset) :
    r.next ≤ Ledger.greatestOffset := by
  have hlt := hns _ h.next.1
  omega

/-- An offset within the range or before it moves the beginning, one behind it moves the end. -/
theorem extend (h : r.Encloses ns) {n : Int} (hn : n < Ledger.greatestOffset) :
    ∃ r', Ledger.extend (some r) n = some r' ∧ r'.Encloses (insert n ns) := by
  have hfirst := h.first.insert n
  have hnext := h.next.insert n
  unfold Ledger.extend
  dsimp only
  by_cases hwithin : n < r.next
  · rw [if_pos hwithin]
    refine ⟨_, rfl, ?_, ?_⟩
    · rw [min_comm]
      exact hfirst
    · rwa [max_eq_right (by omega)] at hnext
  · have hle := h.first_lt_next
    rw [if_neg hwithin, if_pos hn]
    refine ⟨_, rfl, ?_, ?_⟩
    · rwa [min_eq_right (by omega)] at hfirst
    · rw [max_eq_left (by omega)] at hnext
      show IsGreatest _ (n + 1 - 1)
      rwa [Int.add_sub_cancel]

end Encloses

section

variable {range range' : Option OffsetRange} {ns : Set Int}

theorem Tells.unique (h : Tells range ns) (h' : Tells range' ns) : range = range' := by
  cases range with
  | none =>
    cases range' with
    | none => rfl
    | some r' =>
      have hmem := Encloses.first h' |>.1
      rw [show ns = ∅ from h] at hmem
      exact absurd hmem (Set.notMem_empty _)
  | some r =>
    cases range' with
    | none =>
      have hmem := Encloses.first h |>.1
      rw [show ns = ∅ from h'] at hmem
      exact absurd hmem (Set.notMem_empty _)
    | some r' => rw [Encloses.unique h h']

theorem Tells.extend (h : Tells range ns) {n : Int} (hn : n < Ledger.greatestOffset) :
    ∃ r, Ledger.extend range n = some r ∧ r.Encloses (insert n ns) := by
  cases range with
  | some r => exact Encloses.extend h hn
  | none =>
    have hns : insert n ns = {n} := by
      rw [show ns = ∅ from h, insert_empty_eq]
    refine ⟨⟨n, n + 1⟩, if_pos hn, ?_, ?_⟩
    · rw [hns]
      exact isLeast_singleton
    · rw [hns, show (n + 1 - 1 : Int) = n from Int.add_sub_cancel n 1]
      exact isGreatest_singleton

/-- There is no offset behind the greatest one. -/
theorem Tells.extend_eq_none (h : Tells range ns) (hns : ∀ m ∈ ns, m < Ledger.greatestOffset)
    {n : Int} (hn : Ledger.greatestOffset ≤ n) : Ledger.extend range n = none := by
  cases range with
  | none => exact if_neg (by omega)
  | some r =>
    have hnext := Encloses.next_le h hns
    unfold Ledger.extend
    dsimp only
    rw [if_neg (by omega), if_neg (by omega)]

theorem Tells.eq_none_iff (h : Tells range ns) : range = none ↔ ns = ∅ := by
  constructor
  · rintro rfl
    exact h
  · rintro rfl
    exact h.unique (show Tells none ∅ from rfl)

theorem Tells.first_iff (h : Tells range ns) (n : Int) :
    range.map (·.first) = some n ↔ IsLeast ns n := by
  cases range with
  | none =>
    rw [show ns = ∅ from h]
    exact ⟨fun h => (nomatch h), fun h => absurd h.1 (Set.notMem_empty n)⟩
  | some r =>
    have hfirst := Encloses.first h
    rw [Option.map_some, Option.some.injEq]
    exact ⟨fun heq => heq ▸ hfirst, fun hleast => hfirst.unique hleast⟩

theorem Tells.next_iff (h : Tells range ns) (n : Int) :
    range.map (·.next) = some n ↔ IsGreatest ns (n - 1) := by
  cases range with
  | none =>
    rw [show ns = ∅ from h]
    exact ⟨fun h => (nomatch h), fun h => absurd h.1 (Set.notMem_empty _)⟩
  | some r =>
    have hnext := Encloses.next h
    rw [Option.map_some, Option.some.injEq]
    refine ⟨fun heq => heq ▸ hnext, fun hgreatest => ?_⟩
    have heq := hnext.unique hgreatest
    omega

end

end OffsetRange

/-! ## The least offsets -/

theorem foldl_leastOffset_some (least : Int) (ns : List Int) :
    ∃ n, ns.foldl leastOffset (some least) = some n ∧ IsLeast (insert least {m | m ∈ ns}) n := by
  induction ns generalizing least with
  | nil => exact ⟨least, rfl, by simp [IsLeast]⟩
  | cons m ns ih =>
    obtain ⟨n, hfold, hleast⟩ := ih (min least m)
    refine ⟨n, hfold, ?_, ?_⟩
    · obtain heq | hmem := hleast.1
      · obtain hle | hle := le_total least m
        · exact .inl (heq.trans (min_eq_left hle))
        · exact .inr (List.mem_cons.mpr (.inl (heq.trans (min_eq_right hle))))
      · exact .inr (List.mem_cons_of_mem m hmem)
    · have hmin := hleast.2 (Set.mem_insert _ _)
      intro k hk
      obtain rfl | hk := hk
      · exact hmin.trans (min_le_left k m)
      · obtain rfl | hk := List.mem_cons.mp hk
        · exact hmin.trans (min_le_right least k)
        · exact hleast.2 (Set.mem_insert_of_mem _ hk)

/-- The least offset of each partition, if there is one. -/
theorem find?_firstOffsets_iff {offsets : List (Partition × Int)} {p : Partition} {n : Int} :
    (firstOffsets offsets).find? p = some n ↔ IsLeast (offsetsOf p offsets) n := by
  have hns : offsetsOf p offsets = {m | m ∈ (offsets.filter fun e => e.1 = p).map (·.2)} := by
    ext m
    simp [offsetsOf]
  rw [find?_firstOffsets, hns]
  cases (offsets.filter fun e => e.1 = p).map (·.2) with
  | nil => exact ⟨fun h => (nomatch h), fun h => (nomatch h.1)⟩
  | cons m ns =>
    obtain ⟨least, hfold, hleast⟩ := foldl_leastOffset_some m ns
    have hall : {k | k ∈ m :: ns} = insert m {k | k ∈ ns} := Set.ext fun k => List.mem_cons
    rw [List.foldl_cons, show leastOffset none m = some m from rfl, hfold, hall, Option.some.injEq]
    exact ⟨fun heq => heq ▸ hleast, fun h => hleast.unique h⟩

/-! ## All partitions -/

namespace Ledger

/-- Notes offsets one after the other; `none` as soon as one overflows. -/
def recordAll? (l : Ledger) : List (Partition × Int) → Option Ledger
  | [] => some l
  | (p, n) :: rest => (l.record? p n).bind fun l => l.recordAll? rest

/-- The ledger is told by the offsets that were noted, whatever their order. -/
structure SumsUp (l : Ledger) (offsets : List (Partition × Int)) : Prop where
  sorted : l.ranges.Sorted
  tells : ∀ p, OffsetRange.Tells (l.ranges.find? p) (offsetsOf p offsets)
  count : l.count = offsets.length

variable {l l' : Ledger} {p : Partition} {offsets offsets' : List (Partition × Int)}

theorem sumsUp_empty : empty.SumsUp [] where
  sorted := SortedMap.sorted_nil
  tells p := offsetsOf_nil p
  count := rfl

namespace SumsUp

theorem unique (h : l.SumsUp offsets) (h' : l'.SumsUp offsets') (hperm : offsets.Perm offsets') :
    l = l' := by
  have hranges : l.ranges = l'.ranges := by
    apply SortedMap.ext h.sorted h'.sorted
    intro p
    exact (h.tells p).unique (offsetsOf_perm hperm p ▸ h'.tells p)
  have hcount : l.count = l'.count := by
    rw [h.count, h'.count, hperm.length_eq]
  obtain ⟨ranges, count⟩ := l
  obtain ⟨ranges', count'⟩ := l'
  simp only at hranges hcount
  rw [hranges, hcount]

theorem record (h : l.SumsUp offsets) (p : Partition) {n : Int} (hn : n < greatestOffset) :
    ∃ l', l.record? p n = some l' ∧ l'.SumsUp (offsets ++ [(p, n)]) := by
  obtain ⟨r, hr, hencloses⟩ := (h.tells p).extend hn
  refine ⟨⟨l.ranges.insert p r, l.count + 1⟩, ?_, ?_, ?_, ?_⟩
  · rw [record?, hr, Option.map_some]
  · exact SortedMap.sorted_insert h.sorted p r
  · intro q
    rw [SortedMap.find?_insert]
    by_cases hq : q = p
    · rw [if_pos hq, hq, offsetsOf_concat_self]
      exact hencloses
    · rw [if_neg hq, offsetsOf_concat_other hq]
      exact h.tells q
  · show l.count + 1 = _
    rw [h.count, List.length_append, List.length_singleton]

theorem record_eq_none (h : l.SumsUp offsets) (hoffsets : ∀ e ∈ offsets, e.2 < greatestOffset)
    (p : Partition) {n : Int} (hn : greatestOffset ≤ n) : l.record? p n = none := by
  have hnone := (h.tells p).extend_eq_none (fun m hm => hoffsets (p, m) hm) hn
  rw [record?, hnone, Option.map_none]

/-- Offsets are noted to the last one if each has another behind it, and only then. -/
theorem recordAll? (h : l.SumsUp offsets) (hoffsets : ∀ e ∈ offsets, e.2 < greatestOffset)
    (more : List (Partition × Int)) :
    (∀ e ∈ more, e.2 < greatestOffset) ∧
      (∃ l', l.recordAll? more = some l' ∧ l'.SumsUp (offsets ++ more)) ∨
    (∃ e ∈ more, greatestOffset ≤ e.2) ∧ l.recordAll? more = none := by
  induction more generalizing l offsets with
  | nil =>
    refine .inl ⟨List.forall_mem_nil _, l, rfl, ?_⟩
    rwa [List.append_nil]
  | cons e more ih =>
    obtain ⟨p, n⟩ := e
    by_cases hn : n < greatestOffset
    · obtain ⟨l₁, hrecord, h₁⟩ := h.record p hn
      have hoffsets₁ : ∀ e ∈ offsets ++ [(p, n)], e.2 < greatestOffset :=
        List.forall_mem_append.mpr ⟨hoffsets, List.forall_mem_singleton.mpr hn⟩
      have hrest : l.recordAll? ((p, n) :: more) = l₁.recordAll? more := by
        rw [Ledger.recordAll?, hrecord, Option.bind_some]
      rw [hrest]
      obtain ⟨hmore, l', hl', hsums⟩ | ⟨⟨e, he, hle⟩, hnone⟩ := ih h₁ hoffsets₁
      · rw [List.append_assoc, List.singleton_append] at hsums
        exact .inl ⟨List.forall_mem_cons.mpr ⟨hn, hmore⟩, l', hl', hsums⟩
      · exact .inr ⟨⟨e, List.mem_cons_of_mem _ he, hle⟩, hnone⟩
    · have hle : greatestOffset ≤ n := by omega
      refine .inr ⟨⟨(p, n), List.mem_cons_self, hle⟩, ?_⟩
      rw [Ledger.recordAll?, h.record_eq_none hoffsets p hle, Option.bind_none]

theorem committable_iff (h : l.SumsUp offsets) (p : Partition) (n : Int) :
    l.committable.find? p = some n ↔ IsGreatest (offsetsOf p offsets) (n - 1) := by
  rw [find?_committable]
  exact (h.tells p).next_iff n

theorem rewindPositions_iff (h : l.SumsUp offsets) (p : Partition) (n : Int) :
    l.rewindPositions.find? p = some n ↔ IsLeast (offsetsOf p offsets) n := by
  rw [find?_rewindPositions]
  exact (h.tells p).first_iff n

theorem rewindPositions_eq (h : l.SumsUp offsets) : l.rewindPositions = firstOffsets offsets := by
  apply SortedMap.ext (sorted_rewindPositions h.sorted) (sorted_firstOffsets offsets)
  intro p
  apply Option.ext
  intro n
  rw [h.rewindPositions_iff, find?_firstOffsets_iff]

/-- The partitions that have a range are those of which something was noted. -/
theorem mem_keys_iff (h : l.SumsUp offsets) (p : Partition) :
    p ∈ l.ranges.keys ↔ ∃ n, (p, n) ∈ offsets := by
  have hfound : p ∈ l.ranges.keys ↔ l.ranges.find? p ≠ none := by
    constructor
    · intro hp hnone
      obtain ⟨⟨q, r⟩, hr, rfl⟩ := List.mem_map.mp hp
      rw [SortedMap.find?_of_mem h.sorted hr] at hnone
      exact nomatch hnone
    · intro hsome
      obtain ⟨r, hr⟩ := Option.ne_none_iff_exists'.mp hsome
      exact List.mem_map.mpr ⟨(p, r), SortedMap.mem_of_find? hr, rfl⟩
  rw [hfound, ne_eq, (h.tells p).eq_none_iff, ← ne_eq, ← Set.nonempty_iff_ne_empty]
  rfl

theorem isEmpty_iff (h : l.SumsUp offsets) : l.isEmpty = true ↔ l.count = 0 := by
  have hkeys : l.ranges = [] ↔ offsets = [] := by
    constructor
    · intro hnone
      apply List.eq_nil_iff_forall_not_mem.mpr
      intro e he
      have hkey := (h.mem_keys_iff e.1).mpr ⟨e.2, he⟩
      rw [hnone] at hkey
      exact nomatch hkey
    · intro hnone
      apply List.eq_nil_iff_forall_not_mem.mpr
      intro e he
      obtain ⟨n, hn⟩ := (h.mem_keys_iff e.1).mp (List.mem_map.mpr ⟨e, he, rfl⟩)
      rw [hnone] at hn
      exact nomatch hn
  rw [isEmpty, List.isEmpty_iff, hkeys, h.count, List.length_eq_zero_iff]

theorem first_lt_next (h : l.SumsUp offsets) {first next : Int}
    (hfirst : l.rewindPositions.find? p = some first) (hnext : l.committable.find? p = some next) :
    first < next := by
  have hmem := ((h.rewindPositions_iff p first).mp hfirst).1
  have hle := ((h.committable_iff p next).mp hnext).2 hmem
  omega

end SumsUp

theorem keys_committable (l : Ledger) : l.committable.keys = l.ranges.keys := by
  rw [committable, SortedMap.keys, SortedMap.mapValues, List.map_map]
  rfl

theorem keys_rewindPositions (l : Ledger) : l.rewindPositions.keys = l.ranges.keys := by
  rw [rewindPositions, SortedMap.keys, SortedMap.mapValues, List.map_map]
  rfl

/-- What a ledger says of the offsets that were noted in it.  They can all be noted if and only
if none of them is the greatest offset there is, and that one cannot be noted at any time.  Of
each partition that was noted, and of no other, the next offset to commit is the one behind the
greatest, and the position to rewind to is the least; the latter are the first offsets of the
messages.  All messages are counted, and the order in which they were noted has no influence. -/
theorem recorded_offsets_summed_up (offsets : List (Partition × Int)) :
    ((∃ l, empty.recordAll? offsets = some l) ↔ ∀ e ∈ offsets, e.2 < greatestOffset) ∧
    ∀ l, empty.recordAll? offsets = some l →
      (∀ p n, l.committable.find? p = some n ↔ IsGreatest (offsetsOf p offsets) (n - 1)) ∧
      (∀ p n, l.rewindPositions.find? p = some n ↔ IsLeast (offsetsOf p offsets) n) ∧
      (∀ p, p ∈ l.committable.keys ↔ ∃ n, (p, n) ∈ offsets) ∧
      l.rewindPositions.keys = l.committable.keys ∧
      l.count = offsets.length ∧
      (l.isEmpty = true ↔ l.count = 0) ∧
      (∀ offsets', offsets.Perm offsets' → empty.recordAll? offsets' = some l) ∧
      l.rewindPositions = firstOffsets offsets ∧
      (∀ p first next, l.rewindPositions.find? p = some first →
        l.committable.find? p = some next → first < next) ∧
      ∀ p, l.record? p greatestOffset = none := by
  obtain ⟨hless, l, hl, h⟩ | ⟨⟨e, he, hle⟩, hnone⟩ :=
    sumsUp_empty.recordAll? (List.forall_mem_nil _) offsets
  · refine ⟨⟨fun _ => hless, fun _ => ⟨l, hl⟩⟩, ?_⟩
    intro l₁ hl₁
    obtain rfl : l = l₁ := Option.some.inj (hl.symm.trans hl₁)
    refine ⟨h.committable_iff, h.rewindPositions_iff, ?_, ?_, h.count, h.isEmpty_iff, ?_,
      h.rewindPositions_eq, fun p first next => h.first_lt_next, ?_⟩
    · intro p
      rw [keys_committable]
      exact h.mem_keys_iff p
    · rw [keys_rewindPositions, keys_committable]
    · intro offsets' hperm
      obtain ⟨-, l', hl', h'⟩ | ⟨⟨e, he, hle⟩, -⟩ :=
        sumsUp_empty.recordAll? (List.forall_mem_nil _) offsets'
      · rw [hl', h.unique h' hperm]
      · exact absurd (hless e (hperm.mem_iff.mpr he)) (by omega)
    · exact fun p => h.record_eq_none hless p (Int.le_refl _)
  · refine ⟨⟨fun ⟨l, hl⟩ => ?_, fun hless => absurd (hless e he) (by omega)⟩, fun l hl => ?_⟩
    · rw [hnone] at hl
      exact nomatch hl
    · rw [hnone] at hl
      exact nomatch hl

/-- Offsets of two partitions, backwards and repeated. -/
def zigzag : List (Partition × Int) :=
  [(⟨"t", 0⟩, 10), (⟨"t", 1⟩, 3), (⟨"t", 0⟩, 12), (⟨"t", 0⟩, 8), (⟨"t", 0⟩, 12)]

theorem recorded_offsets_summed_up_zigzag :
    ∃ l, empty.recordAll? zigzag = some l ∧
      l.committable = [(⟨"t", 0⟩, 13), (⟨"t", 1⟩, 4)] ∧
      l.rewindPositions = [(⟨"t", 0⟩, 8), (⟨"t", 1⟩, 3)] ∧
      empty.recordAll? zigzag.reverse = some l ∧
      l.record? ⟨"t", 0⟩ greatestOffset = none := by
  obtain ⟨l, hl⟩ := (recorded_offsets_summed_up zigzag).1.mpr (by decide)
  obtain ⟨-, -, -, -, -, -, hperm, hfirst, -, hgreatest⟩ :=
    (recorded_offsets_summed_up zigzag).2 l hl
  have hcommittable : (empty.recordAll? zigzag).map (·.committable) =
      some [(⟨"t", 0⟩, 13), (⟨"t", 1⟩, 4)] := by decide +kernel
  rw [hl, Option.map_some, Option.some.injEq] at hcommittable
  refine ⟨l, hl, hcommittable, ?_, hperm _ (List.reverse_perm _).symm, hgreatest _⟩
  rw [hfirst]
  decide +kernel

end Ledger
end RecordIntake
