import RecordIntake.Cluster
import RecordIntake.Offsets.Ledger
import RecordIntake.Proofs.SortedMap

/-!
What a poll reads.  From each log it takes a run of consecutive messages, the first of them at the
position of the connection, and it moves the position behind the last of them.
-/
namespace RecordIntake

/-- Consecutive offsets from one on. -/
def offsetsFrom (first : Int) : Nat → List Int
  | 0 => []
  | n + 1 => first :: offsetsFrom (first + 1) n

theorem offsetsFrom_append (first : Int) (m n : Nat) :
    offsetsFrom first (m + n) = offsetsFrom first m ++ offsetsFrom (first + m) n := by
  induction m generalizing first with
  | zero => simp [offsetsFrom]
  | succ m ih =>
    have hm : first + 1 + (m : Int) = first + ((m + 1 : Nat) : Int) := by omega
    rw [Nat.add_right_comm]
    simp only [offsetsFrom, ih, List.cons_append, hm]

/-- The messages of one partition. -/
def Message.onlyOf (p : Partition) (ms : List Message) : List Message :=
  ms.filter fun m => m.partition = p

theorem Message.onlyOf_append (p : Partition) (ms ns : List Message) :
    onlyOf p (ms ++ ns) = onlyOf p ms ++ onlyOf p ns := List.filter_append ..

theorem Message.onlyOf_eq_self {p : Partition} {ms : List Message}
    (h : ∀ m ∈ ms, m.partition = p) : onlyOf p ms = ms :=
  List.filter_eq_self.mpr fun m hm => decide_eq_true (h m hm)

theorem Message.onlyOf_eq_nil {p q : Partition} {ms : List Message}
    (h : ∀ m ∈ ms, m.partition = q) (hpq : p ≠ q) : onlyOf p ms = [] :=
  List.filter_eq_nil_iff.mpr fun m hm => by simpa [h m hm] using hpq.symm

theorem getElem?_offsetsFrom (first : Int) (n k : Nat) :
    (offsetsFrom first n)[k]? = if k < n then some (first + k) else none := by
  induction n generalizing first k with
  | zero => simp [offsetsFrom]
  | succ n ih =>
    cases k with
    | zero => simp [offsetsFrom]
    | succ k =>
      have hk : first + 1 + (k : Int) = first + ((k + 1 : Nat) : Int) := by omega
      simp only [offsetsFrom, List.getElem?_cons_succ, ih, hk, Nat.add_lt_add_iff_right]

namespace Cluster

/-! ## Reading one log -/

theorem getElem?_readFrom (log : Array Message) (n room k : Nat) :
    (readFrom log n room)[k]? = if k < room then log[n + k]? else none := by
  show (log.extract n (n + room)).toList[k]? = _
  rw [Array.getElem?_toList, Array.getElem?_extract]
  by_cases hk : k < room
  · rw [if_pos hk]
    by_cases hs : n + k < log.size
    · rw [if_pos (by omega)]
    · rw [if_neg (by omega)]
      exact (Array.getElem?_eq_none (by omega)).symm
  · rw [if_neg hk, if_neg (by omega)]

/-- A negative position is behind no message. -/
theorem readFrom_of_neg {position : Int} (h : position < 0) (log : Array Message) (room : Nat) :
    readFrom log position room = [] := by
  cases position with
  | ofNat n => exact absurd h (Int.not_lt.mpr (Int.natCast_nonneg n))
  | negSucc n => rfl

theorem mem_readFrom {log : Array Message} {position : Int} {room : Nat} {m : Message}
    (h : m ∈ readFrom log position room) : ∃ i : Nat, position ≤ i ∧ log[i]? = some m := by
  rcases Int.lt_or_le position 0 with hn | hn
  · rw [readFrom_of_neg hn] at h
    simp at h
  · obtain ⟨n, rfl⟩ := Int.eq_ofNat_of_zero_le hn
    obtain ⟨k, hk⟩ := List.mem_iff_getElem?.mp h
    rw [getElem?_readFrom] at hk
    split at hk
    · exact ⟨n + k, by omega, hk⟩
    · simp at hk

/-- Nothing between the first and the last message is left out. -/
theorem mem_readFrom_of_lt {log : Array Message} {position : Int} {room i : Nat} {m : Message}
    (hm : log[i]? = some m) (hi : position ≤ i)
    (hlt : i < position + (readFrom log position room).length) :
    m ∈ readFrom log position room := by
  rcases Int.lt_or_le position 0 with hn | hn
  · rw [readFrom_of_neg hn] at hlt
    simp at hlt
    omega
  · obtain ⟨n, rfl⟩ := Int.eq_ofNat_of_zero_le hn
    have hk : i - n < (readFrom log n room).length := by omega
    have hget := getElem?_readFrom log n room (i - n)
    rw [List.getElem?_eq_getElem hk] at hget
    split at hget
    · rw [show n + (i - n) = i by omega, hm] at hget
      rw [← Option.some.inj hget]
      exact List.getElem_mem hk
    · simp at hget

theorem readFrom_le_size {log : Array Message} {position : Int} {room : Nat}
    (h : readFrom log position room ≠ []) :
    position + (readFrom log position room).length ≤ log.size := by
  have hpos := List.length_pos_iff.mpr h
  rcases Int.lt_or_le position 0 with hn | hn
  · exact absurd (readFrom_of_neg hn log room) h
  · obtain ⟨n, rfl⟩ := Int.eq_ofNat_of_zero_le hn
    have hlen : (readFrom log n room).length = min (n + room) log.size - n := by
      show (log.extract n (n + room)).toList.length = _
      rw [Array.length_toList, Array.size_extract]
    omega

/-! ## Logs -/

/-- Each message of a log stands at its offset. -/
structure Ordered (c : Cluster) : Prop where
  sorted : c.logs.Sorted
  placed : ∀ p (i : Nat) m, (c.log p)[i]? = some m → m.partition = p ∧ m.offset = i

/-- Each message of a log stands at its offset, which an offset can state. -/
structure Consistent (c : Cluster) : Prop extends Ordered c where
  room : ∀ p, ((c.log p).size : Int) ≤ Ledger.greatestOffset

theorem log_of_find? {c : Cluster} {p : Partition} {log : Array Message}
    (h : c.logs.find? p = some log) : c.log p = log := by
  simp [Cluster.log, h]

theorem log_produce (c : Cluster) (m : Message) (p : Partition) :
    (c.produce m).1.log p =
      if p = m.partition then (c.log p).push { m with offset := (c.log p).size } else c.log p := by
  show ((SortedMap.insert m.partition _ c.logs).find? p).getD #[] = _
  rw [SortedMap.find?_insert]
  by_cases hp : p = m.partition
  · rw [if_pos hp, if_pos hp, hp]
    rfl
  · rw [if_neg hp, if_neg hp]
    rfl

theorem Ordered.produce {c : Cluster} (h : c.Ordered) (m : Message) : (c.produce m).1.Ordered := by
  refine ⟨SortedMap.sorted_insert h.sorted .., fun p i m' hm' => ?_⟩
  rw [log_produce] at hm'
  by_cases hp : p = m.partition
  · rw [if_pos hp, Array.getElem?_push] at hm'
    split at hm'
    · rename_i hi
      cases hm'
      exact ⟨hp.symm, congrArg Nat.cast hi.symm⟩
    · exact h.placed p i m' hm'
  · rw [if_neg hp] at hm'
    exact h.placed p i m' hm'

theorem log_produce_append (c : Cluster) (m : Message) (p : Partition) :
    ∃ more, (c.produce m).1.log p = c.log p ++ more := by
  rw [log_produce]
  by_cases hp : p = m.partition
  · exact ⟨#[{ m with offset := (c.log p).size }], by rw [if_pos hp]; rfl⟩
  · exact ⟨#[], by simp [if_neg hp]⟩

theorem Ordered.produceAll {c : Cluster} (h : c.Ordered) (ms : List Message) :
    (c.produceAll ms).1.Ordered := by
  induction ms generalizing c with
  | nil => exact h
  | cons m ms ih => exact ih (h.produce m)

theorem log_produceAll_append (c : Cluster) (ms : List Message) (p : Partition) :
    ∃ more, (c.produceAll ms).1.log p = c.log p ++ more := by
  induction ms generalizing c with
  | nil => exact ⟨#[], by simp [produceAll]⟩
  | cons m ms ih =>
    obtain ⟨more, h⟩ := log_produce_append c m p
    obtain ⟨more', h'⟩ := ih (c.produce m).1
    exact ⟨more ++ more', by rw [← Array.append_assoc, ← h]; exact h'⟩

theorem committed_produceAll (c : Cluster) (ms : List Message) :
    (c.produceAll ms).1.committed = c.committed := by
  induction ms generalizing c with
  | nil => rfl
  | cons m ms ih => exact ih (c.produce m).1

theorem readFrom_offsets {log : Array Message}
    (hlog : ∀ (i : Nat) m, log[i]? = some m → m.offset = i) (position : Int) (room : Nat) :
    (readFrom log position room).map (·.offset) =
      offsetsFrom position (readFrom log position room).length := by
  rcases Int.lt_or_le position 0 with hn | hn
  · rw [readFrom_of_neg hn]
    rfl
  · obtain ⟨n, rfl⟩ := Int.eq_ofNat_of_zero_le hn
    refine List.ext_getElem? fun k => ?_
    rw [List.getElem?_map, getElem?_offsetsFrom]
    by_cases hk : k < (readFrom log n room).length
    · have hget := getElem?_readFrom log n room k
      rw [List.getElem?_eq_getElem hk] at hget ⊢
      split at hget
      · rw [if_pos hk, Option.map_some, hlog _ _ hget.symm]
        simp
      · simp at hget
    · rw [if_neg hk, List.getElem?_eq_none (by omega)]
      rfl

/-! ## Reading all logs -/

/-- What is read of the logs concerns each partition by itself: either its log is read from the
position that the partition has, or starts with, or the partition is left alone. -/
theorem fetchFrom_reads (committed : Offsets) {s : Subscription} {p : Partition}
    {logs : List (Partition × Array Message)} (hsorted : SortedMap.Sorted logs)
    (hplaced : ∀ q log, (q, log) ∈ logs → ∀ (i : Nat) m, log[i]? = some m → m.partition = q)
    (room : Nat) (positions : Offsets) :
    (∃ log n, SortedMap.find? p logs = some log ∧ s.selects p = true ∧
      Message.onlyOf p (fetchFrom committed s logs room positions).1 =
        readFrom log ((positions.find? p).getD ((committed.find? p).getD 0)) n ∧
      (fetchFrom committed s logs room positions).2.find? p =
        some ((positions.find? p).getD ((committed.find? p).getD 0) +
          (readFrom log ((positions.find? p).getD ((committed.find? p).getD 0)) n).length)) ∨
    (Message.onlyOf p (fetchFrom committed s logs room positions).1 = [] ∧
      (fetchFrom committed s logs room positions).2.find? p = positions.find? p) := by
  induction logs generalizing room positions with
  | nil => exact .inr ⟨rfl, rfl⟩
  | cons e logs ih =>
    obtain ⟨q, log⟩ := e
    obtain ⟨hlt, hsorted⟩ := List.pairwise_cons.mp hsorted
    have hplaced' : ∀ q' log', (q', log') ∈ logs → ∀ (i : Nat) m, log'[i]? = some m →
        m.partition = q' :=
      fun q' log' h => hplaced q' log' (List.mem_cons_of_mem _ h)
    by_cases hq : s.selects q = true
    · simp only [fetchFrom, hq, if_true]
      generalize hstart : (positions.find? q).getD ((committed.find? q).getD 0) = start
      have hread : ∀ m ∈ readFrom log start room, m.partition = q := by
        intro m hm
        obtain ⟨i, _, hi⟩ := mem_readFrom hm
        exact hplaced q log List.mem_cons_self i m hi
      have ih := ih hsorted hplaced' (room - (readFrom log start room).length)
        (positions.insert q (start + (readFrom log start room).length))
      by_cases hpq : p = q
      · subst hpq
        rw [SortedMap.find?_eq_none_of_lt (k := p) (m := logs) hlt] at ih
        refine .inl ⟨log, room, by simp [SortedMap.find?], hq, ?_⟩
        obtain ⟨_, _, h, _⟩ | ⟨hnone, hpos⟩ := ih
        · simp at h
        · rw [Message.onlyOf_append, Message.onlyOf_eq_self hread, hnone, hpos, hstart,
            SortedMap.find?_insert_self, List.append_nil]
          exact ⟨rfl, rfl⟩
      · rw [SortedMap.find?_insert_of_ne hpq] at ih
        rw [Message.onlyOf_append, Message.onlyOf_eq_nil hread hpq, List.nil_append]
        obtain ⟨log', n, h, hs, hmsgs, hpos⟩ | h := ih
        · refine .inl ⟨log', n, ?_, hs, hmsgs, hpos⟩
          exact SortedMap.find?_of_mem (List.pairwise_cons.mpr ⟨hlt, hsorted⟩)
            (List.mem_cons_of_mem _ (SortedMap.mem_of_find? h))
        · exact .inr h
    · simp only [fetchFrom, hq, if_false, Bool.false_eq_true]
      obtain ⟨log', n, h, hs, hmsgs, hpos⟩ | h := ih hsorted hplaced' room positions
      · refine .inl ⟨log', n, ?_, hs, hmsgs, hpos⟩
        exact SortedMap.find?_of_mem (List.pairwise_cons.mpr ⟨hlt, hsorted⟩)
          (List.mem_cons_of_mem _ (SortedMap.mem_of_find? h))
      · exact .inr h

/-- Where the reading of a partition starts: at its position, or at its committed offset if it is
read for the first time. -/
def readingStart (c : Cluster) (positions : Offsets) (p : Partition) : Int :=
  (positions.find? p).getD ((c.committed.find? p).getD 0)

/-- A run of consecutive messages of a log, with nothing between them left out. -/
structure Reads (log : Array Message) (start : Int) (read : List Message) : Prop where
  offsets : read.map (·.offset) = offsetsFrom start read.length
  sound : ∀ m ∈ read, ∃ i : Nat, log[i]? = some m
  complete : ∀ (i : Nat) m, log[i]? = some m → start ≤ i → i < start + read.length → m ∈ read
  bounded : read ≠ [] → start + read.length ≤ log.size

theorem reads_readFrom {log : Array Message}
    (hlog : ∀ (i : Nat) m, log[i]? = some m → m.offset = i) (start : Int) (room : Nat) :
    Reads log start (readFrom log start room) where
  offsets := readFrom_offsets hlog start room
  sound m hm := by
    obtain ⟨i, _, hi⟩ := mem_readFrom hm
    exact ⟨i, hi⟩
  complete _ _ hm hi hlt := mem_readFrom_of_lt hm hi hlt
  bounded := readFrom_le_size

theorem Reads.nil (log : Array Message) (start : Int) : Reads log start [] where
  offsets := rfl
  sound _ hm := absurd hm List.not_mem_nil
  complete _ _ _ hi hlt := absurd hlt (Int.not_lt.mpr (by simpa using hi))
  bounded h := absurd rfl h

theorem Reads.append {log : Array Message} {start : Int} {xs ys : List Message}
    (h : Reads log start xs) (h' : Reads log (start + xs.length) ys) :
    Reads log start (xs ++ ys) where
  offsets := by
    rw [List.map_append, List.length_append, offsetsFrom_append, h.offsets, h'.offsets]
  sound m hm := (List.mem_append.mp hm).elim (h.sound m) (h'.sound m)
  complete i m hm hi hlt := by
    rw [List.length_append] at hlt
    by_cases hx : (i : Int) < start + xs.length
    · exact List.mem_append_left ys (h.complete i m hm hi hx)
    · exact List.mem_append_right xs (h'.complete i m hm (by omega) (by omega))
  bounded hne := by
    rw [List.length_append]
    by_cases hy : ys = []
    · subst hy
      have := h.bounded (by simpa using hne)
      simpa using this
    · have := h'.bounded hy
      omega

/-- What was read stays where it was read. -/
theorem Reads.grow {log : Array Message} {start : Int} {read : List Message}
    (h : Reads log start read) (more : Array Message) : Reads (log ++ more) start read where
  offsets := h.offsets
  sound m hm := by
    obtain ⟨i, hi⟩ := h.sound m hm
    obtain ⟨hlt, -⟩ := Array.getElem?_eq_some_iff.mp hi
    exact ⟨i, by rw [Array.getElem?_append_left hlt]; exact hi⟩
  complete i m hm hi hlt := by
    have hne : read ≠ [] := by
      rintro rfl
      simp at hlt
      omega
    have := h.bounded hne
    rw [Array.getElem?_append_left (by omega)] at hm
    exact h.complete i m hm hi hlt
  bounded hne := by
    have := h.bounded hne
    rw [Array.size_append]
    omega

/-- A poll reads each partition on its own: it takes a run of messages from where the reading of the
partition starts and moves the position behind it, or it leaves the partition alone. -/
theorem fetch_reads {c : Cluster} (hc : c.Consistent) (s : Subscription) (positions : Offsets)
    (p : Partition) :
    (s.selects p = true ∧
      Reads (c.log p) (c.readingStart positions p) (Message.onlyOf p (c.fetch s positions).1) ∧
      (c.fetch s positions).2.find? p = some (c.readingStart positions p +
        (Message.onlyOf p (c.fetch s positions).1).length)) ∨
    (Message.onlyOf p (c.fetch s positions).1 = [] ∧
      (c.fetch s positions).2.find? p = positions.find? p) := by
  have hplaced : ∀ q log, (q, log) ∈ c.logs → ∀ (i : Nat) m, log[i]? = some m →
      m.partition = q := by
    intro q log h i m hm
    have hlog := log_of_find? (SortedMap.find?_of_mem hc.sorted h)
    exact (hc.placed q i m (hlog ▸ hm)).1
  obtain ⟨log, n, h, hs, hmsgs, hpos⟩ | h :=
    fetchFrom_reads c.committed (s := s) (p := p) hc.sorted hplaced
      c.maxPollRecords positions
  · refine .inl ⟨hs, ?_, ?_⟩
    · show Reads _ _ (Message.onlyOf p (fetchFrom ..).1)
      rw [hmsgs, ← log_of_find? h]
      exact reads_readFrom (fun i m hm => (hc.placed p i m hm).2) _ n
    · show SortedMap.find? p (fetchFrom ..).2 =
        some (_ + ((Message.onlyOf p (fetchFrom ..).1).length : Int))
      rw [hpos, hmsgs]
      rfl
  · exact .inr h

end Cluster
end RecordIntake
