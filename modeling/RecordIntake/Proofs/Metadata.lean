import Mathlib.Data.Int.Order.Basic
import Mathlib.Order.Bounds.Basic
import RecordIntake.Proofs.Cutting

/-!
What the metadata of a batch say about its messages.  The open batch of a group keeps the offset of
its first record, that of its last record and the latest timestamp so far.  The timestamp is right
whatever joins the batch.  The two offsets are the least and the greatest one only because the
records of a batch are some of those that came in, in the same order, so that their offsets do not
descend if those of the messages of each partition do not.  All else is read off the group, on which
the records of a batch agree.
-/
namespace RecordIntake

/-! ## Timestamps -/

/-- The latest of some timestamps, if there is one at all. -/
def IsLatest (ts : Set Int) : Option Int → Prop
  | none => ts = ∅
  | some t => IsGreatest ts t

theorem isLatest_option (t : Option Int) : IsLatest {u | t = some u} t := by
  cases t with
  | none => exact Set.eq_empty_iff_forall_notMem.mpr fun _ h => nomatch h
  | some t => exact ⟨rfl, fun u hu => (Option.some.inj hu).ge⟩

theorem IsLatest.union {ts us : Set Int} {t u : Option Int} (h : IsLatest ts t)
    (h' : IsLatest us u) : IsLatest (ts ∪ us) (latest t u) := by
  cases t with
  | none =>
    have hempty : ts = ∅ := h
    rw [hempty, Set.empty_union]
    exact h'
  | some t =>
    cases u with
    | none =>
      have hempty : us = ∅ := h'
      rw [hempty, Set.union_empty]
      exact h
    | some u => exact IsGreatest.union h h'

/-- The timestamps of the messages that some records are from. -/
def timestampsOf (es : List Entry) : Set Int := {t | ∃ e ∈ es, e.message.timestamp = some t}

theorem timestampsOf_singleton (e : Entry) :
    timestampsOf [e] = {t | e.message.timestamp = some t} := by
  ext t
  simp [timestampsOf]

theorem timestampsOf_append (es es' : List Entry) :
    timestampsOf (es ++ es') = timestampsOf es ∪ timestampsOf es' := by
  ext t
  simp [timestampsOf, or_and_right, exists_or]

/-- The timestamp of an open batch is that of the latest of its messages. -/
def PendingBatch.Dated (b : PendingBatch) (es : List Entry) : Prop :=
  IsLatest (timestampsOf es) b.timestamp

theorem PendingBatch.isKept_dated : PendingBatch.IsKept PendingBatch.Dated where
  start sequence now e := by
    rw [Dated, timestampsOf_singleton]
    exact isLatest_option e.message.timestamp
  push b es e h := by
    rw [Dated, timestampsOf_append, timestampsOf_singleton]
    exact IsLatest.union h (isLatest_option e.message.timestamp)

/-! ## Offsets -/

/-- Of two messages of one partition the second one does not have the smaller offset. -/
def Message.InOrder (m m' : Message) : Prop := m.partition = m'.partition → m.offset ≤ m'.offset

instance (m m' : Message) : Decidable (m.InOrder m') :=
  inferInstanceAs (Decidable (m.partition = m'.partition → m.offset ≤ m'.offset))

/-- The offsets of the messages that some records are from. -/
def offsetsAmong (es : List Entry) : Set Int := {o | ∃ e ∈ es, e.message.offset = o}

section

variable {es : List Entry} {o : Int}

theorem isLeast_first (hes : es.Pairwise fun e e' => e.message.offset ≤ e'.message.offset)
    (ho : es.head?.map (·.message.offset) = some o) : IsLeast (offsetsAmong es) o := by
  cases es with
  | nil => cases ho
  | cons e es =>
    obtain rfl := Option.some.inj ho
    refine ⟨⟨e, List.mem_cons_self, rfl⟩, ?_⟩
    rintro _ ⟨e', he', rfl⟩
    obtain rfl | he' := List.mem_cons.mp he'
    · exact le_refl _
    · exact (List.pairwise_cons.mp hes).1 e' he'

theorem isGreatest_last (hes : es.Pairwise fun e e' => e.message.offset ≤ e'.message.offset)
    (ho : es.getLast?.map (·.message.offset) = some o) : IsGreatest (offsetsAmong es) o := by
  obtain ⟨e, he, rfl⟩ := Option.map_eq_some_iff.mp ho
  obtain ⟨before, rfl⟩ := List.getLast?_eq_some_iff.mp he
  refine ⟨⟨e, List.mem_append_right _ List.mem_cons_self, rfl⟩, ?_⟩
  rintro _ ⟨e', he', rfl⟩
  obtain he' | he' := List.mem_append.mp he'
  · exact (List.pairwise_append.mp hes).2.2 e' he' e List.mem_cons_self
  · rw [List.mem_singleton.mp he']

end

theorem Piece.eq_record {x : Piece} {e : Entry} (h : x.entry? = some e) : x = .record e := by
  cases x with
  | record e' => exact congrArg Piece.record (Option.some.inj h)
  | failure m e' => cases h

theorem Message.message_of_mem_pieces {reader : RecordReader} {m : Message} {e : Entry}
    (he : .record e ∈ m.pieces reader) : e.message = m := by
  unfold pieces at he
  split at he
  · obtain ⟨e', he', heq⟩ := List.mem_map.mp he
    obtain rfl := Piece.record.inj heq
    exact m.message_of_mem_entries _ e' he'
  · simp at he

namespace Accumulator

def Call.message? : Call → Option Message
  | .absorb m _ => some m
  | .takeExpired _ | .flushAll | .discard => none

/-- The offsets absorbed of each partition do not descend. -/
def OffsetsAscend (cs : List Call) : Prop :=
  (cs.filterMap Call.message?).Pairwise Message.InOrder

instance (cs : List Call) : Decidable (OffsetsAscend cs) :=
  inferInstanceAs (Decidable ((cs.filterMap Call.message?).Pairwise Message.InOrder))

theorem Call.message?_of_mem_pieces {reader : RecordReader} {c : Call} {e : Entry}
    (he : .record e ∈ c.pieces reader) : c.message? = some e.message := by
  cases c with
  | absorb m now => exact congrArg some (Message.message_of_mem_pieces he).symm
  | takeExpired now => cases he
  | flushAll => cases he
  | discard => cases he

/-- The records of one group come in with offsets that do not descend. -/
theorem OffsetsAscend.records {cs : List Call} (h : OffsetsAscend cs) (reader : RecordReader)
    (s : BatchSettings) (g : Group) :
    (recordsOf s g (cs.flatMap (Call.pieces reader))).Pairwise fun e e' =>
      e.message.offset ≤ e'.message.offset := by
  -- The records of one message share its offset, those of two messages are in the messages' order.
  have hpieces : (cs.flatMap (Call.pieces reader)).Pairwise fun x x' =>
      ∀ e, x.entry? = some e → ∀ e', x'.entry? = some e' → e.message.InOrder e'.message := by
    refine List.pairwise_flatMap.mpr ⟨fun c _ => ?_, ?_⟩
    · refine List.pairwise_of_forall_mem_list fun x hx x' hx' e he e' he' => ?_
      have hm := c.message?_of_mem_pieces (Piece.eq_record he ▸ hx)
      have hm' := c.message?_of_mem_pieces (Piece.eq_record he' ▸ hx')
      rw [Option.some.inj (hm.symm.trans hm')]
      exact fun _ => le_refl _
    · refine (List.pairwise_filterMap.mp h).imp ?_
      intro c c' hcc' x hx x' hx' e he e' he'
      exact hcc' _ (c.message?_of_mem_pieces (Piece.eq_record he ▸ hx)) _
        (c'.message?_of_mem_pieces (Piece.eq_record he' ▸ hx'))
  have hentries := (List.pairwise_filterMap.mpr hpieces).filter fun e => decide (e.group s = g)
  refine hentries.imp_of_mem ?_
  intro e e' he he' hee'
  have hg := (List.mem_filter.mp he).2
  have hg' := (List.mem_filter.mp he').2
  exact hee' (congrArg Group.partition
    ((of_decide_eq_true hg).trans (of_decide_eq_true hg').symm))

end Accumulator

/-! ## What is cut off -/

namespace Gathering

/-- What is cut off in a call, and what is left, was there before or came in, in the same order. -/
theorem act_sublist (reader : RecordReader) (s : BatchSettings) (g : Group) (b : Gathering)
    (c : Accumulator.Call) :
    ((b.act reader s g c).2.flatten ++ (b.act reader s g c).1.entries).Sublist
      (b.entries ++ recordsOf s g (c.pieces reader)) := by
  by_cases hc : c = .discard
  · subst hc
    exact List.nil_sublist _
  · rw [act_flatten reader s g b hc]

theorem cuts_sublist (reader : RecordReader) (s : BatchSettings) (g : Group) (b : Gathering)
    (cs : List Accumulator.Call) :
    (b.cuts reader s g cs).flatten.flatten.Sublist
      (b.entries ++ recordsOf s g (cs.flatMap (Accumulator.Call.pieces reader))) := by
  induction cs generalizing b with
  | nil => exact List.nil_sublist _
  | cons c cs ih =>
    rw [cuts, List.flatten_cons, List.flatten_append, List.flatMap_cons, recordsOf_append,
      ← List.append_assoc]
    have hrest := (ih (b.act reader s g c).1).append_left (b.act reader s g c).2.flatten
    rw [← List.append_assoc] at hrest
    exact hrest.trans ((act_sublist reader s g b c).append_right _)

end Gathering

/-! ## A batch -/

/-- A batch is made of some records, and its metadata are true of the messages that these are
from. -/
structure SealedBatch.Describes (b : SealedBatch) (s : BatchSettings) (es : List Entry) : Prop where
  filled : es ≠ []
  records : b.records = es.map (·.record.value)
  count : b.metadata.recordCount = b.records.length
  place : ∀ e ∈ es, e.message.partition = ⟨b.metadata.topic, b.metadata.partition⟩
  first : IsLeast (offsetsAmong es) b.metadata.firstOffset
  last : IsGreatest (offsetsAmong es) b.metadata.lastOffset
  timestamp : IsLatest (timestampsOf es) b.metadata.timestamp
  headers : ∀ e ∈ es, b.metadata.headers = s.selectedHeaders e.message
  sharedKey : s.separateByKey = true →
    ∃ key, (∀ e ∈ es, e.message.key = key) ∧ b.metadata.key = key.bind s.keyEncoding.encode
  noKey : s.separateByKey = false → b.metadata.key = none

namespace PendingBatch

variable {b : PendingBatch} {s : BatchSettings} {g : Group} {es : List Entry}

theorem Holds.ne_nil (h : b.Holds es) : es ≠ [] := by
  intro hnil
  have hopen := h.isEmpty
  rw [hnil] at hopen
  cases hopen

theorem Holds.describes (h : b.Holds es) (hdated : b.Dated es) (hg : ∀ e ∈ es, e.group s = g)
    (hes : es.Pairwise fun e e' => e.message.offset ≤ e'.message.offset) :
    (b.toSealed s g).Describes s es where
  filled := h.ne_nil
  records := h.records
  count := (Array.length_toList).symm
  place e he := by
    rw [← hg e he]
    rfl
  first := isLeast_first hes h.first
  last := isGreatest_last hes h.last
  timestamp := hdated
  headers e he := congrArg Group.headers (hg e he).symm
  sharedKey hs := by
    refine ⟨g.key, fun e he => ?_, if_pos hs⟩
    rw [← hg e he]
    exact (if_pos hs).symm
  noKey hs := by
    show s.shownKey g.key = none
    rw [BatchSettings.shownKey, hs, if_neg Bool.false_ne_true]

end PendingBatch

/-- The records of a unit are one of the batches of their group. -/
theorem mem_batchesOf {s : BatchSettings} {g : Group} {es : List Entry}
    {contents : List (List Piece)} (hne : es ≠ []) (hg : ∀ e ∈ es, e.group s = g)
    (hes : es.map .record ∈ contents) : es ∈ batchesOf s g contents := by
  refine List.mem_filter.mpr ⟨List.mem_map.mpr ⟨_, hes, ?_⟩, ?_⟩
  · rw [recordsOf_map_record hg, if_pos rfl]
  · simpa using hne

namespace Accumulator

/-! ## Main result -/

/-- The metadata of a batch are true of its messages.  If the offsets absorbed of each partition
do not descend, then each batch that is handed on, whatever the calls before and between, is made
of records that were taken in, and its metadata describe the messages these are from.  Which
records those are is said group by group by what is cut off. -/
theorem metadata_describe_messages (reader : RecordReader) (s : BatchSettings) {cs : List Call}
    (hcs : OffsetsAscend cs) :
    ∃ contents : List (List (List Piece)),
      List.Forall₂ (List.Forall₂ (Emission.MadeOf s)) ((start reader s).outputs cs) contents ∧
      (∀ g, contents.map (batchesOf s g) = Gathering.empty.cuts reader s g cs) ∧
      List.Forall₂ (fun u xs => ∀ b, u = .batch b → ∃ es : List Entry, xs = es.map .record ∧
          (∀ e ∈ es, .record e ∈ cs.flatMap (Call.pieces reader)) ∧ b.Describes s es)
        ((start reader s).outputs cs).flatten contents.flatten := by
  obtain ⟨-, -, contents, hmade, hcuts, -⟩ := outputs_follow (a := start reader s)
    PendingBatch.isKept_dated (gathersWith_empty rfl) cs
  refine ⟨contents, hmade.imp fun _ _ hus => hus.imp fun _ _ hu => hu.madeOf, hcuts, ?_⟩
  have hunits := List.rel_flatten hmade
  refine List.forall₂_iff_zip.mpr ⟨hunits.length_eq, fun {u xs} hmem b hb => ?_⟩
  have hu := (List.forall₂_iff_zip.mp hunits).2 hmem
  subst hb
  cases hu with
  | @batch g b es hholds hdated hg =>
    have hbatch := mem_batchesOf hholds.ne_nil hg (List.of_mem_zip hmem).2
    rw [batchesOf_flatten, hcuts] at hbatch
    have hsublist := (List.sublist_flatten_of_mem hbatch).trans
      (Gathering.empty.cuts_sublist reader s g cs)
    refine ⟨es, rfl, fun e he => (mem_recordsOf.mp (hsublist.subset he)).1, ?_⟩
    exact hholds.describes hdated hg ((hcs.records reader s g).sublist hsublist)

/-- Two records fill a batch, and batches are separated by key. -/
def pairsByKey : BatchSettings := { maxRecords := 2, separateByKey := true }

/-- Three records of one message, one of another partition, and one that comes later. -/
def splitMessage : List Call :=
  [.absorb ⟨⟨"t", 0⟩, 4, some [97], some [91, 123, 125, 44, 123, 125, 44, 123, 125, 93], none, []⟩ 0,
    .absorb ⟨⟨"t", 1⟩, 2, some [97], some [123, 125], some 8, []⟩ 0,
    .absorb ⟨⟨"t", 0⟩, 9, some [97], some [123, 125], some 7, []⟩ 0,
    .flushAll]

theorem metadata_describe_messages_splitMessage :
    OffsetsAscend splitMessage ∧
      ((start Record.read pairsByKey).outputs splitMessage).map (·.map Emission.metadata) =
        [[⟨"t", 0, none, some "a", [], 2, 4, 4⟩], [],
          [⟨"t", 0, some 7, some "a", [], 2, 4, 9⟩],
          [⟨"t", 1, some 8, some "a", [], 1, 2, 2⟩]] ∧
      ∃ contents : List (List (List Piece)),
        List.Forall₂ (List.Forall₂ (Emission.MadeOf pairsByKey))
          ((start Record.read pairsByKey).outputs splitMessage) contents ∧
        (∀ g, contents.map (batchesOf pairsByKey g) =
          Gathering.empty.cuts Record.read pairsByKey g splitMessage) ∧
        List.Forall₂ (fun u xs => ∀ b, u = .batch b → ∃ es : List Entry, xs = es.map .record ∧
            (∀ e ∈ es, .record e ∈ splitMessage.flatMap (Call.pieces Record.read)) ∧
            b.Describes pairsByKey es)
          ((start Record.read pairsByKey).outputs splitMessage).flatten contents.flatten :=
  ⟨by decide, by decide +kernel, metadata_describe_messages Record.read pairsByKey (by decide)⟩

end Accumulator
end RecordIntake
