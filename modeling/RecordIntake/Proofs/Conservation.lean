import Mathlib.Data.List.Count
import RecordIntake.Proofs.Grouping

/-!
What the accumulator takes in comes out of it exactly once.  Group by group nothing gets lost, is
repeated or changes its place, and for each message that could not be read there is one unit.  A
list of pieces is known, up to the order of different groups, by its records of each group and by
its failures.  So what was handed on and what is kept are, together, what was taken in.
-/
namespace RecordIntake

/-! ## Pieces -/

/-- The octets that are handed on for a message that could not be read. -/
def Piece.raw? : Piece → Option (List UInt8)
  | .record _ => none
  | .failure m _ => some (m.payload.getD [])

def Piece.value? (x : Piece) : Option Json.Value := x.entry?.map (·.record.value)

theorem filterMap_value_map_record (es : List Entry) :
    (es.map Piece.record).filterMap Piece.value? = es.map (·.record.value) := by
  rw [List.filterMap_map]
  exact congrFun List.filterMap_eq_map es

theorem count_entries [BEq Piece] [LawfulBEq Piece] [BEq Entry] [LawfulBEq Entry] (e : Entry)
    (xs : List Piece) : (xs.filterMap Piece.entry?).count e = xs.count (.record e) := by
  induction xs with
  | nil => rfl
  | cons x xs ih =>
    cases x with
    | record e' =>
      show (e' :: xs.filterMap Piece.entry?).count e = _
      rw [List.count_cons, List.count_cons, ih]
      by_cases heq : e' = e
      · rw [heq, if_pos (beq_self_eq_true _), if_pos (beq_self_eq_true _)]
      · rw [if_neg (by simpa using heq), if_neg (by simpa using heq)]
    | failure m e' =>
      show (xs.filterMap Piece.entry?).count e = _
      rw [ih, List.count_cons_of_ne (fun h => by cases h)]

/-- Pieces are the same, up to their order, if they have the same records of each group and the same
failures. -/
theorem perm_of_groups {s : BatchSettings} {xs ys : List Piece}
    (hrecords : ∀ g, recordsOf s g xs = recordsOf s g ys) (hfailures : failuresOf xs = failuresOf ys) :
    xs.Perm ys := by
  classical
  refine List.perm_iff_count.mpr fun x => ?_
  cases x with
  | record e =>
    have hcount : ∀ zs, (recordsOf s (e.group s) zs).count e = zs.count (.record e) := fun zs => by
      have hgroup : decide (e.group s = e.group s) = true := decide_eq_true rfl
      exact (List.count_filter (p := fun e' => decide (e'.group s = e.group s)) hgroup).trans
        (count_entries e zs)
    rw [← hcount xs, ← hcount ys, hrecords]
  | failure m e =>
    have hcount : ∀ zs, (failuresOf zs).count (.failure m e) = zs.count (.failure m e) := fun zs =>
      List.count_filter rfl
    rw [← hcount xs, ← hcount ys, hfailures]

theorem filterMap_raw_failuresOf (xs : List Piece) :
    (failuresOf xs).filterMap Piece.raw? = xs.filterMap Piece.raw? := by
  rw [failuresOf, List.filterMap_filter]
  refine List.filterMap_congr fun x _ => ?_
  cases x <;> rfl

/-! ## Units -/

namespace Emission

def records : Emission → List Json.Value
  | .batch b => b.records
  | .parseFailure _ => []

def raw? : Emission → Option (List UInt8)
  | .batch _ => none
  | .parseFailure f => some f.raw

theorem MadeOf.records {s : BatchSettings} {u : Emission} {xs : List Piece} (h : u.MadeOf s xs) :
    u.records = xs.filterMap Piece.value? := by
  cases h with
  | @batch g b es hb hg =>
    exact hb.records.trans (filterMap_value_map_record es).symm
  | failure m e => rfl

theorem MadeOf.raw {s : BatchSettings} {u : Emission} {xs : List Piece} (h : u.MadeOf s xs) :
    u.raw?.toList = xs.filterMap Piece.raw? := by
  cases h with
  | @batch g b es hb hg =>
    rw [List.filterMap_map]
    exact (List.filterMap_eq_nil_iff.mpr fun _ _ => rfl).symm
  | failure m e => rfl

end Emission

section

variable {s : BatchSettings} {us : List Emission} {contents : List (List Piece)}

theorem records_of_made (h : List.Forall₂ (Emission.MadeOf s) us contents) :
    us.flatMap Emission.records = contents.flatten.filterMap Piece.value? := by
  induction h with
  | nil => rfl
  | cons hu _ ih =>
    rw [List.flatMap_cons, List.flatten_cons, List.filterMap_append, hu.records, ih]

theorem raw_of_made (h : List.Forall₂ (Emission.MadeOf s) us contents) :
    us.filterMap Emission.raw? = contents.flatten.filterMap Piece.raw? := by
  induction h with
  | nil => rfl
  | @cons u xs us contents hu _ ih =>
    rw [List.flatten_cons, List.filterMap_append, ← ih, ← hu.raw, List.filterMap_cons]
    cases u.raw? <;> rfl

/-- No batch is empty. -/
theorem records_ne_nil (h : List.Forall₂ (Emission.MadeOf s) us contents) {b : SealedBatch}
    (hb : .batch b ∈ us) : b.records ≠ [] := by
  obtain ⟨g, es, hes, hrecords⟩ := exists_batchesOf h hb
  have hopen := (List.mem_filter.mp hes).2
  intro hnil
  obtain rfl := List.map_eq_nil_iff.mp (hrecords.symm.trans hnil)
  cases hopen

end

namespace Accumulator

variable {a : Accumulator} {kept : Group → List Entry}

/-! ## What is kept -/

/-- What the accumulator keeps, if of each group it keeps the given records. -/
def keptPieces (a : Accumulator) (kept : Group → List Entry) : List Piece :=
  (a.pending.map fun x => (kept x.1).map Piece.record).flatten

theorem recordsOf_keptPieces (h : a.Holds kept) (g : Group) :
    recordsOf a.settings g (a.keptPieces kept) = kept g := by
  have hfull : ∀ x ∈ a.pending, (kept x.1).isEmpty = false := fun x hx =>
    (h.batch x.1 x.2 (Pending.find?_eq_some_of_mem h.nodup hx)).isEmpty
  rw [keptPieces, ← flatten_batchesOf, batchesOf_sealed h.nodup h.group hfull]
  split
  · exact List.flatten_singleton
  · rename_i hg
    exact (h.nothing g (Pending.find?_eq_none.mpr hg)).symm

theorem failuresOf_keptPieces (a : Accumulator) (kept : Group → List Entry) :
    failuresOf (a.keptPieces kept) = [] := failuresOf_sealed kept a.pending

theorem values_keptPieces (h : a.Holds kept) :
    (a.keptPieces kept).filterMap Piece.value? = a.pending.flatMap (·.2.records.toList) := by
  rw [keptPieces, List.filterMap_flatten, List.map_map, List.flatMap_def]
  refine congrArg List.flatten (List.map_congr_left fun x hx => ?_)
  have hbatch := h.batch x.1 x.2 (Pending.find?_eq_some_of_mem h.nodup hx)
  exact (filterMap_value_map_record _).trans hbatch.records.symm

/-! ## Main result -/

/-- The message a call takes in, if it cannot be read. -/
def Call.unread? (reader : RecordReader) : Call → Option Message
  | .absorb m _ =>
    match reader m.payload with
    | .ok _ => none
    | .error _ => some m
  | .takeExpired _ | .flushAll | .discard => none

theorem Call.raw_pieces (reader : RecordReader) (c : Call) :
    (c.pieces reader).filterMap Piece.raw? =
      ((c.unread? reader).map fun m => m.payload.getD []).toList := by
  cases c with
  | absorb m now =>
    simp only [pieces, Message.pieces, unread?]
    cases reader m.payload with
    | ok rs =>
      dsimp only
      rw [List.filterMap_map]
      exact List.filterMap_eq_nil_iff.mpr fun _ _ => rfl
    | error e => rfl
  | takeExpired now => rfl
  | flushAll => rfl
  | discard => rfl

theorem raw_calls (reader : RecordReader) (cs : List Call) :
    (cs.flatMap (Call.pieces reader)).filterMap Piece.raw? =
      (cs.filterMap (Call.unread? reader)).map fun m => m.payload.getD [] := by
  induction cs with
  | nil => rfl
  | cons c cs ih =>
    rw [List.flatMap_cons, List.filterMap_append, ih, c.raw_pieces, List.filterMap_cons]
    cases c.unread? reader <;> rfl

/-- What was handed on and what is kept, together, is what was taken in. -/
theorem handed_on_or_kept (reader : RecordReader) (s : BatchSettings) {cs : List Call}
    (hcs : .discard ∉ cs) :
    ∃ contents kept,
      List.Forall₂ (Emission.MadeOf s) ((start reader s).outputs cs).flatten contents ∧
      ((start reader s).after cs).Holds kept ∧
      (contents.flatten ++ ((start reader s).after cs).keptPieces kept).Perm
        (cs.flatMap (Call.pieces reader)) ∧
      (∀ g, (batchesOf s g contents).flatten ++ kept g =
        recordsOf s g (cs.flatMap (Call.pieces reader))) ∧
      failuresOf contents.flatten = failuresOf (cs.flatMap (Call.pieces reader)) := by
  obtain ⟨hsettings, hgathers, contents, hmade, hcuts, hfailures⟩ := outputs_start reader s cs
  have hholds := hgathers.holds
  have hkept := recordsOf_keptPieces hholds
  rw [hsettings] at hkept
  have hrecords : ∀ g, (batchesOf s g contents.flatten).flatten ++
      (Gathering.empty.after reader s g cs).entries =
      recordsOf s g (cs.flatMap (Call.pieces reader)) := fun g => by
    rw [batchesOf_flatten, hcuts]
    exact Gathering.empty.cuts_flatten reader s g hcs
  have hsame : ∀ g, recordsOf s g (contents.flatten.flatten ++
      ((start reader s).after cs).keptPieces _) = recordsOf s g (cs.flatMap (Call.pieces reader)) :=
    fun g => by rw [recordsOf_append, ← flatten_batchesOf, hkept, hrecords]
  refine ⟨contents.flatten, _, List.rel_flatten hmade, hholds, perm_of_groups hsame ?_, hrecords,
    hfailures⟩
  rw [failuresOf_append, failuresOf_keptPieces, List.append_nil, hfailures]

/-- Nothing gets lost, is repeated or changes its place.  At any time the records that were handed
on and those that are kept are the records taken in, and so, group by group, in their order.  When
everything has been flushed nothing is kept; what was handed on is each record once, in batches none
of which is empty, and one unit with the same octets for each message that could not be read. -/
theorem everything_handed_on_once (reader : RecordReader) (s : BatchSettings) (cs : List Call)
    (hcs : .discard ∉ cs) :
    let taken := cs.flatMap (Call.pieces reader)
    let units := ((start reader s).outputs (cs ++ [.flushAll])).flatten
    (∃ contents kept,
      List.Forall₂ (Emission.MadeOf s) ((start reader s).outputs cs).flatten contents ∧
      ((start reader s).after cs).Holds kept ∧
      (contents.flatten ++ ((start reader s).after cs).keptPieces kept).Perm taken ∧
      ∀ g, (batchesOf s g contents).flatten ++ kept g = recordsOf s g taken) ∧
    (((start reader s).outputs cs).flatten.flatMap Emission.records ++
      ((start reader s).after cs).pending.flatMap (·.2.records.toList)).Perm
        (taken.filterMap Piece.value?) ∧
    (∃ contents, List.Forall₂ (Emission.MadeOf s) units contents ∧
      contents.flatten.Perm taken ∧ ∀ g, (batchesOf s g contents).flatten = recordsOf s g taken) ∧
    units.filterMap Emission.raw? =
      (cs.filterMap (Call.unread? reader)).map (fun m => m.payload.getD []) ∧
    (∀ b, .batch b ∈ units → b.records ≠ []) ∧
    ((start reader s).after (cs ++ [.flushAll])).pending = [] := by
  intro taken units
  have hflushed : Call.discard ∉ cs ++ [.flushAll] := by
    simpa using hcs
  have htaken : (cs ++ [Call.flushAll]).flatMap (Call.pieces reader) = taken := by
    rw [List.flatMap_append]
    exact List.append_nil _
  have hpending : ((start reader s).after (cs ++ [.flushAll])).pending = [] := by
    rw [after, List.foldl_append]
    rfl
  obtain ⟨contents, kept, hmade, hholds, hperm, hrecords, -⟩ := handed_on_or_kept reader s hcs
  obtain ⟨contents', kept', hmade', hholds', hperm', hrecords', hfailures'⟩ :=
    handed_on_or_kept reader s hflushed
  rw [htaken] at hperm' hrecords' hfailures'
  have hnothing : ((start reader s).after (cs ++ [.flushAll])).keptPieces kept' = [] := by
    rw [keptPieces, hpending]
    rfl
  rw [hnothing, List.append_nil] at hperm'
  refine ⟨⟨contents, kept, hmade, hholds, hperm, hrecords⟩, ?_,
    ⟨contents', hmade', hperm', fun g => ?_⟩, ?_, fun b hb => records_ne_nil hmade' hb, hpending⟩
  · rw [records_of_made hmade, ← values_keptPieces hholds, ← List.filterMap_append]
    exact hperm.filterMap _
  · rw [← hrecords' g, hholds'.nothing_of_empty hpending, List.append_nil]
  · rw [raw_of_made hmade', ← filterMap_raw_failuresOf, hfailures', filterMap_raw_failuresOf]
    exact raw_calls reader cs

/-- Two records, a message that cannot be read, and a record that comes after an expiry. -/
def mixedCalls : List Call :=
  [.absorb ⟨⟨"t", 0⟩, 0, none, some [91, 123, 125, 44, 123, 125, 93], none, []⟩ 0,
    .absorb ⟨⟨"t", 0⟩, 1, none, some [123], none, []⟩ 1,
    .takeExpired 5000,
    .absorb ⟨⟨"t", 0⟩, 2, none, some [123, 125], none, []⟩ 5000]

theorem everything_handed_on_once_mixedCalls :
    ((empty {}).outputs (mixedCalls ++ [.flushAll])).flatten.filterMap Emission.raw? = [[123]] ∧
      (mixedCalls.flatMap (Call.pieces Record.read)).length = 4 ∧
      (∃ contents,
        List.Forall₂ (Emission.MadeOf {})
          ((empty {}).outputs (mixedCalls ++ [.flushAll])).flatten contents ∧
        contents.flatten.Perm (mixedCalls.flatMap (Call.pieces Record.read)) ∧
        ∀ g, (batchesOf {} g contents).flatten =
          recordsOf {} g (mixedCalls.flatMap (Call.pieces Record.read))) ∧
      ((empty {}).after (mixedCalls ++ [.flushAll])).pending = [] := by
  have hcs : Call.discard ∉ mixedCalls := by simp [mixedCalls]
  have hall := everything_handed_on_once Record.read {} mixedCalls hcs
  exact ⟨hall.2.2.2.1.trans (by decide +kernel), by decide +kernel, hall.2.2.1, hall.2.2.2.2.2⟩

end Accumulator
end RecordIntake
