import RecordIntake.Proofs.Cutting

/-!
Which records share a batch.  The records of a batch agree on their group, and the records of a
group are cut into batches where the open batch is full, has waited long enough or is flushed, and
nowhere else.  When none of that happens before everything is flushed, then records share a batch if
and only if they agree on their group.  What is not selected of a message has no part in that.
-/
namespace RecordIntake

/-! ## Groups -/

/-- Two records agree on everything that separates batches. -/
structure Entry.Agree (s : BatchSettings) (e e' : Entry) : Prop where
  schema : e.record.schema = e'.record.schema
  partition : e.message.partition = e'.message.partition
  key : s.separateByKey = true → e.message.key = e'.message.key
  headers : s.selectedHeaders e.message = s.selectedHeaders e'.message

theorem BatchSettings.groupingKey_eq_iff {s : BatchSettings} {m m' : Message} :
    s.groupingKey m = s.groupingKey m' ↔ (s.separateByKey = true → m.key = m'.key) := by
  unfold groupingKey
  by_cases hs : s.separateByKey = true
  · rw [if_pos hs, if_pos hs]
    exact ⟨fun h _ => h, fun h => h hs⟩
  · rw [if_neg hs, if_neg hs]
    exact ⟨fun _ h => absurd h hs, fun _ => rfl⟩

theorem Entry.group_eq_iff {s : BatchSettings} {e e' : Entry} :
    e.group s = e'.group s ↔ e.Agree s e' := by
  rw [Entry.group, Entry.group, Group.mk.injEq]
  refine ⟨fun ⟨hschema, hpartition, hkey, hheaders⟩ => ?_, fun h => ?_⟩
  · exact ⟨hschema, hpartition, BatchSettings.groupingKey_eq_iff.mp hkey, hheaders⟩
  · exact ⟨h.schema, h.partition, BatchSettings.groupingKey_eq_iff.mpr h.key, h.headers⟩

/-! ## Full batches -/

namespace Gathering

variable {s : BatchSettings} {b : Gathering}

/-- The open batch is not full. -/
def HasRoom (s : BatchSettings) (b : Gathering) : Prop := b.entries.length < max 1 s.maxRecords

theorem hasRoom_empty (s : BatchSettings) : empty.HasRoom s :=
  Nat.lt_of_lt_of_le Nat.one_pos (Nat.le_max_left ..)

theorem HasRoom.take (h : b.HasRoom s) (due : Bool) : (b.take due).1.HasRoom s := by
  unfold Gathering.take
  split
  · exact hasRoom_empty s
  · exact h

/-- A batch with room for more becomes full with one record, if it does. -/
theorem HasRoom.add (h : b.HasRoom s) (now : Nat) (e : Entry) :
    (b.add s now e).1.HasRoom s ∧
      ∀ es ∈ (b.add s now e).2, es.length = max 1 s.maxRecords := by
  have hlength : (b.join now e).entries.length = b.entries.length + 1 := by
    rw [join, List.length_append, List.length_singleton]
  unfold Gathering.add Gathering.take
  split
  · rename_i hfull
    have hle := of_decide_eq_true (Bool.and_eq_true_iff.mp hfull).1
    refine ⟨hasRoom_empty s, fun es hes => ?_⟩
    rw [List.mem_singleton.mp hes]
    exact Nat.le_antisymm (hlength ▸ h) hle
  · rename_i hroom
    refine ⟨Nat.lt_of_not_le fun hle => hroom ?_, fun es hes => by cases hes⟩
    rw [decide_eq_true hle, Bool.true_and]
    simp [join]

theorem HasRoom.addAll (h : b.HasRoom s) (now : Nat) (new : List Entry) :
    (b.addAll s now new).1.HasRoom s ∧
      ∀ es ∈ (b.addAll s now new).2, es.length = max 1 s.maxRecords := by
  induction new generalizing b with
  | nil => exact ⟨h, fun es hes => by cases hes⟩
  | cons e new ih =>
    obtain ⟨hroom, hfirst⟩ := h.add now e
    obtain ⟨hroom, hrest⟩ := ih hroom
    exact ⟨hroom, fun es hes => (List.mem_append.mp hes).elim (hfirst es) (hrest es)⟩

theorem HasRoom.act (h : b.HasRoom s) (reader : RecordReader) (g : Group) (c : Accumulator.Call) :
    (b.act reader s g c).1.HasRoom s := by
  cases c with
  | absorb m now => exact (h.addAll now _).1
  | takeExpired now => exact h.take _
  | flushAll => exact h.take _
  | discard => exact hasRoom_empty s

theorem HasRoom.after (h : b.HasRoom s) (reader : RecordReader) (g : Group)
    (cs : List Accumulator.Call) : (b.after reader s g cs).HasRoom s := by
  induction cs generalizing b with
  | nil => exact h
  | cons c cs ih => exact ih (h.act reader g c)

end Gathering

/-! ## What is not selected -/

/-- A message without what is not selected of it. -/
def Message.selected (s : BatchSettings) (m : Message) : Message :=
  { m with key := s.groupingKey m, headers := m.headers.filter s.selectsHeader }

theorem BatchSettings.groupingKey_selected (s : BatchSettings) (m : Message) :
    s.groupingKey (m.selected s) = s.groupingKey m := by
  unfold groupingKey Message.selected
  split
  · rename_i hs
    simp only [groupingKey, hs, if_true]
  · rfl

theorem BatchSettings.selectedHeaders_selected (s : BatchSettings) (m : Message) :
    s.selectedHeaders (m.selected s) = s.selectedHeaders m := by
  simp only [selectedHeaders, Message.selected, List.filter_filter, Bool.and_self]

theorem BatchSettings.shownKey_groupingKey (s : BatchSettings) (m : Message) :
    s.shownKey (s.groupingKey m) = s.shownKey m.key := by
  unfold shownKey groupingKey
  split <;> rfl

theorem Pending.add_selected (s : BatchSettings) (g : Group) (sequence now : Nat) (m : Message)
    (v : Json.Value) (p : Pending) :
    p.add g sequence now (m.selected s) v = p.add g sequence now m v := by
  induction p with
  | nil => rfl
  | cons x rest ih =>
    simp only [add, ih]
    rfl

namespace Accumulator

variable {a : Accumulator} {gs : Group → Gathering}

theorem commonGroup_selected (s : BatchSettings) (m : Message) :
    commonGroup s (m.selected s) = commonGroup s m := by
  simp only [commonGroup, s.groupingKey_selected, s.selectedHeaders_selected]
  rfl

theorem failureOf_selected (s : BatchSettings) (m : Message) (e : DecodeError) :
    failureOf s (m.selected s) e = failureOf s m e := by
  simp only [failureOf, s.selectedHeaders_selected]
  simp only [Message.selected, s.shownKey_groupingKey]

theorem addRecords_selected (a : Accumulator) (s : BatchSettings) (m : Message) (now : Nat)
    (common : Group) (rs : List Record) :
    a.addRecords (m.selected s) now common rs = a.addRecords m now common rs := by
  induction rs generalizing a with
  | nil => rfl
  | cons r rs ih => simp only [addRecords, addRecord, Pending.add_selected, ih]

theorem absorb_selected (a : Accumulator) (m : Message) (now : Nat) :
    a.absorb (m.selected a.settings) now = a.absorb m now := by
  unfold absorb
  rw [commonGroup_selected]
  simp only [addRecords_selected, failureOf_selected]
  rfl

def Call.selected (s : BatchSettings) : Call → Call
  | .absorb m now => .absorb (m.selected s) now
  | c => c

theorem act_selected (a : Accumulator) (c : Call) : a.act (c.selected a.settings) = a.act c := by
  cases c with
  | absorb m now => exact absorb_selected a m now
  | takeExpired now => rfl
  | flushAll => rfl
  | discard => rfl

/-- Unselected headers have no influence, nor have the keys unless they separate batches. -/
theorem outputs_selected (h : a.Gathers gs) (cs : List Call) :
    a.outputs (cs.map (Call.selected a.settings)) = a.outputs cs ∧
      a.after (cs.map (Call.selected a.settings)) = a.after cs := by
  induction cs generalizing a gs with
  | nil => exact ⟨rfl, rfl⟩
  | cons c cs ih =>
    have hact := act_follows h c
    obtain ⟨houtputs, hafter⟩ := ih hact.gathers
    rw [hact.settings] at houtputs hafter
    simp only [List.map_cons, outputs, act_selected, houtputs, after, List.foldl_cons, true_and]
    exact hafter

/-! ## Before everything is flushed -/

/-- A batch that is handed on when a message was absorbed is full. -/
theorem length_of_absorbed (h : a.Gathers gs) (hroom : ∀ g, (gs g).HasRoom a.settings)
    {m : Message} {now : Nat} {b : SealedBatch} (hb : .batch b ∈ (a.absorb m now).2) :
    b.records.length = max 1 a.settings.maxRecords := by
  obtain ⟨contents, hmade, hcuts, -⟩ := (absorb_follows h m now).contents
  obtain ⟨g, es, hes, hrecords⟩ := exists_batchesOf hmade hb
  rw [hcuts] at hes
  rw [hrecords, List.length_map]
  exact ((hroom g).addAll now _).2 es hes

/-- As long as no batch is handed on, all records of a group are in its open batch. -/
theorem entries_of_quiet (reader : RecordReader) (s : BatchSettings) {cs : List Call}
    (hcs : .discard ∉ cs)
    (hquiet : ∀ us ∈ (start reader s).outputs cs, ∀ u ∈ us, u.isParseFailure = true) (g : Group) :
    (Gathering.empty.after reader s g cs).entries =
      recordsOf s g (cs.flatMap (Call.pieces reader)) := by
  obtain ⟨-, -, contents, hmade, hcuts, -⟩ := outputs_start reader s cs
  have hflatten := Gathering.empty.cuts_flatten reader s g hcs
  rwa [← hcuts, flatten_batchesOf_eq_nil hmade hquiet] at hflatten

/-- If no batch was handed on before everything is flushed, then there is one of each group. -/
theorem flushed_once (reader : RecordReader) (s : BatchSettings) {cs : List Call}
    (hcs : .discard ∉ cs)
    (hquiet : ∀ us ∈ (start reader s).outputs cs, ∀ u ∈ us, u.isParseFailure = true) :
    ∃ contents,
      List.Forall₂ (Emission.MadeOf s) ((start reader s).after cs).flushAll.2 contents ∧
      ∀ g, recordsOf s g (cs.flatMap (Call.pieces reader)) ≠ [] →
        batchesOf s g contents = [recordsOf s g (cs.flatMap (Call.pieces reader))] := by
  obtain ⟨hsettings, hgathers, -⟩ := outputs_start reader s cs
  obtain ⟨contents, hmade, hcuts, -⟩ := (flushAll_follows hgathers).contents
  rw [hsettings] at hmade hcuts
  refine ⟨contents, hmade, fun g hg => ?_⟩
  rw [← entries_of_quiet reader s hcs hquiet g] at hg ⊢
  exact (hcuts g).trans (congrArg Prod.snd (Gathering.take_of_ne_nil hg))

/-! ## Main result -/

/-- Which records share a batch.  The records of a batch agree.  In each call the batches of a group
are those that are cut off of its records, where they fill a batch, and then with as many records as
that takes, or where the open batch is taken.  If nothing but a final flush takes a
batch, records share one if and only if they agree.  What is not selected of the messages has no
influence. -/
theorem batches_cut_exactly (reader : RecordReader) (s : BatchSettings) (cs : List Call) :
    (∃ contents : List (List (List Piece)),
      List.Forall₂ (List.Forall₂ (Emission.MadeOf s)) ((start reader s).outputs cs) contents ∧
      (∀ xs ∈ contents.flatten, ∀ e e', .record e ∈ xs → .record e' ∈ xs → e.Agree s e') ∧
      ∀ g, contents.map (batchesOf s g) = Gathering.empty.cuts reader s g cs) ∧
    (∀ m now b, .batch b ∈ (((start reader s).after cs).absorb m now).2 →
      b.records.length = max 1 s.maxRecords) ∧
    (.discard ∉ cs →
      (∀ us ∈ (start reader s).outputs cs, ∀ u ∈ us, u.isParseFailure = true) →
      ∃ contents,
        List.Forall₂ (Emission.MadeOf s) ((start reader s).after cs).flushAll.2 contents ∧
        ∀ e e', .record e ∈ cs.flatMap (Call.pieces reader) →
          .record e' ∈ cs.flatMap (Call.pieces reader) →
          ((∃ xs ∈ contents, .record e ∈ xs ∧ .record e' ∈ xs) ↔ e.Agree s e')) ∧
    (start reader s).outputs (cs.map (Call.selected s)) = (start reader s).outputs cs := by
  obtain ⟨hsettings, hgathers, contents, hmade, hcuts, -⟩ := outputs_start reader s cs
  refine ⟨⟨contents, hmade, fun xs hxs e e' he he' => ?_, hcuts⟩, fun m now b hb => ?_,
    fun hcs hquiet => ?_, (outputs_selected (gathers_empty rfl) cs).1⟩
  · exact Entry.group_eq_iff.mp (group_eq_of_made (List.rel_flatten hmade) hxs he he')
  · have hroom : ∀ g, (Gathering.empty.after reader s g cs).HasRoom s := fun g =>
      (Gathering.hasRoom_empty s).after reader g cs
    have hlength := length_of_absorbed hgathers (hsettings.symm ▸ hroom) hb
    rwa [hsettings] at hlength
  · obtain ⟨contents, hmade, honce⟩ := flushed_once reader s hcs hquiet
    refine ⟨contents, hmade, fun e e' he he' => ⟨?_, fun hagree => ?_⟩⟩
    · rintro ⟨xs, hxs, hmem, hmem'⟩
      exact Entry.group_eq_iff.mp (group_eq_of_made hmade hxs hmem hmem')
    · have hmem := mem_recordsOf.mpr ⟨he, Entry.group_eq_iff.mpr hagree⟩
      have hmem' : e' ∈ recordsOf s (e'.group s) _ := mem_recordsOf.mpr ⟨he', rfl⟩
      have hbatch : recordsOf s (e'.group s) (cs.flatMap (Call.pieces reader)) ∈
          batchesOf s (e'.group s) contents := by
        rw [honce _ (List.ne_nil_of_mem hmem)]
        exact List.mem_cons_self
      obtain ⟨xs, hxs, hrecords⟩ := List.mem_map.mp (List.mem_filter.mp hbatch).1
      rw [← hrecords] at hmem hmem'
      exact ⟨xs, hxs, (mem_recordsOf.mp hmem).1, (mem_recordsOf.mp hmem').1⟩

/-- Two messages of one group and one of another. -/
def twoGroups : List Call :=
  [.absorb ⟨⟨"t", 0⟩, 0, none, some [123, 125], none, []⟩ 0,
    .absorb ⟨⟨"t", 1⟩, 0, none, some [123, 125], none, []⟩ 0,
    .absorb ⟨⟨"t", 0⟩, 1, none, some [123, 125], none, []⟩ 3]

theorem batches_cut_exactly_twoGroups :
    ((empty {}).after twoGroups).pendingBatches = 2 ∧
      ∃ contents,
        List.Forall₂ (Emission.MadeOf {}) ((empty {}).after twoGroups).flushAll.2 contents ∧
        ∀ e e', .record e ∈ twoGroups.flatMap (Call.pieces Record.read) →
          .record e' ∈ twoGroups.flatMap (Call.pieces Record.read) →
          ((∃ xs ∈ contents, .record e ∈ xs ∧ .record e' ∈ xs) ↔ e.Agree {} e') :=
  ⟨by decide +kernel,
    (batches_cut_exactly Record.read {} twoGroups).2.2.1 (by simp [twoGroups]) (by decide +kernel)⟩

end Accumulator
end RecordIntake
