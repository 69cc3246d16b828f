import RecordIntake.Proofs.Cutting

/-!
Which record opened a batch, and when.  The records that come in are counted across all groups, and
the `sequence` of a batch is the place of its first record among them.  From there on the open batch
of a group holds all records of the group, also after batches of the same group were sealed or
dropped.  So no two open batches have one place, and what is sealed at once comes out in one order
only: that in which the first records came in.
-/
namespace RecordIntake

/-- A record that came in, and when. -/
structure Arrival where
  time : Nat
  entry : Entry

/-- What a call brings in. -/
def Accumulator.Call.arrivals (reader : RecordReader) : Accumulator.Call → List Arrival
  | .absorb m now => ((m.pieces reader).filterMap Piece.entry?).map (Arrival.mk now)
  | .takeExpired _ | .flushAll | .discard => []

/-- The records of one group. -/
def entriesOf (s : BatchSettings) (g : Group) (xs : List Arrival) : List Entry :=
  (xs.map (·.entry)).filter fun e => e.group s = g

section

variable {s : BatchSettings} {g : Group}

theorem entriesOf_append (xs ys : List Arrival) :
    entriesOf s g (xs ++ ys) = entriesOf s g xs ++ entriesOf s g ys := by
  rw [entriesOf, List.map_append, List.filter_append]
  rfl

theorem entriesOf_singleton (x : Arrival) :
    entriesOf s g [x] = if x.entry.group s = g then [x.entry] else [] := by
  by_cases h : x.entry.group s = g
  · simp [entriesOf, h]
  · simp [entriesOf, h]

end

/-! ## Open batches -/

/-- The batch was opened by the record in its place among all that came in, and it holds the records
of its group from there on. -/
structure PendingBatch.OpenedBy (s : BatchSettings) (xs : List Arrival) (g : Group)
    (b : PendingBatch) (x : Arrival) : Prop where
  place : xs[b.sequence]? = some x
  since : b.since = x.time
  group : x.entry.group s = g
  holds : b.Holds (entriesOf s g (xs.drop b.sequence))

namespace PendingBatch

variable {s : BatchSettings} {xs : List Arrival} {g : Group} {b : PendingBatch} {x : Arrival}

theorem openedBy_start (s : BatchSettings) (xs : List Arrival) (now : Nat) (e : Entry) :
    (start xs.length now e.message e.record.value).OpenedBy s (xs ++ [⟨now, e⟩]) (e.group s)
      ⟨now, e⟩ where
  place := List.getElem?_concat_length ..
  since := rfl
  group := rfl
  holds := by
    have hdrop : (xs ++ [Arrival.mk now e]).drop xs.length = [⟨now, e⟩] := List.drop_left
    rw [start, hdrop, entriesOf_singleton, if_pos rfl]
    exact holds_start xs.length now e

theorem OpenedBy.place_lt (h : b.OpenedBy s xs g x) : b.sequence < xs.length :=
  (List.getElem?_eq_some_iff.mp h.place).1

/-- Later records move no record that came in before, and leave the batches of other groups
alone. -/
theorem OpenedBy.pass (h : b.OpenedBy s xs g x) {y : Arrival} (hy : y.entry.group s ≠ g) :
    b.OpenedBy s (xs ++ [y]) g x where
  place := by rw [List.getElem?_append_left h.place_lt, h.place]
  since := h.since
  group := h.group
  holds := by
    rw [List.drop_append_of_le_length (Nat.le_of_lt h.place_lt), entriesOf_append,
      entriesOf_singleton, if_neg hy, List.append_nil]
    exact h.holds

theorem OpenedBy.join (h : b.OpenedBy s xs g x) (now : Nat) {e : Entry} (he : e.group s = g) :
    (b.push e.message e.record.value).OpenedBy s (xs ++ [⟨now, e⟩]) g x where
  place := by
    show (xs ++ [⟨now, e⟩])[b.sequence]? = some x
    rw [List.getElem?_append_left h.place_lt, h.place]
  since := h.since
  group := h.group
  holds := by
    show (b.push e.message e.record.value).Holds
      (entriesOf s g ((xs ++ [Arrival.mk now e]).drop b.sequence))
    rw [List.drop_append_of_le_length (Nat.le_of_lt h.place_lt), entriesOf_append,
      entriesOf_singleton, if_pos he]
    exact h.holds.push e

end PendingBatch

/-! ## The accumulator -/

namespace Accumulator

/-- Each open batch has its place among the records that came in. -/
structure Dated (a : Accumulator) (xs : List Arrival) : Prop where
  nodup : (a.pending.map (·.1)).Nodup
  next : a.nextSequence = xs.length
  opened : ∀ g b, a.pending.find? g = some b → ∃ x, b.OpenedBy a.settings xs g x

/-- After a step each open batch has its place, also among the records that came in by it. -/
structure Stays (a : Accumulator) (xs : List Arrival) (a' : Accumulator) : Prop where
  settings : a'.settings = a.settings
  reader : a'.reader = a.reader
  dated : a'.Dated xs

variable {a : Accumulator} {xs : List Arrival}

theorem dated_start (reader : RecordReader) (s : BatchSettings) : (start reader s).Dated [] where
  nodup := List.nodup_nil
  next := rfl
  opened g b hb := by cases hb

theorem Dated.filter (h : a.Dated xs) (f : Group × PendingBatch → Bool) :
    Dated { a with pending := a.pending.filter f } xs where
  nodup := Pending.nodup_filter h.nodup f
  next := h.next
  opened g b hb := by
    rw [Pending.find?_filter h.nodup] at hb
    exact h.opened g b (Option.filter_eq_some_iff.mp hb).1

theorem Dated.clear (h : a.Dated xs) : Dated { a with pending := [] } xs where
  nodup := List.nodup_nil
  next := h.next
  opened g b hb := by cases hb

theorem Dated.join (h : a.Dated xs) (now : Nat) (e : Entry) :
    Dated
      { a with
        pending := a.pending.add (e.group a.settings) a.nextSequence now e.message e.record.value
        nextSequence := a.nextSequence + 1 }
      (xs ++ [⟨now, e⟩]) where
  nodup := Pending.nodup_add h.nodup ..
  next := by rw [List.length_append, h.next]; rfl
  opened g b hb := by
    dsimp only at hb ⊢
    rw [Pending.find?_add] at hb
    split at hb
    · rename_i hg
      subst hg
      obtain rfl := Option.some.inj hb
      cases hold : a.pending.find? (e.group a.settings) with
      | none =>
        rw [h.next]
        exact ⟨_, PendingBatch.openedBy_start a.settings xs now e⟩
      | some b =>
        obtain ⟨x, hx⟩ := h.opened _ b hold
        exact ⟨x, hx.join now rfl⟩
    · rename_i hg
      obtain ⟨x, hx⟩ := h.opened g b hb
      exact ⟨x, hx.pass (Ne.symm hg)⟩

/-! ## Each call -/

theorem stays_addRecord (h : a.Dated xs) (now : Nat) (e : Entry) :
    a.Stays (xs ++ [⟨now, e⟩]) (a.addRecord e.message now (e.group a.settings) e.record).1 := by
  have hjoin := h.join now e
  unfold addRecord
  dsimp only
  split
  · split
    · exact ⟨rfl, rfl, hjoin.filter _⟩
    · exact ⟨rfl, rfl, hjoin⟩
  · exact ⟨rfl, rfl, hjoin⟩

theorem stays_addRecords (h : a.Dated xs) (m : Message) (now : Nat) {es : List Entry}
    (hes : ∀ e ∈ es, e.message = m) :
    a.Stays (xs ++ es.map (Arrival.mk now))
      (a.addRecords m now (commonGroup a.settings m) (es.map (·.record))).1 := by
  induction es generalizing a xs with
  | nil =>
    rw [List.map_nil, List.append_nil]
    exact ⟨rfl, rfl, h⟩
  | cons e es ih =>
    obtain rfl := hes e List.mem_cons_self
    have hfirst := stays_addRecord h now e
    have hrest := ih hfirst.dated fun e' he' => hes e' (List.mem_cons_of_mem e he')
    rw [hfirst.settings, List.append_assoc] at hrest
    exact ⟨hrest.settings.trans hfirst.settings, hrest.reader.trans hfirst.reader, hrest.dated⟩

theorem stays_absorb (h : a.Dated xs) (m : Message) (now : Nat) :
    a.Stays (xs ++ (Call.absorb m now).arrivals a.reader) (a.absorb m now).1 := by
  simp only [absorb, Call.arrivals, Message.pieces]
  cases a.reader m.payload with
  | ok rs =>
    have hentries : ((m.entries rs).map Piece.record).filterMap Piece.entry? = m.entries rs := by
      rw [List.filterMap_map]
      exact List.filterMap_some
    have hstays := stays_addRecords h m now (m.message_of_mem_entries rs)
    rw [Message.map_record_entries] at hstays
    dsimp only
    rw [hentries]
    exact hstays
  | error e =>
    refine ⟨rfl, rfl, ?_⟩
    show a.Dated (xs ++ [])
    rw [List.append_nil]
    exact h

theorem takeExpired_eq (a : Accumulator) (now : Nat) :
    a.takeExpired now =
      ({ a with pending := a.pending.filter fun x => !isExpired a.settings now x.2 },
        Pending.sealAll a.settings (a.pending.filter fun x => isExpired a.settings now x.2)) := by
  rw [takeExpired, List.partition_eq_filter_filter]
  rfl

theorem stays_act (h : a.Dated xs) (c : Call) :
    a.Stays (xs ++ c.arrivals a.reader) (a.act c).1 := by
  cases c with
  | absorb m now => exact stays_absorb h m now
  | takeExpired now =>
    rw [act, takeExpired_eq, Call.arrivals, List.append_nil]
    exact ⟨rfl, rfl, h.filter _⟩
  | flushAll | discard =>
    rw [Call.arrivals, List.append_nil]
    exact ⟨rfl, rfl, h.clear⟩

theorem stays_after (h : a.Dated xs) (cs : List Call) :
    a.Stays (xs ++ cs.flatMap (·.arrivals a.reader)) (a.after cs) := by
  induction cs generalizing a xs with
  | nil =>
    rw [List.flatMap_nil, List.append_nil]
    exact ⟨rfl, rfl, h⟩
  | cons c cs ih =>
    have hact := stays_act h c
    have hrest := ih hact.dated
    rw [hact.reader, List.append_assoc] at hrest
    rw [List.flatMap_cons]
    exact ⟨hrest.settings.trans hact.settings, hrest.reader.trans hact.reader, hrest.dated⟩

end Accumulator
end RecordIntake
