import RecordIntake.Proofs.Conservation

/-!
A message that cannot be read passes an accumulator by.  What is emitted for it is its parse
failure, at once and alone, and the accumulator is the same before and after it: no batch is opened,
cut off or made older, and no number is given out.  So a run of calls does what it does without such
messages, and their failures stand at the places of their calls.
-/
namespace RecordIntake

/-! ## What cannot be read -/

theorem Json.Value.eq_object_of_kind {v : Json.Value} (h : v.kind = .object) :
    ∃ fields, v = .object fields := by
  cases v with
  | object fields => exact ⟨fields, rfl⟩
  | _ => cases h

namespace Record

theorem ofValue_error {v : Json.Value} (h : v.kind ≠ .object) :
    ofValue v = .error (.notARecord v.kind) := by
  cases v with
  | object fields => exact absurd rfl h
  | _ => rfl

/-- One item that is no object spoils all of them. -/
theorem ofValues_error {vs : List Json.Value} (h : ∃ v ∈ vs, v.kind ≠ .object) :
    ∃ e, ofValues vs = .error e := by
  obtain ⟨v, hv, hkind⟩ := h
  induction vs with
  | nil => cases hv
  | cons w vs ih =>
    by_cases hw : w.kind = .object
    · obtain ⟨fields, rfl⟩ := Json.Value.eq_object_of_kind hw
      have hrest : v ∈ vs := by
        rcases List.mem_cons.mp hv with rfl | hrest
        · exact absurd rfl hkind
        · exact hrest
      obtain ⟨e, he⟩ := ih hrest
      refine ⟨e, ?_⟩
      have hfirst : ofValue (.object fields) = .ok (ofFields fields) := rfl
      rw [ofValues, hfirst]
      dsimp only
      rw [he]
    · refine ⟨.notARecord w.kind, ?_⟩
      rw [ofValues, ofValue_error hw]

/-- An array that holds anything but objects yields no records at all. -/
theorem read_error_of_array {octets : List UInt8} {vs : List Json.Value}
    (hread : Json.read octets = .ok (.array vs)) (h : ∃ v ∈ vs, v.kind ≠ .object) :
    ∃ e, read (some octets) = .error e := by
  obtain ⟨e, he⟩ := ofValues_error h
  cases octets with
  | nil => exact ⟨.emptyPayload, rfl⟩
  | cons b bs =>
    refine ⟨e, ?_⟩
    rw [read, hread]
    · exact he
    · exact List.cons_ne_nil b bs

end Record

namespace Accumulator

/-- Whether a call takes in nothing that cannot be read. -/
def Call.isReadable (reader : RecordReader) (c : Call) : Bool := (c.unread? reader).isNone

variable {a : Accumulator} {c : Call} {m : Message}

theorem Call.unread?_eq_some {reader : RecordReader} (h : c.unread? reader = some m) :
    ∃ now e, c = .absorb m now ∧ reader m.payload = .error e := by
  cases c with
  | absorb m' now =>
    rw [unread?] at h
    cases hread : reader m'.payload with
    | ok rs =>
      rw [hread] at h
      cases h
    | error e =>
      rw [hread] at h
      obtain rfl := Option.some.inj h
      exact ⟨now, e, rfl, hread⟩
  | takeExpired now => cases h
  | flushAll => cases h
  | discard => cases h

/-! ## One call -/

theorem absorb_error {e : DecodeError} (h : a.reader m.payload = .error e) (now : Nat) :
    a.act (.absorb m now) = (a, [.parseFailure (failureOf a.settings m e)]) := by
  show a.absorb m now = _
  rw [absorb, h]

/-- What becomes of an accumulator when it emits batches and nothing else. -/
structure Seals (a : Accumulator) (r : Accumulator × List Emission) : Prop where
  reader : r.1.reader = a.reader
  settings : r.1.settings = a.settings
  batches : ∀ u ∈ r.2, u.isParseFailure = false

theorem Seals.silent {a' : Accumulator} (hreader : a'.reader = a.reader)
    (hsettings : a'.settings = a.settings) : a.Seals (a', []) := by
  refine ⟨hreader, hsettings, ?_⟩
  intro u hu
  cases hu

theorem seals_addRecord (a : Accumulator) (m : Message) (now : Nat) (g : Group) (r : Record) :
    a.Seals (a.addRecord m now g r) := by
  unfold addRecord
  dsimp only
  split
  · split
    · refine ⟨rfl, rfl, ?_⟩
      intro u hu
      rw [List.mem_singleton.mp hu]
      rfl
    · exact .silent rfl rfl
  · exact .silent rfl rfl

theorem seals_addRecords (a : Accumulator) (m : Message) (now : Nat) (common : Group)
    (rs : List Record) : a.Seals (a.addRecords m now common rs) := by
  induction rs generalizing a with
  | nil => exact .silent rfl rfl
  | cons r rs ih =>
    have hfirst := a.seals_addRecord m now { common with schema := r.schema } r
    have hrest := ih (a.addRecord m now { common with schema := r.schema } r).1
    refine ⟨hrest.reader.trans hfirst.reader, hrest.settings.trans hfirst.settings, ?_⟩
    intro u hu
    rcases List.mem_append.mp hu with hu | hu
    · exact hfirst.batches u hu
    · exact hrest.batches u hu

theorem sealAll_batches (s : BatchSettings) (p : Pending) :
    ∀ u ∈ Pending.sealAll s p, u.isParseFailure = false := by
  intro u hu
  obtain ⟨x, -, rfl⟩ := List.mem_map.mp hu
  rfl

/-- A call that takes in nothing unreadable emits batches only. -/
theorem seals_act (a : Accumulator) (h : c.isReadable a.reader = true) : a.Seals (a.act c) := by
  cases c with
  | absorb m now =>
    show a.Seals (a.absorb m now)
    unfold absorb
    cases hread : a.reader m.payload with
    | ok rs => exact a.seals_addRecords m now _ rs
    | error e =>
      rw [Call.isReadable, Call.unread?, hread] at h
      cases h
  | takeExpired now => exact ⟨rfl, rfl, sealAll_batches a.settings _⟩
  | flushAll => exact ⟨rfl, rfl, sealAll_batches a.settings a.pending⟩
  | discard => exact .silent rfl rfl

/-- A call that takes in a message that cannot be read emits its failure and changes nothing. -/
theorem act_unreadable (h : c.isReadable a.reader = false) :
    ∃ m now e, c = .absorb m now ∧ a.reader m.payload = .error e ∧
      a.act c = (a, [.parseFailure (failureOf a.settings m e)]) := by
  cases hunread : c.unread? a.reader with
  | none =>
    rw [Call.isReadable, hunread] at h
    cases h
  | some m =>
    obtain ⟨now, e, rfl, hread⟩ := Call.unread?_eq_some hunread
    exact ⟨m, now, e, rfl, hread, absorb_error hread now⟩

/-! ## Whole runs -/

theorem length_outputs (a : Accumulator) (cs : List Call) : (a.outputs cs).length = cs.length := by
  induction cs generalizing a with
  | nil => rfl
  | cons c cs ih => rw [outputs, List.length_cons, List.length_cons, ih]

theorem filter_unreadable_cons {reader : RecordReader} (hc : c.isReadable reader = false)
    (cs : List Call) :
    (c :: cs).filter (Call.isReadable reader) = cs.filter (Call.isReadable reader) :=
  List.filter_cons_of_neg (by simp [hc])

theorem after_cons (a : Accumulator) (c : Call) (cs : List Call) :
    a.after (c :: cs) = (a.act c).1.after cs := rfl

/-- Without the messages that cannot be read a run ends where it ends with them. -/
theorem after_readable (a : Accumulator) (cs : List Call) :
    a.after (cs.filter (Call.isReadable a.reader)) = a.after cs := by
  induction cs generalizing a with
  | nil => rfl
  | cons c cs ih =>
    cases hc : c.isReadable a.reader with
    | true =>
      have hrest := ih (a.act c).1
      rw [(a.seals_act hc).reader] at hrest
      rw [List.filter_cons_of_pos hc, after_cons, after_cons, hrest]
    | false =>
      obtain ⟨m, now, e, -, -, hact⟩ := act_unreadable hc
      rw [filter_unreadable_cons hc, after_cons, hact, ih]

/-- Each other call emits what it emits without the messages that cannot be read. -/
theorem outputs_readable (a : Accumulator) (cs : List Call) :
    (cs.zip (a.outputs cs)).filter (fun x => x.1.isReadable a.reader) =
      (cs.filter (Call.isReadable a.reader)).zip
        (a.outputs (cs.filter (Call.isReadable a.reader))) := by
  induction cs generalizing a with
  | nil => rfl
  | cons c cs ih =>
    rw [outputs, List.zip_cons_cons]
    cases hc : c.isReadable a.reader with
    | true =>
      have hrest := ih (a.act c).1
      rw [(a.seals_act hc).reader] at hrest
      rw [List.filter_cons, if_pos hc, hrest, List.filter_cons_of_pos hc, outputs,
        List.zip_cons_cons]
    | false =>
      obtain ⟨m, now, e, -, -, hact⟩ := act_unreadable hc
      rw [List.filter_cons, if_neg (by simp [hc]), filter_unreadable_cons hc, hact, ih]

/-- Each call on its own: batches only, or one failure only. -/
theorem outputs_apart (a : Accumulator) (cs : List Call) :
    ∀ x ∈ cs.zip (a.outputs cs),
      (x.1.isReadable a.reader = true ∧ ∀ u ∈ x.2, u.isParseFailure = false) ∨
      ∃ m now e, x.1 = .absorb m now ∧ a.reader m.payload = .error e ∧
        x.2 = [.parseFailure (failureOf a.settings m e)] := by
  induction cs generalizing a with
  | nil =>
    intro x hx
    cases hx
  | cons c cs ih =>
    intro x hx
    rw [outputs, List.zip_cons_cons] at hx
    cases hc : c.isReadable a.reader with
    | true =>
      have hseals := a.seals_act hc
      rcases List.mem_cons.mp hx with rfl | hx
      · exact .inl ⟨hc, hseals.batches⟩
      · have hrest := ih (a.act c).1 x hx
        rw [hseals.reader, hseals.settings] at hrest
        exact hrest
    | false =>
      obtain ⟨m, now, e, hcall, hread, hact⟩ := act_unreadable hc
      rw [hact] at hx
      rcases List.mem_cons.mp hx with rfl | hx
      · exact .inr ⟨m, now, e, hcall, hread, rfl⟩
      · exact ih a x hx

/-- The batches, with the messages that cannot be read and without them, are the same. -/
theorem batches_readable (a : Accumulator) (cs : List Call) :
    (a.outputs cs).flatten.filter (fun u => !u.isParseFailure) =
      (a.outputs (cs.filter (Call.isReadable a.reader))).flatten := by
  induction cs generalizing a with
  | nil => rfl
  | cons c cs ih =>
    rw [outputs, List.flatten_cons, List.filter_append]
    cases hc : c.isReadable a.reader with
    | true =>
      have hseals := a.seals_act hc
      have hrest := ih (a.act c).1
      rw [hseals.reader] at hrest
      have hfirst : (a.act c).2.filter (fun u => !u.isParseFailure) = (a.act c).2 := by
        apply List.filter_eq_self.mpr
        intro u hu
        rw [hseals.batches u hu]
        rfl
      rw [hfirst, hrest, List.filter_cons_of_pos hc, outputs, List.flatten_cons]
    | false =>
      obtain ⟨m, now, e, -, -, hact⟩ := act_unreadable hc
      rw [filter_unreadable_cons hc, hact, ih]
      rfl

/-- A message that cannot be read disturbs nothing else.  From any accumulator, any calls leave
behind what they leave behind without such messages, and each of the other calls emits what it emits
without them, so the batches are the same ones in the same order.  The call for such a message emits
its parse failure and nothing else, and no other call emits one.  An array of records in which one
item is no object is such a message. -/
theorem unreadable_messages_disturb_nothing (a : Accumulator) (cs : List Call) :
    let readable := cs.filter (Call.isReadable a.reader)
    a.after cs = a.after readable ∧
    (a.outputs cs).length = cs.length ∧
    (cs.zip (a.outputs cs)).filter (fun x => x.1.isReadable a.reader) =
      readable.zip (a.outputs readable) ∧
    (∀ x ∈ cs.zip (a.outputs cs),
      (x.1.isReadable a.reader = true ∧ ∀ u ∈ x.2, u.isParseFailure = false) ∨
      ∃ m now e, x.1 = .absorb m now ∧ a.reader m.payload = .error e ∧
        x.2 = [.parseFailure (failureOf a.settings m e)]) ∧
    (a.outputs cs).flatten.filter (fun u => !u.isParseFailure) = (a.outputs readable).flatten ∧
    (a.reader = Record.read → ∀ m octets vs, m.payload = some octets →
      Json.read octets = .ok (.array vs) → (∃ v ∈ vs, v.kind ≠ .object) →
      ∃ e, Record.read m.payload = .error e ∧
        ∀ now, a.act (.absorb m now) = (a, [.parseFailure (failureOf a.settings m e)])) := by
  intro readable
  refine ⟨(a.after_readable cs).symm, a.length_outputs cs, a.outputs_readable cs,
    a.outputs_apart cs, a.batches_readable cs, ?_⟩
  intro hreader m octets vs hpayload hread hvs
  obtain ⟨e, he⟩ := Record.read_error_of_array hread hvs
  rw [← hpayload] at he
  refine ⟨e, he, ?_⟩
  intro now
  apply absorb_error
  rw [hreader, he]

/-- A record, an array in which a number follows a record, and a record that fills the batch. -/
def halfReadable : List Call :=
  [.absorb ⟨⟨"t", 0⟩, 0, none, some [123, 125], none, []⟩ 0,
    .absorb ⟨⟨"t", 0⟩, 1, none, some [91, 123, 125, 44, 49, 93], none, []⟩ 1,
    .absorb ⟨⟨"t", 0⟩, 2, none, some [123, 125], none, []⟩ 2]

theorem unreadable_messages_disturb_nothing_halfReadable :
    (halfReadable.filter (Call.isReadable Record.read)).length = 2 ∧
      (∃ e, Record.read (some [91, 123, 125, 44, 49, 93]) = .error e ∧
        ((empty { maxRecords := 2 }).act
          (.absorb ⟨⟨"t", 0⟩, 1, none, some [91, 123, 125, 44, 49, 93], none, []⟩ 1)).2.length = 1) ∧
      (((empty { maxRecords := 2 }).outputs halfReadable).flatten.filter
        (fun u => !u.isParseFailure)).map (·.records.length) = [2] := by
  have hall := unreadable_messages_disturb_nothing (empty { maxRecords := 2 }) halfReadable
  obtain ⟨-, -, -, -, hbatches, hsplit⟩ := hall
  obtain ⟨e, he, hact⟩ := hsplit rfl ⟨⟨"t", 0⟩, 1, none, some [91, 123, 125, 44, 49, 93], none, []⟩
    [91, 123, 125, 44, 49, 93] [.object [], .integer 1] rfl rfl
    ⟨.integer 1, by simp, by decide⟩
  refine ⟨by decide +kernel, ⟨e, he, ?_⟩, ?_⟩
  · rw [hact 1]
    rfl
  · rw [hbatches]
    decide +kernel

end Accumulator
end RecordIntake
