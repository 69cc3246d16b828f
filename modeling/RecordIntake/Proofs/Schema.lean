import Mathlib.Data.List.Infix
import RecordIntake.Proofs.Cutting

/-!
Batches tell schemas apart by the octets that stand for them.  A name and a type name each end with
a zero octet, and type names have none, so the octets of a schema can be read back from the left as
long as it is clear where a name ends.  That is not so for a name in which the name of a type stands
between two zeros: it reads like several fields.  Records with such a name share a batch with
records of another schema.  For all other names different schemas have different octets, and records
with different schemas stay apart unless the fingerprints of these octets agree by chance.
-/
namespace RecordIntake

/-! ## Text -/

namespace Text.Utf8

theorem encodeChar_eq (c : Char) : encodeChar c = String.utf8EncodeChar c := by
  have hc : c.val.toNat < 0x110000 := by
    have hvalid := c.valid
    simp only [UInt32.isValidChar, Nat.isValidChar] at hvalid
    omega
  simp only [encodeChar, String.utf8EncodeChar, Char.toNat]
  generalize c.val.toNat = n at hc
  by_cases h₁ : n < 0x80
  · rw [if_pos h₁, if_pos (by omega)]
  · rw [if_neg h₁, if_neg (show ¬ n ≤ 127 by omega)]
    by_cases h₂ : n < 0x800
    · rw [if_pos h₂, if_pos (show n ≤ 2047 by omega), show 0xC0 + n / 64 = n / 64 % 32 + 192 by omega,
        Nat.add_comm 0x80]
    · rw [if_neg h₂, if_neg (show ¬ n ≤ 2047 by omega)]
      by_cases h₃ : n < 0x10000
      · rw [if_pos h₃, if_pos (show n ≤ 65535 by omega),
          show 0xE0 + n / 4096 = n / 4096 % 16 + 224 by omega, Nat.add_comm 0x80, Nat.add_comm 0x80]
      · rw [if_neg h₃, if_neg (show ¬ n ≤ 65535 by omega),
          show 0xF0 + n / 262144 = n / 262144 % 8 + 240 by omega, Nat.add_comm 0x80,
          Nat.add_comm 0x80, Nat.add_comm 0x80]

theorem encode_append (cs ds : List Char) : encode (cs ++ ds) = encode cs ++ encode ds :=
  List.flatMap_append

/-- Octets that are well formed are those of one text only. -/
theorem encode_injective : Function.Injective encode := by
  have hencode : ∀ cs, cs.utf8Encode = (encode cs).toByteArray := fun cs => by
    rw [List.utf8Encode, encode, funext encodeChar_eq]
  have hstarts : ∀ cs ds, encode cs = encode ds → cs <+: ds := fun cs ds h => by
    refine List.isPrefix_of_utf8Encode_append_eq_utf8Encode ByteArray.empty ?_
    rw [ByteArray.append_empty, hencode, hencode, h]
  intro cs ds h
  exact (hstarts cs ds h).eq_of_length_le (hstarts ds cs h.symm).length_le

end Text.Utf8

theorem Json.Kind.zero_not_mem (k : Kind) : '\x00' ∉ k.name.toList := by
  cases k <;> decide

theorem Json.Kind.name_injective {k k' : Kind} (h : k.name = k'.name) : k = k' := by
  cases k <;> cases k' <;> first | rfl | exact absurd h (by decide)

/-! ## The octets of a schema -/

/-- Where nothing before a zero is a zero, the other text does not end earlier. -/
theorem prefix_of_zero {us vs xs ys : List Char} (hus : '\x00' ∉ us)
    (h : us ++ '\x00' :: xs = vs ++ '\x00' :: ys) : us ++ ['\x00'] <+: vs ++ ['\x00'] := by
  obtain ⟨as, rfl, hrest⟩ | ⟨bs, rfl, hrest⟩ := List.append_eq_append_iff.mp h
  · rw [List.append_assoc, List.prefix_append_right_inj]
    cases as with
    | nil => exact List.prefix_rfl
    | cons c as =>
      obtain ⟨rfl, -⟩ := List.cons.inj hrest
      exact ⟨as ++ ['\x00'], rfl⟩
  · cases bs with
    | nil => rw [List.append_nil]
    | cons c bs =>
      obtain ⟨rfl, -⟩ := List.cons.inj hrest
      exact absurd (List.mem_append_right _ List.mem_cons_self) hus

theorem append_zero_inj {us vs xs ys : List Char} (hus : '\x00' ∉ us) (hvs : '\x00' ∉ vs)
    (h : us ++ '\x00' :: xs = vs ++ '\x00' :: ys) : us = vs ∧ xs = ys := by
  have hle := (prefix_of_zero hus h).length_le
  have hge := (prefix_of_zero hvs h.symm).length_le
  simp only [List.length_append, List.length_singleton] at hle hge
  obtain ⟨heq, hrest⟩ := List.append_inj h (by omega)
  exact ⟨heq, (List.cons.inj hrest).2⟩

namespace Schema

/-- No name of a type stands in the name between two zeros, or between a zero and the end. -/
def IsSeparable (name : String) : Prop :=
  ∀ k : Json.Kind, ¬ '\x00' :: k.name.toList ++ ['\x00'] <:+: name.toList ++ ['\x00']

/-- Names without zeros are separable. -/
theorem isSeparable_of_zero_not_mem {name : String} (h : '\x00' ∉ name.toList) :
    IsSeparable name := by
  rintro k ⟨before, behind, hname⟩
  have hends : name.toList ++ '\x00' :: [] =
      before ++ '\x00' :: (k.name.toList ++ '\x00' :: behind) := by
    rw [← hname]
    simp
  have hlength := congrArg List.length hends
  have hle := (prefix_of_zero h hends).length_le
  simp only [List.length_append, List.length_cons, List.length_nil] at hlength hle
  omega

/-- The text of which the octets of a schema are made. -/
def chars (s : Schema) : List Char :=
  s.flatMap fun (name, kind) => name.toList ++ '\x00' :: (kind.name.toList ++ ['\x00'])

theorem chars_cons (name : String) (kind : Json.Kind) (s : Schema) :
    chars ((name, kind) :: s) =
      name.toList ++ '\x00' :: (kind.name.toList ++ '\x00' :: chars s) := by
  simp [chars]

theorem octets_eq (s : Schema) : s.octets = Text.Utf8.encode s.chars := by
  induction s with
  | nil => rfl
  | cons x s ih =>
    obtain ⟨name, kind⟩ := x
    have hzero : ∀ cs, Text.Utf8.encode ('\x00' :: cs) = 0 :: Text.Utf8.encode cs := fun _ => rfl
    rw [chars_cons, Text.Utf8.encode_append, hzero, Text.Utf8.encode_append, hzero, ← ih]
    simp [octets, Text.Utf8.octets]

/-- A name does not go on behind the zero that ends it elsewhere, because then the name of a type
would come next. -/
theorem length_name_le {name name' : String} {kind kind' : Json.Kind} {rest rest' : List Char}
    (hname : IsSeparable name)
    (h : name.toList ++ '\x00' :: (kind.name.toList ++ '\x00' :: rest) =
      name'.toList ++ '\x00' :: (kind'.name.toList ++ '\x00' :: rest')) :
    name.toList.length ≤ name'.toList.length := by
  obtain ⟨as, has, -⟩ | ⟨bs, hbs, hrest⟩ := List.append_eq_append_iff.mp h
  · rw [has, List.length_append]
    exact Nat.le_add_right ..
  · cases bs with
    | nil => exact Nat.le_of_eq (congrArg List.length (hbs.trans (List.append_nil _)))
    | cons c bs =>
      obtain ⟨rfl, htail⟩ := List.cons.inj hrest
      have hstarts := prefix_of_zero kind'.zero_not_mem htail
      refine absurd ?_ (hname kind')
      rw [hbs, List.append_assoc]
      exact (List.cons_prefix_cons.mpr ⟨rfl, hstarts⟩).isInfix.trans (List.suffix_append ..).isInfix

theorem chars_injective {s s' : Schema} (hs : ∀ x ∈ s, IsSeparable x.1)
    (hs' : ∀ x ∈ s', IsSeparable x.1) (h : s.chars = s'.chars) : s = s' := by
  induction s generalizing s' with
  | nil =>
    cases s' with
    | nil => rfl
    | cons x s' =>
      rw [chars_cons] at h
      simp [chars] at h
  | cons x s ih =>
    obtain ⟨name, kind⟩ := x
    cases s' with
    | nil =>
      rw [chars_cons] at h
      simp [chars] at h
    | cons x' s' =>
      obtain ⟨name', kind'⟩ := x'
      obtain ⟨hname, hs⟩ := List.forall_mem_cons.mp hs
      obtain ⟨hname', hs'⟩ := List.forall_mem_cons.mp hs'
      rw [chars_cons, chars_cons] at h
      have hlength := Nat.le_antisymm (length_name_le hname h) (length_name_le hname' h.symm)
      obtain ⟨hnames, hrest⟩ := List.append_inj h hlength
      obtain ⟨hkinds, hrest⟩ :=
        append_zero_inj kind.zero_not_mem kind'.zero_not_mem (List.cons.inj hrest).2
      rw [String.toList_inj.mp hnames, Json.Kind.name_injective (String.toList_inj.mp hkinds),
        ih hs hs' hrest]

/-- Different schemas have different octets, if it is clear where their names end. -/
theorem octets_injective {s s' : Schema} (hs : ∀ x ∈ s, IsSeparable x.1)
    (hs' : ∀ x ∈ s', IsSeparable x.1) (h : s.octets = s'.octets) : s = s' := by
  rw [octets_eq, octets_eq] at h
  exact chars_injective hs hs' (Text.Utf8.encode_injective h)

theorem isSeparable_ofFields {fields : Json.Fields} (h : ∀ x ∈ fields, IsSeparable x.1) :
    ∀ x ∈ ofFields fields, IsSeparable x.1 := by
  intro x hx
  obtain ⟨y, hy, rfl⟩ := List.mem_map.mp hx
  exact h y hy

end Schema

/-! ## Records of one batch -/

theorem Record.ofValue_ok {v : Json.Value} {r : Record} (h : ofValue v = .ok r) :
    r = ofFields r.fields := by
  cases v with
  | object fields =>
    obtain rfl := Except.ok.inj h
    rfl
  | _ => cases h

theorem Record.ofValues_ok {vs : List Json.Value} {rs : List Record} (h : ofValues vs = .ok rs) :
    ∀ r ∈ rs, r = ofFields r.fields := by
  induction vs generalizing rs with
  | nil =>
    obtain rfl := Except.ok.inj h
    exact fun r hr => by cases hr
  | cons v vs ih =>
    unfold ofValues at h
    split at h
    · cases h
    · rename_i r hr
      split at h
      · cases h
      · rename_i rs' hrs
        obtain rfl := Except.ok.inj h
        exact List.forall_mem_cons.mpr ⟨ofValue_ok hr, ih hrs⟩

/-- The schema of a record that was read is that of its fields. -/
theorem Record.read_ok {payload : Option (List UInt8)} {rs : List Record}
    (h : read payload = .ok rs) : ∀ r ∈ rs, r = ofFields r.fields := by
  unfold read at h
  split at h
  · cases h
  · cases h
  · split at h
    · cases h
    · exact ofValues_ok h
    · exact ofValues_ok h

theorem Message.record_of_read {m : Message} {e : Entry} (h : .record e ∈ m.pieces Record.read) :
    e.record = Record.ofFields e.record.fields := by
  unfold Message.pieces at h
  split at h
  · rename_i rs hrs
    obtain ⟨e', he', heq⟩ := List.mem_map.mp h
    obtain rfl := Piece.record.inj heq
    have hmem : e'.record ∈ (m.entries rs).map (·.record) := List.mem_map.mpr ⟨e', he', rfl⟩
    rw [m.map_record_entries] at hmem
    exact Record.read_ok hrs _ hmem
  · simp at h

namespace Accumulator

theorem Call.record_of_read {cs : List Call} {e : Entry}
    (h : .record e ∈ cs.flatMap (Call.pieces Record.read)) :
    e.record = Record.ofFields e.record.fields := by
  obtain ⟨c, -, hc⟩ := List.mem_flatMap.mp h
  cases c with
  | absorb m now => exact Message.record_of_read hc
  | takeExpired now => cases hc
  | flushAll => cases hc
  | discard => cases hc

/-- The objects in a batch have one and the same fingerprint. -/
theorem fingerprint_of_batch {s : BatchSettings} {cs : List Call} {b : SealedBatch}
    (hb : .batch b ∈ ((empty s).outputs cs).flatten) :
    ∃ schema, ∀ fields, .object fields ∈ b.records →
      (Schema.ofFields fields).fingerprint = schema := by
  obtain ⟨-, -, contents, hmade, hcuts, -⟩ := outputs_start Record.read s cs
  obtain ⟨g, es, hes, hrecords⟩ := exists_batchesOf (List.rel_flatten hmade) hb
  refine ⟨g.schema, fun fields hfields => ?_⟩
  rw [hrecords] at hfields
  obtain ⟨e, he, hvalue⟩ := List.mem_map.mp hfields
  have hgroup : e.group s = g := by
    obtain ⟨xs, -, rfl⟩ := List.mem_map.mp (List.mem_filter.mp hes).1
    exact (mem_recordsOf.mp he).2
  have hmem : .record e ∈ cs.flatMap (Call.pieces Record.read) := by
    rw [batchesOf_flatten, hcuts] at hes
    have hcut := List.mem_flatten.mpr ⟨es, hes, he⟩
    exact (Gathering.empty.mem_cuts Record.read s g cs hcut).resolve_left List.not_mem_nil
  rw [← hgroup, Entry.group, Call.record_of_read hmem]
  obtain rfl : e.record.fields = fields := by
    simpa [Record.value] using hvalue
  rfl

/-- Records with different schemas are kept apart, if it is clear where the names of their fields
end. Then the octets of the schemas differ, and unless those octets have one fingerprint by chance,
the records never share a batch. -/
theorem different_schemas_kept_apart (s : BatchSettings) (cs : List Call) {a b : Json.Fields}
    (ha : ∀ x ∈ a, Schema.IsSeparable x.1) (hb : ∀ x ∈ b, Schema.IsSeparable x.1)
    (hne : Schema.ofFields a ≠ Schema.ofFields b) :
    (Schema.ofFields a).octets ≠ (Schema.ofFields b).octets ∧
      (((Schema.ofFields a).octets ≠ (Schema.ofFields b).octets →
          (Schema.ofFields a).fingerprint ≠ (Schema.ofFields b).fingerprint) →
        (Schema.ofFields a).fingerprint ≠ (Schema.ofFields b).fingerprint ∧
        ∀ batch, .batch batch ∈ ((empty s).outputs cs).flatten →
          .object a ∈ batch.records → .object b ∉ batch.records) := by
  have hoctets : (Schema.ofFields a).octets ≠ (Schema.ofFields b).octets := fun h =>
    hne (Schema.octets_injective (Schema.isSeparable_ofFields ha) (Schema.isSeparable_ofFields hb) h)
  refine ⟨hoctets, fun hhash => ⟨hhash hoctets, fun batch hbatch hmem hmem' => ?_⟩⟩
  obtain ⟨schema, hschema⟩ := fingerprint_of_batch hbatch
  exact hhash hoctets ((hschema a hmem).trans (hschema b hmem').symm)

/-- Two objects that differ in the type of a field, in the name of which there is a zero. -/
def twoTypes : List UInt8 :=
  Text.Utf8.octets "[\x7b\"a\\u0000b\":1\x7d,\x7b\"a\\u0000b\":\"x\"\x7d]"

theorem different_schemas_kept_apart_twoTypes :
    let a : Json.Fields := [("a\x00b", .integer 1)]
    let b : Json.Fields := [("a\x00b", .string "x")]
    (Record.read (some twoTypes)).toOption.map
        (fun rs => rs.map fun r => Schema.ofFields r.fields) =
          some [Schema.ofFields a, Schema.ofFields b] ∧
      Schema.ofFields a ≠ Schema.ofFields b ∧
      (Schema.ofFields a).fingerprint ≠ (Schema.ofFields b).fingerprint ∧
      ∀ batch,
        .batch batch ∈ ((empty {}).outputs
          [.absorb ⟨⟨"events", 0⟩, 0, none, some twoTypes, none, []⟩ 0, .flushAll]).flatten →
        .object a ∈ batch.records → .object b ∉ batch.records := by
  intro a b
  have hname : Schema.IsSeparable "a\x00b" := by
    intro k
    cases k <;> decide
  have ha : ∀ x ∈ a, Schema.IsSeparable x.1 := fun x hx => by
    rw [List.mem_singleton.mp hx]
    exact hname
  have hb : ∀ x ∈ b, Schema.IsSeparable x.1 := fun x hx => by
    rw [List.mem_singleton.mp hx]
    exact hname
  have hne : Schema.ofFields a ≠ Schema.ofFields b := by decide
  have hfingerprints : (Schema.ofFields a).fingerprint ≠ (Schema.ofFields b).fingerprint := by
    decide +kernel
  have hapart := different_schemas_kept_apart {}
    [.absorb ⟨⟨"events", 0⟩, 0, none, some twoTypes, none, []⟩ 0, .flushAll] ha hb hne
  exact ⟨by decide +kernel, hne, hapart.2 fun _ => hfingerprints⟩

/-- An object with two fields, and one with a single field whose name reads like the first of them
with its type and the second. -/
def twoFieldsInOne : List UInt8 :=
  Text.Utf8.octets
    "[\x7b\"a\":1,\"b\":\"x\"\x7d,\x7b\"a\\u0000number\\u0000b\":\"x\"\x7d]"

/-- The octets of two different schemas are the same, and their records get into one batch. -/
theorem zeros_in_name_merge_schemas :
    let a : Schema := [("a", .number), ("b", .string)]
    let b : Schema := [("a\x00number\x00b", .string)]
    (Record.read (some twoFieldsInOne)).toOption.map
        (fun rs => rs.map fun r => Schema.ofFields r.fields) = some [a, b] ∧
      ("a", .number) ∈ a ∧ ("a", .number) ∉ b ∧ a.octets = b.octets ∧
      ((empty { maxRecords := 2 }).absorb
        ⟨⟨"events", 0⟩, 0, none, some twoFieldsInOne, none, []⟩ 0).2.map
          (fun u => u.metadata.recordCount) = [2] := by
  intro a b
  exact ⟨by decide +kernel, by decide, by decide, by decide +kernel, by decide +kernel⟩

end Accumulator
end RecordIntake
