import RecordIntake.Proofs.Conservation
import RecordIntake.Proofs.ReadBack
import RecordIntake.Sink.JsonLines

/-!
Each unit is one line, and the line tells all of it.  No character of a written value is the end of
a line, so the lines are told apart; a line is a JSON object that is read back; and from its fields
the unit is put together again.
-/
namespace RecordIntake

open Text.Utf8 (encode)

/-! ## Ends of lines -/

namespace Json

theorem newline_not_mem_toDigits (n : Nat) : '\n' ∉ Nat.toDigits 10 n := by
  intro h
  have hdigit := Nat.isDigit_of_mem_toDigits (by decide) (by decide) h
  cases hdigit

theorem newline_not_mem_escapeChar (c : Char) : '\n' ∉ escapeChar c := by
  have hcontrol : ∀ m : Fin 32,
      '\n' ∉ ['\\', 'u', '0', '0', Text.Hex.digit (m / 16), Text.Hex.digit (m % 16)] := by decide
  unfold escapeChar
  split
  · decide
  split
  · decide
  dsimp only
  split
  · decide
  split
  · decide
  split
  · decide
  split
  · decide
  split
  · decide
  split
  · rename_i hc
    exact hcontrol ⟨_, hc⟩
  · rename_i hten _ _ _
    intro h
    rw [List.mem_singleton] at h
    subst h
    exact hten rfl

theorem newline_not_mem_stringChars (s : String) : '\n' ∉ stringChars s := by
  intro h
  rcases List.mem_append.mp h with h | h
  · rcases List.mem_cons.mp h with h | h
    · cases h
    · obtain ⟨c, -, hc⟩ := List.mem_flatMap.mp h
      exact newline_not_mem_escapeChar c hc
  · cases List.mem_singleton.mp h

theorem newline_not_mem_integerChars (n : Int) : '\n' ∉ integerChars n := by
  unfold integerChars
  split
  · intro h
    rcases List.mem_cons.mp h with h | h
    · cases h
    · exact newline_not_mem_toDigits _ h
  · exact newline_not_mem_toDigits _

theorem newline_not_mem_layoutDigits {ds : List Char} (h : '\n' ∉ ds) (e : Int) :
    '\n' ∉ layoutDigits ds e := by
  have htake : ∀ n, '\n' ∉ ds.take n := fun n hmem => h (List.mem_of_mem_take hmem)
  have hdrop : ∀ n, '\n' ∉ ds.drop n := fun n hmem => h (List.mem_of_mem_drop hmem)
  have hsign : '\n' ≠ if e < 0 then '-' else '+' := by split <;> decide
  unfold layoutDigits
  split
  · split
    · simp [h]
    · dsimp only
      split <;> simp [htake, hdrop]
  · rcases ds with _ | ⟨d, _ | ⟨d', ds⟩⟩
    · simp [newline_not_mem_toDigits, hsign]
    · simpa [newline_not_mem_toDigits, hsign] using h
    · simpa [newline_not_mem_toDigits, hsign] using h

theorem newline_not_mem_doubleChars (x : Binary64) : '\n' ∉ doubleChars x := by
  have hmagnitude : '\n' ∉ magnitudeChars x := by
    unfold magnitudeChars
    split
    · decide
    · apply newline_not_mem_layoutDigits
      intro h
      have hdigits := (List.dropWhile_sublist _).subset (List.mem_reverse.mp h)
      exact newline_not_mem_toDigits _ (List.mem_reverse.mp hdigits)
  unfold doubleChars
  split
  · simpa using hmagnitude
  · exact hmagnitude

mutual

/-- No written value has an end of a line in it. -/
theorem newline_not_mem_chars : ∀ v : Value, '\n' ∉ v.chars
  | .null => by decide
  | .boolean true => by decide
  | .boolean false => by decide
  | .integer n => newline_not_mem_integerChars n
  | .double x => newline_not_mem_doubleChars x
  | .string s => newline_not_mem_stringChars s
  | .array vs => by simpa [Value.chars] using newline_not_mem_itemsChars vs
  | .object fs => by simpa [Value.chars] using newline_not_mem_fieldsChars fs

theorem newline_not_mem_itemsChars : ∀ vs : List Value, '\n' ∉ itemsChars vs
  | [] => by simp [itemsChars]
  | v :: vs => by simp [itemsChars, newline_not_mem_chars v, newline_not_mem_moreItemsChars vs]

theorem newline_not_mem_moreItemsChars : ∀ vs : List Value, '\n' ∉ moreItemsChars vs
  | [] => by simp [moreItemsChars]
  | v :: vs => by simp [moreItemsChars, newline_not_mem_chars v, newline_not_mem_moreItemsChars vs]

theorem newline_not_mem_fieldsChars : ∀ fs : List (String × Value), '\n' ∉ fieldsChars fs
  | [] => by simp [fieldsChars]
  | (n, v) :: fs => by
    simp [fieldsChars, newline_not_mem_stringChars, newline_not_mem_chars v,
      newline_not_mem_moreFieldsChars fs]

theorem newline_not_mem_moreFieldsChars : ∀ fs : List (String × Value), '\n' ∉ moreFieldsChars fs
  | [] => by simp [moreFieldsChars]
  | (n, v) :: fs => by
    simp [moreFieldsChars, newline_not_mem_stringChars, newline_not_mem_chars v,
      newline_not_mem_moreFieldsChars fs]

end

end Json

theorem Text.Utf8.newline_not_mem_encode {cs : List Char} (h : '\n' ∉ cs) : 10 ∉ encode cs := by
  intro hmem
  obtain ⟨c, hc, hten⟩ := List.mem_flatMap.mp hmem
  have hcode : (10 : UInt8).toNat = 10 := rfl
  have hoctet := toNat_of_mem_encodeChar hten
  have hnewline : c.toNat = '\n'.toNat := by
    show c.toNat = 10
    omega
  exact h (Char.toNat_inj.mp hnewline ▸ hc)

/-! ## From fields to units -/

namespace Json

def Value.fields? : Value → Option Fields
  | .object fs => some fs
  | _ => none

def Value.items? : Value → Option (List Value)
  | .array vs => some vs
  | _ => none

def Value.string? : Value → Option String
  | .string s => some s
  | _ => none

def Value.integer? : Value → Option Int
  | .integer n => some n
  | _ => none

/-- What may be missing. -/
def Value.orNull {α : Type} (read : Value → Option α) : Value → Option (Option α)
  | .null => some none
  | v => (read v).map some

def Fields.read? {α : Type} (fs : Fields) (name : String) (read : Value → Option α) : Option α :=
  (fs.get? name).bind read

/-- In which order fields of different names are written does not matter to who looks for one. -/
theorem Fields.read?_insertAll {α : Type} {fs : Fields} (h : (fs.map (·.1)).Nodup) (name : String)
    (read : Value → Option α) : (insertAll [] fs).read? name read = fs.read? name read := by
  rw [read?, get?_insertAll name h, read?]
  cases fs.get? name <;> rfl

/-- Fields that are all strings. -/
def Fields.strings? : Fields → Option (SortedMap String String)
  | [] => some []
  | (n, v) :: fs => do
    let s ← v.string?
    let rest ← strings? fs
    pure ((n, s) :: rest)

theorem Fields.strings?_mapValues (m : SortedMap String String) :
    strings? (SortedMap.mapValues .string m) = some m := by
  induction m with
  | nil => rfl
  | cons e m ih =>
    show (strings? (SortedMap.mapValues .string m)).bind _ = _
    rw [ih]
    rfl

end Json

open Json (Fields Value)

/-- The metadata that an object tells. -/
def UnitMetadata.ofFields? (fs : Fields) : Option UnitMetadata := do
  let topic ← fs.read? "topic" Value.string?
  let partition ← fs.read? "partition" Value.integer?
  let timestamp ← fs.read? "timestamp" (Value.orNull Value.integer?)
  let key ← fs.read? "key" (Value.orNull Value.string?)
  let headers ← fs.read? "header_attributes" Value.fields?
  let headers ← headers.strings?
  let recordCount ← fs.read? "record_count" Value.integer?
  let firstOffset ← fs.read? "first_offset" Value.integer?
  let lastOffset ← fs.read? "last_offset" Value.integer?
  pure ⟨topic, partition, timestamp, key, headers, recordCount.toNat, firstOffset, lastOffset⟩

/-- The unit that an object tells: a batch with its records, or a message that could not be read
with the octets that its hexadecimal digits stand for. -/
def Emission.ofValue? (v : Value) : Option Emission := do
  let fs ← v.fields?
  let metadata ← fs.read? "metadata" Value.fields?
  let metadata ← UnitMetadata.ofFields? metadata
  let relationship ← fs.read? "relationship" Value.string?
  if relationship = "success" then
    let records ← fs.read? "records" Value.items?
    pure (.batch ⟨metadata, records⟩)
  else if relationship = "parse_failure" then
    let reason ← fs.read? "error" Value.string?
    let digits ← fs.read? "raw_hex" Value.string?
    let raw ← Text.Hex.decode digits.toList
    pure (.parseFailure ⟨metadata, reason, raw⟩)
  else none

/-! ## What is written of a unit -/

/-- The numbers of a unit are as great as they may be, and its headers are in order. -/
structure UnitMetadata.Fits (m : UnitMetadata) : Prop where
  partition : Json.IsInteger m.partition
  timestamp : ∀ t ∈ m.timestamp, Json.IsInteger t
  headers : m.headers.Sorted
  recordCount : m.recordCount < 2 ^ 64
  firstOffset : Json.IsInteger m.firstOffset
  lastOffset : Json.IsInteger m.lastOffset

/-- The fields of the metadata, in the order in which they are written. -/
def UnitMetadata.fields (m : UnitMetadata) : Fields :=
  [("topic", .string m.topic),
    ("partition", .integer m.partition),
    ("timestamp", m.timestamp.elim .null .integer),
    ("key", m.key.elim .null .string),
    ("header_attributes", .object (m.headers.mapValues .string)),
    ("record_count", .ofNat m.recordCount),
    ("first_offset", .integer m.firstOffset),
    ("last_offset", .integer m.lastOffset)]

theorem UnitMetadata.value_eq (m : UnitMetadata) : m.value = .object m.fields := rfl

/-- Header names are in the order that JSON fields are kept in. -/
theorem ascending_of_sorted {m : SortedMap String String} (h : m.Sorted) :
    (SortedMap.mapValues Value.string m).Pairwise (·.1 < ·.1) := by
  refine List.pairwise_map.mpr (h.imp ?_)
  intro a b hlt
  exact compareOfLessAndEq_eq_lt.mp hlt

theorem UnitMetadata.Fits.reads {m : UnitMetadata} (h : m.Fits) (d : Nat) :
    Json.Reads (d + 2) m.value (Value.ofFields m.fields) := by
  have htimestamp : Json.Reads (d + 1) (m.timestamp.elim .null .integer)
      (m.timestamp.elim .null .integer) := by
    cases ht : m.timestamp with
    | none => exact Json.reads_null _
    | some t => exact Json.reads_integer _ (h.timestamp t ht)
  have hkey : Json.Reads (d + 1) (m.key.elim .null .string) (m.key.elim .null .string) := by
    cases m.key with
    | none => exact Json.reads_null _
    | some k => exact Json.reads_string _ k
  have hheaders : Json.Reads (d + 1) (.object (SortedMap.mapValues .string m.headers))
      (.object (SortedMap.mapValues .string m.headers)) := by
    have hobject : Json.Reads (d + 1) (.object (SortedMap.mapValues .string m.headers))
        (Value.ofFields (SortedMap.mapValues .string m.headers)) := by
      apply Json.reads_object_self
      intro f hf
      obtain ⟨e, -, rfl⟩ := List.mem_map.mp hf
      exact Json.reads_string d e.2
    rwa [Json.ofFields_of_ascending (ascending_of_sorted h.headers)] at hobject
  have hcount : Json.IsInteger (Int.ofNat m.recordCount) := by
    have := h.recordCount
    constructor <;> simp only [Int.ofNat_eq_natCast] <;> omega
  apply Json.reads_object_self
  intro f hf
  simp only [List.mem_cons, List.not_mem_nil, or_false] at hf
  rcases hf with rfl | rfl | rfl | rfl | rfl | rfl | rfl | rfl
  · exact Json.reads_string _ m.topic
  · exact Json.reads_integer _ h.partition
  · exact htimestamp
  · exact hkey
  · exact hheaders
  · exact Json.reads_integer _ hcount
  · exact Json.reads_integer _ h.firstOffset
  · exact Json.reads_integer _ h.lastOffset

theorem UnitMetadata.ofFields?_insertAll (m : UnitMetadata) :
    UnitMetadata.ofFields? (Fields.insertAll [] m.fields) = some m := by
  have hnames : (m.fields.map (·.1)).Nodup := by
    show ["topic", "partition", "timestamp", "key", "header_attributes", "record_count",
      "first_offset", "last_offset"].Nodup
    decide
  have htimestamp : m.fields.read? "timestamp" (Value.orNull Value.integer?) = some m.timestamp := by
    show Value.orNull Value.integer? (m.timestamp.elim .null .integer) = _
    cases m.timestamp <;> rfl
  have hkey : m.fields.read? "key" (Value.orNull Value.string?) = some m.key := by
    show Value.orNull Value.string? (m.key.elim .null .string) = _
    cases m.key <;> rfl
  have hheaders : m.fields.read? "header_attributes" Value.fields? =
      some (SortedMap.mapValues .string m.headers) := rfl
  unfold ofFields?
  simp only [Fields.read?_insertAll hnames, htimestamp, hkey, hheaders]
  show (Fields.strings? (SortedMap.mapValues .string m.headers)).bind _ = _
  rw [Fields.strings?_mapValues]
  rfl

namespace Emission

/-- The metadata is within its bounds, and records are such as the reader makes them. -/
structure Fits (e : Emission) : Prop where
  metadata : e.metadata.Fits
  records : ∀ v ∈ e.records, v.WellFormed

/-- No record of the unit holds a double, or is nested so deeply that it cannot be read inside the
two containers that it is written in. -/
def IsRecoverable (e : Emission) : Prop :=
  ∀ v ∈ e.records, v.holdsDouble = false ∧ v.nestsWithin 125 = true

/-- The fields of a unit with the given value in the place of its metadata. -/
def fieldsWith (metadata : Value) : Emission → Fields
  | .batch b =>
    [("relationship", .string "success"), ("metadata", metadata), ("records", .array b.records)]
  | .parseFailure f =>
    [("relationship", .string "parse_failure"), ("metadata", metadata), ("error", .string f.reason),
      ("raw_hex", .string (String.ofList (Text.Hex.encode f.raw)))]

theorem value_eq (e : Emission) : e.value = .object (e.fieldsWith e.metadata.value) := by
  cases e <;> rfl

/-- The fields of a unit as they are read: those of its metadata are in the order of their names. -/
def readFields (e : Emission) : Fields := e.fieldsWith (Value.ofFields e.metadata.fields)

theorem Fits.reads {e : Emission} (h : e.Fits) (hrecoverable : e.IsRecoverable) :
    Json.Reads Json.Reader.maxDepth e.value (Value.ofFields e.readFields) := by
  have hmetadata := h.metadata.reads 124
  have hstring := Json.reads_string 126
  rw [value_eq, readFields]
  apply Json.reads_object
  cases e with
  | batch b =>
    have hrecords : Json.Reads 126 (.array b.records) (.array b.records) := by
      apply Json.reads_array_self
      intro v hv
      obtain ⟨hdouble, hnests⟩ := hrecoverable v hv
      exact (h.records v hv).reads hdouble hnests
    exact .cons ⟨rfl, hstring _⟩ (.cons ⟨rfl, hmetadata⟩ (.cons ⟨rfl, hrecords⟩ .nil))
  | parseFailure f =>
    exact .cons ⟨rfl, hstring _⟩ (.cons ⟨rfl, hmetadata⟩
      (.cons ⟨rfl, hstring _⟩ (.cons ⟨rfl, hstring _⟩ .nil)))

/-- From the fields that are read the unit is put together again. -/
theorem ofValue?_readFields (e : Emission) : ofValue? (Value.ofFields e.readFields) = some e := by
  have hnames : (e.readFields.map (·.1)).Nodup := by
    cases e with
    | batch b =>
      show ["relationship", "metadata", "records"].Nodup
      decide
    | parseFailure f =>
      show ["relationship", "metadata", "error", "raw_hex"].Nodup
      decide
  have hmetadata : e.readFields.read? "metadata" Value.fields? =
      some (Fields.insertAll [] e.metadata.fields) := by
    cases e <;> rfl
  have hfields : (Value.ofFields e.readFields).fields? =
      some (Fields.insertAll [] e.readFields) := rfl
  unfold ofValue?
  simp only [hfields, Option.bind_eq_bind, Option.bind_some, Fields.read?_insertAll hnames,
    hmetadata, UnitMetadata.ofFields?_insertAll]
  cases e with
  | batch b => rfl
  | parseFailure f =>
    have hraw : Text.Hex.decode (String.ofList (Text.Hex.encode f.raw)).toList = some f.raw := by
      rw [String.toList_ofList, Text.Hex.decode_encode]
    show (Text.Hex.decode (String.ofList (Text.Hex.encode f.raw)).toList).bind _ = _
    rw [hraw]
    rfl

/-- The octets of a unit's line, without its end. -/
def lineOctets (e : Emission) : List UInt8 := Text.Utf8.octets e.line

theorem lineOctets_eq (e : Emission) : e.lineOctets = encode e.value.chars := by
  rw [lineOctets, Text.Utf8.octets, line, Value.text, String.toList_ofList]

theorem newline_not_mem_lineOctets (e : Emission) : 10 ∉ e.lineOctets := by
  rw [lineOctets_eq]
  exact Text.Utf8.newline_not_mem_encode (Json.newline_not_mem_chars e.value)

theorem Fits.read_line {e : Emission} (h : e.Fits) (hrecoverable : e.IsRecoverable) :
    Json.read e.lineOctets = .ok (Value.ofFields e.readFields) := by
  have hvalue := h.reads hrecoverable [] trivial
  rw [List.append_nil, ← lineOctets_eq] at hvalue
  rw [Json.read, hvalue]
  rfl

end Emission

/-! ## The writer -/

namespace Writer

variable {w : Writer}

/-- A writer has room for some octets. -/
def HasRoom (w : Writer) (n : Nat) : Prop := ∀ room ∈ w.room, n ≤ room

/-- What becomes of a writer that has room. -/
def append (w : Writer) (octets : List UInt8) : Writer :=
  { w with written := w.written ++ octets, room := w.room.map (· - octets.length) }

theorem write_eq {octets : List UInt8} (h : w.HasRoom octets.length) :
    w.write octets = (w.append octets, none) := by
  unfold write append
  cases hroom : w.room with
  | none => rfl
  | some room =>
    have hle : octets.length ≤ room := h room hroom
    dsimp only
    rw [if_pos hle, List.take_of_length_le hle]
    rfl

theorem append_append (w : Writer) (as bs : List UInt8) :
    (w.append as).append bs = w.append (as ++ bs) := by
  unfold append
  cases w.room <;> simp [Nat.sub_sub]

theorem HasRoom.append {as : List UInt8} {n : Nat} (h : w.HasRoom (as.length + n)) :
    (w.append as).HasRoom n := by
  intro room hroom
  obtain ⟨room', hroom', rfl⟩ := Option.map_eq_some_iff.mp hroom
  have hle := h room' hroom'
  omega

theorem HasRoom.mono {m n : Nat} (h : w.HasRoom n) (hle : m ≤ n) : w.HasRoom m :=
  fun room hroom => Nat.le_trans hle (h room hroom)

/-- A writer with room takes the whole line and its end. -/
theorem writeUnit_eq {e : Emission} (hflush : w.refusesFlush = false)
    (h : w.HasRoom (e.lineOctets.length + 1)) :
    w.writeUnit e = (w.append (e.lineOctets ++ [10]), none) := by
  have hline : w.write (Text.Utf8.octets e.line) = (w.append e.lineOctets, none) :=
    write_eq (h.mono (Nat.le_succ _))
  have hend : (w.append e.lineOctets).write [10] = ((w.append e.lineOctets).append [10], none) :=
    write_eq h.append
  unfold writeUnit
  rw [hline]
  dsimp only
  rw [hend, append_append]
  dsimp only
  rw [flush, show (w.append (e.lineOctets ++ [10])).refusesFlush = false from hflush]
  rfl

/-- The octets of the lines of some units. -/
def linesOctets (es : List Emission) : List UInt8 := es.flatMap fun e => e.lineOctets ++ [10]

theorem writeUnits_eq {es : List Emission} (hflush : w.refusesFlush = false)
    (h : w.HasRoom (linesOctets es).length) :
    w.writeUnits es = (w.append (linesOctets es), es.map fun _ => none) := by
  induction es generalizing w with
  | nil =>
    show (w, []) = (w.append [], [])
    unfold append
    simp
  | cons e es ih =>
    rw [linesOctets, List.flatMap_cons, ← linesOctets] at h ⊢
    rw [List.length_append] at h
    have hfirst : w.HasRoom (e.lineOctets.length + 1) := by
      apply h.mono
      rw [List.length_append, List.length_singleton]
      omega
    have hrest := ih (w := w.append (e.lineOctets ++ [10])) hflush h.append
    rw [writeUnits, writeUnit_eq hflush hfirst]
    dsimp only
    rw [hrest, append_append]
    rfl

/-- What is written tells what was emitted.  A writer that has room for them takes one line for each
unit, in their order, with its end and no other end of a line in it, and reports no failure; and
each line is JSON that is read back, and put together again, as just that unit. -/
theorem lines_read_back {es : List Emission} (hfits : ∀ e ∈ es, e.Fits)
    (hrecoverable : ∀ e ∈ es, e.IsRecoverable) (hflush : w.refusesFlush = false)
    (hroom : w.HasRoom (linesOctets es).length) :
    ∃ lines : List (List UInt8),
      (w.writeUnits es).2 = es.map (fun _ => none) ∧
      (w.writeUnits es).1.written = w.written ++ lines.flatMap (· ++ [10]) ∧
      List.Forall₂ (fun line e => 10 ∉ line ∧
        ∃ v, Json.read line = .ok v ∧ Emission.ofValue? v = some e) lines es := by
  refine ⟨es.map Emission.lineOctets, ?_, ?_, ?_⟩
  · rw [writeUnits_eq hflush hroom]
  · rw [writeUnits_eq hflush hroom, List.flatMap_map]
    rfl
  · rw [List.forall₂_map_left_iff]
    apply List.forall₂_same.mpr
    intro e he
    exact ⟨e.newline_not_mem_lineOctets, _, (hfits e he).read_line (hrecoverable e he),
      e.ofValue?_readFields⟩

/-- A batch with what has to be escaped in its names and texts, and a message that is not UTF-8 and
has the end of a line in it. -/
def awkwardUnits : List Emission :=
  [.batch
      { metadata := ⟨"t\n\"\\", 0, some (-1), none, [("é", "\x01")], 1, 0, 0⟩
        records := [.object [("a", .array [.integer (-5), .string "\t"]), ("b", .object [])]] },
    .parseFailure
      { metadata := ⟨"t", 0, none, some "k", [], 1, 7, 7⟩, reason := "\r\n", raw := [255, 10] }]

theorem lines_read_back_awkwardUnits :
    ∃ a b, ((⟨[], none, false⟩ : Writer).writeUnits awkwardUnits).1.written =
        a ++ [10] ++ (b ++ [10]) ∧ 10 ∉ a ∧ 10 ∉ b ∧
      (∃ v, Json.read a = .ok v ∧ Emission.ofValue? v = awkwardUnits.head?) ∧
      ∃ v, Json.read b = .ok v ∧ Emission.ofValue? v = awkwardUnits.getLast? := by
  have hinteger : ∀ n : Int, -5 ≤ n → n ≤ 7 → Json.IsInteger n := by
    intro n hleast hgreatest
    constructor <;> omega
  have hzero := hinteger 0 (by decide) (by decide)
  have hseven := hinteger 7 (by decide) (by decide)
  have hrecord : Value.WellFormed
      (.object [("a", .array [.integer (-5), .string "\t"]), ("b", .object [])]) := by
    refine .object (by decide) ?_
    refine List.forall_mem_cons.mpr ⟨.array ?_, List.forall_mem_singleton.mpr (.object .nil ?_)⟩
    · exact List.forall_mem_cons.mpr ⟨.integer (hinteger (-5) (by decide) (by decide)),
        List.forall_mem_singleton.mpr (.string "\t")⟩
    · simp
  have hfits : ∀ e ∈ awkwardUnits, e.Fits := by
    refine List.forall_mem_cons.mpr ⟨⟨?_, List.forall_mem_singleton.mpr hrecord⟩,
      List.forall_mem_singleton.mpr ⟨?_, by simp [Emission.records]⟩⟩
    · refine ⟨hzero, ?_, List.pairwise_singleton _ _, by decide, hzero, hzero⟩
      intro t ht
      cases ht
      exact hinteger (-1) (by decide) (by decide)
    · exact ⟨hzero, by simp [Emission.metadata], .nil, by decide, hseven, hseven⟩
  have hrecoverable : ∀ e ∈ awkwardUnits, e.IsRecoverable := by
    refine List.forall_mem_cons.mpr ⟨?_, List.forall_mem_singleton.mpr ?_⟩
    · exact List.forall_mem_singleton.mpr ⟨rfl, rfl⟩
    · intro v hv
      cases hv
  obtain ⟨lines, -, hwritten, hlines⟩ := lines_read_back (w := ⟨[], none, false⟩) hfits hrecoverable
    rfl (fun room hroom => by cases hroom)
  rcases hlines with _ | ⟨⟨ha, hreada⟩, _ | ⟨⟨hb, hreadb⟩, _ | _⟩⟩
  refine ⟨_, _, ?_, ha, hb, hreada, hreadb⟩
  rw [hwritten, List.nil_append, List.flatMap_cons, List.flatMap_singleton]

end Writer
end RecordIntake
