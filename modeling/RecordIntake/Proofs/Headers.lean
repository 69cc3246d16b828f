import RecordIntake.Proofs.Encoding
import RecordIntake.Proofs.Grouping
import RecordIntake.Regex.Engine

/-!
What the selected headers of messages have to do with their batches.  Batches are told apart by a
map from the names of the selected headers to their texts.  If no name is selected twice, the map
holds every selected header, and under every encoding but one the text of a value tells its octets.
So messages that differ in what was selected of them never share a batch, and what was selected can
be read off the metadata of the batch.

Three things the map does not tell.  A value that is missing has the text of an empty one; under
UTF-16 with an optional byte order mark one text has several values; and of two headers with one
name only the later one gets into the map.
-/
namespace RecordIntake

/-! ## Selected headers -/

namespace BatchSettings

/-- The headers that are selected of a message, in their order. -/
def selection (s : BatchSettings) (m : Message) : List Header := m.headers.filter s.selectsHeader

/-- The names and the texts of the selected headers. -/
def selectedTexts (s : BatchSettings) (m : Message) : List (String × String) :=
  (s.selection m).map fun h => (h.name, s.headerText h)

/-- The names and the octets of the selected headers; a missing value has none. -/
def selectedOctets (s : BatchSettings) (m : Message) : List (String × List UInt8) :=
  (s.selection m).map fun h => (h.name, h.value.getD [])

/-- The encoding has a text for each selected value, and no name is selected twice. -/
structure Reads (s : BatchSettings) (m : Message) : Prop where
  decodable : ∀ h ∈ s.selection m, s.isUndecodable h = false
  distinct : ((s.selection m).map (·.name)).Nodup

variable {s : BatchSettings} {m m' : Message}

theorem selectedHeaders_eq (s : BatchSettings) (m : Message) :
    s.selectedHeaders m = .ofList (s.selectedTexts m) := rfl

theorem decodeChars_headerText {h : Header} (hh : s.isUndecodable h = false) :
    s.headerEncoding.decodeChars (h.value.getD []) = some (s.headerText h).toList := by
  obtain ⟨name, value⟩ := h
  cases value with
  | none => exact s.headerEncoding.decodeChars_nil
  | some octets =>
    simp only [isUndecodable] at hh
    simp only [headerText, HeaderEncoding.decode, Option.getD_some]
    cases hdecoded : s.headerEncoding.decodeChars octets with
    | none => simp [hdecoded] at hh
    | some cs => simp only [String.toList_ofList]

theorem Reads.nodup (h : s.Reads m) : ((s.selectedTexts m).map (·.1)).Nodup := by
  rw [selectedTexts, List.map_map]
  exact h.distinct

/-- The octets of the selected headers are those of their texts. -/
theorem Reads.selectedOctets_eq (h : s.Reads m) (hencoding : s.headerEncoding ≠ .utf16) :
    s.selectedOctets m =
      (s.selectedTexts m).map fun (name, text) =>
        (name, (s.headerEncoding.encode? text.toList).getD []) := by
  rw [selectedTexts, List.map_map]
  refine List.map_congr_left fun x hx => congrArg (Prod.mk x.name) ?_
  have hoctets := HeaderEncoding.encode?_of_decodeChars hencoding
    (decodeChars_headerText (h.decodable x hx))
  show _ = (s.headerEncoding.encode? (s.headerText x).toList).getD []
  rw [hoctets]
  rfl

/-- The map of the selected headers tells them, up to their order. -/
theorem Reads.perm (h : s.Reads m) (h' : s.Reads m')
    (heq : s.selectedHeaders m = s.selectedHeaders m') :
    (s.selectedTexts m).Perm (s.selectedTexts m') := by
  rw [selectedHeaders_eq, selectedHeaders_eq] at heq
  exact (SortedMap.ofList_perm h.nodup).symm.trans (heq ▸ SortedMap.ofList_perm h'.nodup)

end BatchSettings

/-! ## Batches -/

/-- The metadata of a unit have the selected headers of a message and no others, each with its text,
and from the text the octets can be told. -/
structure UnitMetadata.Recalls (u : UnitMetadata) (s : BatchSettings) (m : Message) : Prop where
  all : ∀ h ∈ s.selection m, ∃ text, u.headers.find? h.name = some text ∧
    s.headerEncoding.decodeChars (h.value.getD []) = some text.toList ∧
    (s.headerEncoding ≠ .utf16 → s.headerEncoding.encode? text.toList = some (h.value.getD []))
  only : ∀ name text, u.headers.find? name = some text →
    ∃ h ∈ s.selection m, h.name = name ∧ s.headerText h = text

theorem UnitMetadata.recalls {u : UnitMetadata} {s : BatchSettings} {m : Message} (h : s.Reads m)
    (hu : u.headers = s.selectedHeaders m) : u.Recalls s m where
  all x hx := by
    have hdecoded := BatchSettings.decodeChars_headerText (h.decodable x hx)
    refine ⟨s.headerText x, ?_, hdecoded, fun hencoding =>
      HeaderEncoding.encode?_of_decodeChars hencoding hdecoded⟩
    rw [hu, s.selectedHeaders_eq]
    exact (SortedMap.find?_ofList h.nodup).mpr (List.mem_map.mpr ⟨x, hx, rfl⟩)
  only name text hfind := by
    rw [hu, s.selectedHeaders_eq] at hfind
    obtain ⟨x, hx, heq⟩ := List.mem_map.mp ((SortedMap.find?_ofList h.nodup).mp hfind)
    obtain ⟨rfl, rfl⟩ := Prod.mk.inj heq
    exact ⟨x, hx, rfl, rfl⟩

/-- A batch is handed on with the selected headers of each of its messages. -/
theorem Emission.MadeOf.headers {s : BatchSettings} {u : Emission} {xs : List Piece}
    (h : u.MadeOf s xs) {e : Entry} (he : .record e ∈ xs) :
    u.metadata.headers = s.selectedHeaders e.message := by
  cases h with
  | batch hb hg =>
    obtain ⟨e', he', heq⟩ := List.mem_map.mp he
    obtain rfl := Piece.record.inj heq
    exact congrArg Group.headers (hg e' he').symm
  | failure m e' => simp at he

theorem Emission.MadeOf.recalls {s : BatchSettings} {u : Emission} {xs : List Piece}
    (h : u.MadeOf s xs) (e : Entry) (he : .record e ∈ xs) (hreads : s.Reads e.message) :
    u.metadata.Recalls s e.message :=
  UnitMetadata.recalls hreads (h.headers he)

namespace Accumulator

/-- Messages that differ in what is selected of them are kept apart.  What a unit is made of is what
the calls cut off: for each group its records, in the order in which they came, batch by batch.  If
every selected value can be decoded and no name is selected twice, then messages of one batch have
the same names with the same texts, and under every encoding but UTF-16 with a byte order mark the
same names with the same octets.  The metadata of the batch have all of them and nothing else. -/
theorem different_headers_kept_apart (reader : RecordReader) (s : BatchSettings) (cs : List Call) :
    ∃ contents : List (List (List Piece)),
      List.Forall₂ (List.Forall₂ (Emission.MadeOf s)) ((start reader s).outputs cs) contents ∧
      (∀ g, contents.map (batchesOf s g) = Gathering.empty.cuts reader s g cs) ∧
      (∀ xs ∈ contents.flatten, ∀ e e', .record e ∈ xs → .record e' ∈ xs →
        s.Reads e.message → s.Reads e'.message →
        (s.selectedTexts e.message).Perm (s.selectedTexts e'.message) ∧
        (s.headerEncoding ≠ .utf16 →
          (s.selectedOctets e.message).Perm (s.selectedOctets e'.message))) ∧
      List.Forall₂ (fun u xs => ∀ e, .record e ∈ xs → s.Reads e.message →
        u.metadata.Recalls s e.message) ((start reader s).outputs cs).flatten contents.flatten := by
  obtain ⟨-, -, contents, hmade, hcuts, -⟩ := outputs_start reader s cs
  have hunits := List.rel_flatten hmade
  refine ⟨contents, hmade, hcuts, fun xs hxs e e' he he' hreads hreads' => ?_,
    hunits.imp fun _ _ hu => hu.recalls⟩
  have hagree := Entry.group_eq_iff.mp (group_eq_of_made hunits hxs he he')
  have htexts := hreads.perm hreads' hagree.headers
  refine ⟨htexts, fun hencoding => ?_⟩
  rw [hreads.selectedOctets_eq hencoding, hreads'.selectedOctets_eq hencoding]
  exact htexts.map _

/-- A message with one record and the given headers. -/
def withHeaders (hs : List Header) : Message :=
  ⟨⟨"events", 0⟩, 0, none, some [123, 125], none, hs⟩

/-- Batches are told apart by the header "trace". -/
def tracing (e : HeaderEncoding) : BatchSettings :=
  { maxRecords := 2, headerPattern := (Regex.compile "^trace$").toOption, headerEncoding := e }

theorem different_headers_kept_apart_tracing :
    let a := withHeaders [⟨"source", some [120]⟩, ⟨"trace", some [97]⟩]
    let b := withHeaders [⟨"trace", some [98]⟩]
    (tracing .utf8).selectedOctets a = [("trace", [97])] ∧
      (tracing .utf8).selectedOctets b = [("trace", [98])] ∧
      ((empty (tracing .utf8)).after [.absorb a 0, .absorb b 0]).pendingBatches = 2 ∧
      ∃ contents : List (List (List Piece)),
        List.Forall₂ (List.Forall₂ (Emission.MadeOf (tracing .utf8)))
          ((empty (tracing .utf8)).outputs [.absorb a 0, .absorb b 0, .flushAll]) contents ∧
        (∀ g, contents.map (batchesOf (tracing .utf8) g) =
          Gathering.empty.cuts Record.read (tracing .utf8) g
            [.absorb a 0, .absorb b 0, .flushAll]) ∧
        ∀ xs ∈ contents.flatten, ∀ e e', .record e ∈ xs → .record e' ∈ xs →
          e.message = a → e'.message ≠ b := by
  intro a b
  have ha : (tracing .utf8).Reads a := ⟨by decide +kernel, by decide +kernel⟩
  have hb : (tracing .utf8).Reads b := ⟨by decide +kernel, by decide +kernel⟩
  have hne : ¬ ((tracing .utf8).selectedTexts a).Perm ((tracing .utf8).selectedTexts b) := by
    decide +kernel
  obtain ⟨contents, hmade, hcuts, hperm, -⟩ :=
    different_headers_kept_apart Record.read (tracing .utf8) [.absorb a 0, .absorb b 0, .flushAll]
  refine ⟨by decide +kernel, by decide +kernel, by decide +kernel, contents, hmade, hcuts, ?_⟩
  intro xs hxs e e' he he' hea heb
  rw [← hea] at ha hne
  rw [← heb] at hb hne
  exact hne (hperm xs hxs e e' he he' ha hb).1

/-- Messages with these headers share a batch, though the headers differ, and each of them is
selected and can be decoded. -/
def Merges (s : BatchSettings) (hs hs' : List Header) : Prop :=
  (∀ h ∈ hs ++ hs', s.selectsHeader h = true ∧ s.isUndecodable h = false) ∧ ¬ hs.Perm hs' ∧
    ((empty s).outputs [.absorb (withHeaders hs) 0, .absorb (withHeaders hs') 0]).flatten.map
      (fun u => u.metadata.recordCount) = [2]

/-- Headers that differ may be the same in the map: with an empty value and without one, with a byte
order mark and without one, and with two values of one name of which the later are the same. -/
theorem different_headers_merged :
    Merges (tracing .utf16) [⟨"trace", none⟩] [⟨"trace", some []⟩] ∧
      Merges (tracing .utf16) [⟨"trace", some [0xFE, 0xFF, 0, 97]⟩] [⟨"trace", some [0, 97]⟩] ∧
      Merges (tracing .utf16) [⟨"trace", some [0, 97]⟩, ⟨"trace", some [0, 122]⟩]
        [⟨"trace", some [0, 98]⟩, ⟨"trace", some [0, 122]⟩] := by
  unfold Merges
  decide +kernel

end Accumulator
end RecordIntake
