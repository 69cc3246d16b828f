import Mathlib.Data.List.Forall2
import Mathlib.Data.List.Nodup
import Mathlib.Data.List.Perm.Basic
import RecordIntake.Proofs.Lease

/-!
What the accumulator hands on and what it keeps.  Each unit is made of the records that one group
has gathered, or of one message that could not be read.  The open batch of a group holds the records
of that group that were not handed on yet, through every seal and every record that joins one.
-/
namespace RecordIntake

/-- A record, and where it was in which message. -/
structure Entry where
  message : Message
  index : Nat
  record : Record

def Entry.group (s : BatchSettings) (e : Entry) : Group :=
  { Accumulator.commonGroup s e.message with schema := e.record.schema }

/-- What is handed on of a message: each of its records, or that it could not be read. -/
inductive Piece where
  | record (e : Entry)
  | failure (m : Message) (e : DecodeError)

def Piece.entry? : Piece → Option Entry
  | .record e => some e
  | .failure _ _ => none

def Piece.isFailure : Piece → Bool
  | .record _ => false
  | .failure _ _ => true

def Message.entries (m : Message) (rs : List Record) : List Entry :=
  rs.mapIdx fun i r => ⟨m, i, r⟩

def Message.pieces (reader : RecordReader) (m : Message) : List Piece :=
  match reader m.payload with
  | .ok rs => (m.entries rs).map .record
  | .error e => [.failure m e]

theorem Message.map_record_entries (m : Message) (rs : List Record) :
    (m.entries rs).map (·.record) = rs :=
  List.ext_getElem (by simp [entries]) (by simp [entries])

theorem Message.message_of_mem_entries (m : Message) (rs : List Record) :
    ∀ e ∈ m.entries rs, e.message = m := by
  intro e he
  obtain ⟨i, hi, rfl⟩ := List.mem_mapIdx.mp he
  rfl

/-- The records of one group. -/
def recordsOf (s : BatchSettings) (g : Group) (xs : List Piece) : List Entry :=
  (xs.filterMap Piece.entry?).filter fun e => e.group s = g

def failuresOf (xs : List Piece) : List Piece := xs.filter Piece.isFailure

/-- A batch that was filled with these records, the first of them first. -/
structure PendingBatch.Holds (b : PendingBatch) (es : List Entry) : Prop where
  records : b.records.toList = es.map (·.record.value)
  first : es.head?.map (·.message.offset) = some b.firstOffset
  last : es.getLast?.map (·.message.offset) = some b.lastOffset

/-- What a unit is made of. -/
inductive Emission.MadeOf (s : BatchSettings) : Emission → List Piece → Prop where
  | batch {g : Group} {b : PendingBatch} {es : List Entry} (hb : b.Holds es)
    (hg : ∀ e ∈ es, e.group s = g) : MadeOf s (.batch (b.toSealed s g)) (es.map .record)
  | failure (m : Message) (e : DecodeError) :
    MadeOf s (.parseFailure (Accumulator.failureOf s m e)) [.failure m e]

section

variable {s : BatchSettings} {g : Group}

@[simp] theorem recordsOf_nil : recordsOf s g [] = [] := rfl

@[simp] theorem recordsOf_append (xs ys : List Piece) :
    recordsOf s g (xs ++ ys) = recordsOf s g xs ++ recordsOf s g ys := by
  simp [recordsOf]

theorem recordsOf_record (e : Entry) :
    recordsOf s g [.record e] = if e.group s = g then [e] else [] := by
  by_cases h : e.group s = g
  · simp [recordsOf, Piece.entry?, h]
  · simp [recordsOf, Piece.entry?, h]

/-- Records of one group, seen from a group. -/
theorem recordsOf_map_record {g' : Group} {es : List Entry} (hg : ∀ e ∈ es, e.group s = g') :
    recordsOf s g (es.map .record) = if g' = g then es else [] := by
  have hentries : (es.map Piece.record).filterMap Piece.entry? = es := by
    rw [List.filterMap_map]
    exact List.filterMap_some
  rw [recordsOf, hentries]
  split
  · rename_i heq
    exact List.filter_eq_self.mpr fun e he => decide_eq_true ((hg e he).trans heq)
  · rename_i hne
    exact List.filter_eq_nil_iff.mpr fun e he => by simpa [hg e he] using hne

theorem mem_recordsOf {e : Entry} {xs : List Piece} :
    e ∈ recordsOf s g xs ↔ .record e ∈ xs ∧ e.group s = g := by
  simp only [recordsOf, List.mem_filter, List.mem_filterMap, decide_eq_true_eq]
  refine and_congr_left fun _ => ⟨fun ⟨x, hx, he⟩ => ?_, fun h => ⟨_, h, rfl⟩⟩
  cases x with
  | record e' =>
    obtain rfl := Option.some.inj he
    exact hx
  | failure m e' => cases he

@[simp] theorem failuresOf_append (xs ys : List Piece) :
    failuresOf (xs ++ ys) = failuresOf xs ++ failuresOf ys := List.filter_append ..

@[simp] theorem failuresOf_map_record (es : List Entry) :
    failuresOf (es.map .record) = [] :=
  List.filter_eq_nil_iff.mpr fun x hx => by
    obtain ⟨e, -, rfl⟩ := List.mem_map.mp hx
    exact Bool.false_ne_true

end

/-! ## Open batches -/

namespace PendingBatch

theorem holds_start (sequence now : Nat) (e : Entry) :
    (start sequence now e.message e.record.value).Holds [e] := ⟨rfl, rfl, rfl⟩

theorem Holds.push {b : PendingBatch} {es : List Entry} (h : b.Holds es) (e : Entry) :
    (b.push e.message e.record.value).Holds (es ++ [e]) where
  records := by simp [PendingBatch.push, h.records]
  first := by
    have hfirst := h.first
    cases es with
    | nil => cases hfirst
    | cons e' es => exact hfirst
  last := by rw [List.getLast?_concat]; rfl

theorem Holds.isEmpty {b : PendingBatch} {es : List Entry} (h : b.Holds es) :
    es.isEmpty = false := by
  have hfirst := h.first
  cases es with
  | nil => cases hfirst
  | cons e es => rfl

end PendingBatch

namespace Pending

theorem find?_add (g g' : Group) (sequence now : Nat) (m : Message) (v : Json.Value)
    (p : Pending) :
    (p.add g sequence now m v).find? g' =
      if g' = g then
        some ((p.find? g).elim (.start sequence now m v) (·.push m v))
      else p.find? g' := by
  induction p with
  | nil =>
    simp only [add, find?, Option.elim_none]
    by_cases h : g' = g
    · rw [if_pos h, if_pos h.symm]
    · rw [if_neg h, if_neg (Ne.symm h)]
  | cons x rest ih =>
    obtain ⟨g₁, b⟩ := x
    by_cases h₁ : g₁ = g
    · subst h₁
      simp only [add, find?, if_true, Option.elim_some]
      by_cases h : g' = g₁
      · rw [if_pos h, if_pos h.symm]
      · rw [if_neg h, if_neg (Ne.symm h), if_neg (Ne.symm h)]
    · simp only [add, find?, if_neg h₁, ih]
      by_cases h : g' = g
      · rw [if_pos h, if_pos h, if_neg (h ▸ h₁)]
      · rw [if_neg h, if_neg h]

theorem mem_keys_add {g g' : Group} {sequence now : Nat} {m : Message} {v : Json.Value}
    {p : Pending} (h : g' ∈ (p.add g sequence now m v).map (·.1)) :
    g' = g ∨ g' ∈ p.map (·.1) := by
  induction p with
  | nil => exact .inl (List.mem_singleton.mp h)
  | cons x rest ih =>
    obtain ⟨g₁, b⟩ := x
    by_cases h₁ : g₁ = g
    · simp only [add, if_pos h₁] at h
      exact .inr h
    · simp only [add, if_neg h₁, List.map_cons, List.mem_cons] at h ⊢
      obtain h | h := h
      · exact .inr (.inl h)
      · exact (ih h).imp_right .inr

theorem nodup_add {p : Pending} (hp : (p.map (·.1)).Nodup) (g : Group) (sequence now : Nat)
    (m : Message) (v : Json.Value) : ((p.add g sequence now m v).map (·.1)).Nodup := by
  induction p with
  | nil => simp [add]
  | cons x rest ih =>
    obtain ⟨g₁, b⟩ := x
    obtain ⟨hnot, hrest⟩ := List.nodup_cons.mp hp
    by_cases h₁ : g₁ = g
    · simp only [add, if_pos h₁]
      exact hp
    · simp only [add, if_neg h₁]
      refine List.nodup_cons.mpr ⟨fun hmem => ?_, ih hrest⟩
      exact (mem_keys_add hmem).elim h₁ hnot

theorem find?_eq_some_of_mem {p : Pending} (hp : (p.map (·.1)).Nodup) {g : Group}
    {b : PendingBatch} (h : (g, b) ∈ p) : p.find? g = some b := by
  induction p with
  | nil => cases h
  | cons x rest ih =>
    obtain ⟨g₁, b₁⟩ := x
    obtain ⟨hnot, hrest⟩ := List.nodup_cons.mp hp
    obtain h | h := List.mem_cons.mp h
    · cases h
      exact if_pos rfl
    · have hne : g₁ ≠ g := by
        rintro rfl
        exact hnot (List.mem_map.mpr ⟨_, h, rfl⟩)
      exact (if_neg hne).trans (ih hrest h)

theorem mem_of_find? {p : Pending} {g : Group} {b : PendingBatch} (h : p.find? g = some b) :
    (g, b) ∈ p := by
  induction p with
  | nil => cases h
  | cons x rest ih =>
    obtain ⟨g₁, b₁⟩ := x
    simp only [find?] at h
    split at h
    · rename_i heq
      cases h
      exact heq ▸ List.mem_cons_self
    · exact List.mem_cons_of_mem _ (ih h)

theorem find?_eq_none {p : Pending} {g : Group} : p.find? g = none ↔ g ∉ p.map (·.1) := by
  induction p with
  | nil => simp [find?]
  | cons x rest ih =>
    obtain ⟨g₁, b⟩ := x
    simp only [find?, List.map_cons, List.mem_cons, not_or]
    split
    · rename_i heq
      simp [heq]
    · rename_i hne
      rw [ih]
      exact ⟨fun h => ⟨Ne.symm hne, h⟩, And.right⟩

/-- Of a group there is at most one batch, which is among the rest or is not. -/
theorem find?_filter {p : Pending} (hp : (p.map (·.1)).Nodup) (f : Group × PendingBatch → Bool)
    (g : Group) : find? g (p.filter f) = (p.find? g).filter fun b => f (g, b) := by
  induction p with
  | nil => rfl
  | cons x rest ih =>
    obtain ⟨g₁, b⟩ := x
    obtain ⟨hnot, hrest⟩ := List.nodup_cons.mp hp
    have ih := ih hrest
    by_cases h₁ : g₁ = g
    · subst h₁
      rw [find?, if_pos rfl, Option.filter_some, List.filter_cons]
      split
      · exact if_pos rfl
      · rw [ih, find?_eq_none.mpr hnot]
        rfl
    · rw [find?, if_neg h₁, List.filter_cons]
      split
      · rw [find?, if_neg h₁, ih]
      · exact ih

theorem nodup_filter {p : Pending} (hp : (p.map (·.1)).Nodup) (f : Group × PendingBatch → Bool) :
    ((p.filter f).map (·.1)).Nodup :=
  hp.sublist (List.filter_sublist.map _)

theorem perm_filter_group {p : Pending} (hp : (p.map (·.1)).Nodup) {g : Group} {b : PendingBatch}
    (h : p.find? g = some b) : [(g, b)].Perm (p.filter fun x => x.1 == g) := by
  have hnodup : (p.filter fun x => x.1 == g).Nodup := (hp.of_map _).filter _
  refine (List.perm_ext_iff_of_nodup (List.nodup_singleton _) hnodup).mpr fun x => ?_
  rw [List.mem_singleton, List.mem_filter, beq_iff_eq]
  refine ⟨fun hx => hx ▸ ⟨mem_of_find? h, rfl⟩, fun ⟨hx, hg⟩ => ?_⟩
  obtain ⟨g', b'⟩ := x
  subst hg
  rw [Option.some.inj (h.symm.trans (find?_eq_some_of_mem hp hx))]

end Pending

/-! ## The accumulator -/

namespace Accumulator

/-- Of each group the accumulator keeps the records that are given for it. -/
structure Holds (a : Accumulator) (kept : Group → List Entry) : Prop where
  nodup : (a.pending.map (·.1)).Nodup
  batch : ∀ g b, a.pending.find? g = some b → b.Holds (kept g)
  group : ∀ g, ∀ e ∈ kept g, e.group a.settings = g
  nothing : ∀ g, a.pending.find? g = none → kept g = []

/-- The accumulator took in some pieces.  What came out of it and what it keeps now is that, after
what it had kept before. -/
structure Takes (a : Accumulator) (kept : Group → List Entry) (new : List Piece)
    (r : Accumulator × List Emission) (kept' : Group → List Entry)
    (contents : List (List Piece)) : Prop where
  settings : r.1.settings = a.settings
  reader : r.1.reader = a.reader
  holds : r.1.Holds kept'
  made : List.Forall₂ (Emission.MadeOf a.settings) r.2 contents
  records : ∀ g, recordsOf a.settings g contents.flatten ++ kept' g =
    kept g ++ recordsOf a.settings g new
  failures : failuresOf contents.flatten = failuresOf new

variable {a a' a'' : Accumulator} {kept kept' kept'' : Group → List Entry}
  {new new' : List Piece} {units units' : List Emission} {contents contents' : List (List Piece)}

theorem holds_start (reader : RecordReader) (s : BatchSettings) :
    (start reader s).Holds fun _ => [] where
  nodup := List.nodup_nil
  batch g b h := by cases h
  group g e he := by cases he
  nothing g _ := rfl

theorem Takes.refl (h : a.Holds kept) : a.Takes kept [] (a, []) kept [] where
  settings := rfl
  reader := rfl
  holds := h
  made := .nil
  records _ := (List.append_nil _).symm
  failures := rfl

theorem Takes.trans (h : a.Takes kept new (a', units) kept' contents)
    (h' : a'.Takes kept' new' (a'', units') kept'' contents') :
    a.Takes kept (new ++ new') (a'', units ++ units') kept'' (contents ++ contents') where
  settings := h'.settings.trans h.settings
  reader := h'.reader.trans h.reader
  holds := h'.holds
  made := List.rel_append h.made (h.settings ▸ h'.made)
  records g := by
    have hrecords := h.records g
    have hrecords' := h'.records g
    rw [show a'.settings = a.settings from h.settings] at hrecords'
    rw [List.flatten_append, recordsOf_append, recordsOf_append, List.append_assoc, hrecords',
      ← List.append_assoc, hrecords, List.append_assoc]
  failures := by
    rw [List.flatten_append, failuresOf_append, failuresOf_append, h.failures, h'.failures]

/-- A piece that was taken in came out or is kept. -/
theorem Takes.mem (h : a.Takes kept new (a', units) kept' contents) {x : Piece} (hx : x ∈ new) :
    x ∈ contents.flatten ∨ ∃ g, ∃ e ∈ kept' g, x = .record e := by
  cases x with
  | record e =>
    have hmem : e ∈ recordsOf a.settings (e.group a.settings) contents.flatten ++
        kept' (e.group a.settings) := by
      rw [h.records]
      exact List.mem_append_right _ (mem_recordsOf.mpr ⟨hx, rfl⟩)
    obtain hmem | hmem := List.mem_append.mp hmem
    · exact .inl (mem_recordsOf.mp hmem).1
    · exact .inr ⟨_, e, hmem, rfl⟩
  | failure m e =>
    have hmem : Piece.failure m e ∈ failuresOf contents.flatten := by
      rw [h.failures]
      exact List.mem_filter.mpr ⟨hx, rfl⟩
    exact .inl (List.mem_filter.mp hmem).1

/-- A record that was kept came out or is kept still. -/
theorem Takes.mem_of_kept (h : a.Takes kept new (a', units) kept' contents) {g : Group} {e : Entry}
    (he : e ∈ kept g) : .record e ∈ contents.flatten ∨ e ∈ kept' g := by
  have hmem : e ∈ recordsOf a.settings g contents.flatten ++ kept' g := by
    rw [h.records]
    exact List.mem_append_left _ he
  exact (List.mem_append.mp hmem).imp_left fun h => (mem_recordsOf.mp h).1

theorem failuresOf_sealed (kept : Group → List Entry) (out : Pending) :
    failuresOf (out.map fun x => (kept x.1).map Piece.record).flatten = [] := by
  induction out with
  | nil => rfl
  | cons x rest ih =>
    rw [List.map_cons, List.flatten_cons, failuresOf_append, ih, failuresOf_map_record]
    rfl

theorem mem_sealed (h : a.Holds kept) {f : Group × PendingBatch → Bool} {out : Pending}
    (hout : out.Perm (a.pending.filter f)) {g : Group} {b : PendingBatch} :
    (g, b) ∈ out ↔ a.pending.find? g = some b ∧ f (g, b) = true := by
  rw [hout.mem_iff, List.mem_filter]
  exact and_congr_left fun _ => ⟨Pending.find?_eq_some_of_mem h.nodup, Pending.mem_of_find?⟩

/-- The batches that were not sealed are kept as they were. -/
theorem holds_sealed (h : a.Holds kept) (f : Group × PendingBatch → Bool) {out : Pending}
    (hout : out.Perm (a.pending.filter f)) :
    Holds { a with pending := a.pending.filter fun x => !f x }
      fun g => if g ∈ out.map (·.1) then [] else kept g where
  nodup := Pending.nodup_filter h.nodup _
  batch g b hb := by
    dsimp only at hb ⊢
    rw [Pending.find?_filter h.nodup, Option.filter_eq_some_iff] at hb
    obtain ⟨hb, hf⟩ := hb
    have hnot : g ∉ out.map (·.1) := by
      intro hg
      obtain ⟨⟨g', b'⟩, hx, rfl⟩ := List.mem_map.mp hg
      obtain ⟨hb', hf'⟩ := (mem_sealed h hout).mp hx
      obtain rfl : b' = b := Option.some.inj (hb'.symm.trans hb)
      rw [hf'] at hf
      cases hf
    rw [if_neg hnot]
    exact h.batch g b hb
  group g e he := by
    split at he
    · cases he
    · exact h.group g e he
  nothing g hg := by
    rw [Pending.find?_filter h.nodup] at hg
    split
    · rfl
    · rename_i hnot
      cases hb : a.pending.find? g with
      | none => exact h.nothing g hb
      | some b =>
        rw [hb] at hg
        have hf : f (g, b) = true := by
          cases hf : f (g, b) with
          | true => rfl
          | false => simp [hf] at hg
        exact absurd (List.mem_map.mpr ⟨(g, b), (mem_sealed h hout).mpr ⟨hb, hf⟩, rfl⟩) hnot

/-- A record joins the batch of its group. -/
theorem holds_join (h : a.Holds kept) {e : Entry} {g₀ : Group} (hg₀ : e.group a.settings = g₀)
    (now next : Nat) :
    Holds
      { a with
        pending := a.pending.add g₀ a.nextSequence now e.message e.record.value
        nextSequence := next }
      fun g => if g = g₀ then kept g₀ ++ [e] else kept g where
  nodup := Pending.nodup_add h.nodup ..
  batch g b hb := by
    dsimp only at hb ⊢
    rw [Pending.find?_add] at hb
    split at hb
    · rename_i heq
      rw [if_pos heq]
      obtain rfl := Option.some.inj hb
      cases hold : a.pending.find? g₀ with
      | none =>
        rw [h.nothing g₀ hold]
        exact PendingBatch.holds_start _ _ e
      | some b => exact (h.batch g₀ b hold).push e
    · rename_i hne
      rw [if_neg hne]
      exact h.batch g b hb
  group g e' he' := by
    split at he'
    · rename_i heq
      obtain he' | he' := List.mem_append.mp he'
      · exact (h.group g₀ e' he').trans heq.symm
      · exact (List.mem_singleton.mp he') ▸ hg₀.trans heq.symm
    · exact h.group g e' he'
  nothing g hg := by
    dsimp only at hg ⊢
    rw [Pending.find?_add] at hg
    split at hg
    · cases hg
    · rename_i hne
      rw [if_neg hne]
      exact h.nothing g hg

theorem Holds.nothing_of_empty (h : a.Holds kept) (ha : a.pending = []) (g : Group) : kept g = [] :=
  h.nothing g (by rw [ha]; rfl)

end Accumulator
end RecordIntake
