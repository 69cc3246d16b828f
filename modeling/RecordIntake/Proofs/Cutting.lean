import RecordIntake.Proofs.Batching

/-!
The batches of one group depend on that group alone.  An accumulator keeps the open batches of all
groups side by side and seals them in three ways.  Seen from one group it is a list of records that
grows at its end and is cut now and then: when it is full, when it is taken because of its age, and
when everything is flushed.  What the accumulator hands on, and call by call when it does, is what
all groups together cut off, and the messages that could not be read.
-/
namespace RecordIntake
namespace Accumulator

/-! ## Calls -/

inductive Call where
  | absorb (m : Message) (now : Nat)
  | takeExpired (now : Nat)
  | flushAll
  | discard

def act (a : Accumulator) : Call → Accumulator × List Emission
  | .absorb m now => a.absorb m now
  | .takeExpired now => a.takeExpired now
  | .flushAll => a.flushAll
  | .discard => (a.discard, [])

def after (a : Accumulator) (cs : List Call) : Accumulator := cs.foldl (fun a c => (a.act c).1) a

/-- What each of some calls hands on. -/
def outputs (a : Accumulator) : List Call → List (List Emission)
  | [] => []
  | c :: cs => (a.act c).2 :: (a.act c).1.outputs cs

/-- What a call takes in. -/
def Call.pieces (reader : RecordReader) : Call → List Piece
  | .absorb m _ => m.pieces reader
  | .takeExpired _ | .flushAll | .discard => []

end Accumulator

/-! ## One group -/

/-- The open batch of one group: since when it is open, and what it holds. -/
structure Gathering where
  since : Nat
  entries : List Entry

namespace Gathering

/-- No batch is open. -/
def empty : Gathering := ⟨0, []⟩

/-- The first record opens a batch. -/
def join (b : Gathering) (now : Nat) (e : Entry) : Gathering :=
  ⟨if b.entries.isEmpty then now else b.since, b.entries ++ [e]⟩

/-- Cuts the batch off, if one is open and it is due. -/
def take (b : Gathering) (due : Bool) : Gathering × List (List Entry) :=
  if due && !b.entries.isEmpty then (empty, [b.entries]) else (b, [])

/-- A batch is cut off as soon as it is full, which it is with one record at the earliest. -/
def add (s : BatchSettings) (b : Gathering) (now : Nat) (e : Entry) :
    Gathering × List (List Entry) :=
  (b.join now e).take (max 1 s.maxRecords ≤ (b.join now e).entries.length)

def addAll (s : BatchSettings) (b : Gathering) (now : Nat) :
    List Entry → Gathering × List (List Entry)
  | [] => (b, [])
  | e :: es =>
    let (b, first) := b.add s now e
    let (b, rest) := b.addAll s now es
    (b, first ++ rest)

/-- What becomes of the batch of a group in a call, and what is cut off. -/
def act (reader : RecordReader) (s : BatchSettings) (g : Group) (b : Gathering) :
    Accumulator.Call → Gathering × List (List Entry)
  | .absorb m now => b.addAll s now (recordsOf s g (m.pieces reader))
  | .takeExpired now => b.take (s.maxWait ≤ now - b.since)
  | .flushAll => b.take true
  | .discard => (empty, [])

def after (reader : RecordReader) (s : BatchSettings) (g : Group) (b : Gathering)
    (cs : List Accumulator.Call) : Gathering :=
  cs.foldl (fun b c => (b.act reader s g c).1) b

/-- What is cut off in each of some calls. -/
def cuts (reader : RecordReader) (s : BatchSettings) (g : Group) (b : Gathering) :
    List Accumulator.Call → List (List (List Entry))
  | [] => []
  | c :: cs => (b.act reader s g c).2 :: (b.act reader s g c).1.cuts reader s g cs

variable {s : BatchSettings} {b : Gathering}

theorem take_false (b : Gathering) : b.take false = (b, []) := rfl

theorem take_of_ne_nil (h : b.entries ≠ []) : b.take true = (empty, [b.entries]) := by
  rw [take, Bool.true_and, if_pos]
  simpa using h

theorem addAll_append (s : BatchSettings) (b : Gathering) (now : Nat) (es es' : List Entry) :
    b.addAll s now (es ++ es') =
      (((b.addAll s now es).1.addAll s now es').1,
        (b.addAll s now es).2 ++ ((b.addAll s now es).1.addAll s now es').2) := by
  induction es generalizing b with
  | nil => rfl
  | cons e es ih =>
    simp only [List.cons_append, addAll, ih, List.append_assoc]

theorem addAll_singleton (s : BatchSettings) (b : Gathering) (now : Nat) (e : Entry) :
    b.addAll s now [e] = b.add s now e := by
  simp only [addAll, List.append_nil]

/-! What is cut off, and what is left, is all there was, in the same order. -/

theorem take_flatten (b : Gathering) (due : Bool) :
    (b.take due).2.flatten ++ (b.take due).1.entries = b.entries := by
  unfold take
  split
  · simp [empty]
  · rfl

theorem add_flatten (s : BatchSettings) (b : Gathering) (now : Nat) (e : Entry) :
    (b.add s now e).2.flatten ++ (b.add s now e).1.entries = b.entries ++ [e] :=
  take_flatten _ _

theorem addAll_flatten (s : BatchSettings) (b : Gathering) (now : Nat) (es : List Entry) :
    (b.addAll s now es).2.flatten ++ (b.addAll s now es).1.entries = b.entries ++ es := by
  induction es generalizing b with
  | nil => exact (List.append_nil _).symm
  | cons e es ih =>
    simp only [addAll, List.flatten_append, List.append_assoc]
    rw [ih, ← List.append_assoc, add_flatten, List.append_assoc, List.singleton_append]

theorem act_flatten (reader : RecordReader) (s : BatchSettings) (g : Group) (b : Gathering)
    {c : Accumulator.Call} (hc : c ≠ .discard) :
    (b.act reader s g c).2.flatten ++ (b.act reader s g c).1.entries =
      b.entries ++ recordsOf s g (c.pieces reader) := by
  cases c with
  | absorb m now => exact addAll_flatten s b now _
  | takeExpired now => exact (take_flatten b _).trans (List.append_nil _).symm
  | flushAll => exact (take_flatten b _).trans (List.append_nil _).symm
  | discard => exact absurd rfl hc

theorem cuts_flatten (reader : RecordReader) (s : BatchSettings) (g : Group) (b : Gathering)
    {cs : List Accumulator.Call} (hcs : .discard ∉ cs) :
    (b.cuts reader s g cs).flatten.flatten ++ (b.after reader s g cs).entries =
      b.entries ++ recordsOf s g (cs.flatMap (·.pieces reader)) := by
  induction cs generalizing b with
  | nil => exact (List.append_nil _).symm
  | cons c cs ih =>
    obtain ⟨hc, hcs⟩ := not_or.mp (List.mem_cons.not.mp hcs)
    rw [cuts, List.flatten_cons, List.flatten_append, List.flatMap_cons, recordsOf_append]
    set b' := (b.act reader s g c).1
    calc (b.act reader s g c).2.flatten ++ (b'.cuts reader s g cs).flatten.flatten ++
          (b'.after reader s g cs).entries
        = (b.act reader s g c).2.flatten ++
            (b'.entries ++ recordsOf s g (cs.flatMap (·.pieces reader))) := by
          rw [List.append_assoc, ih b' hcs]
      _ = b.entries ++ recordsOf s g (c.pieces reader) ++
            recordsOf s g (cs.flatMap (·.pieces reader)) := by
          rw [← List.append_assoc, act_flatten reader s g b (Ne.symm hc)]
      _ = _ := List.append_assoc ..

/-- What is cut off was open before or came in. -/
theorem mem_act (reader : RecordReader) (s : BatchSettings) (g : Group) (b : Gathering)
    (c : Accumulator.Call) {e : Entry}
    (he : e ∈ (b.act reader s g c).2.flatten ++ (b.act reader s g c).1.entries) :
    e ∈ b.entries ∨ .record e ∈ c.pieces reader := by
  by_cases hc : c = .discard
  · subst hc
    cases he
  · rw [act_flatten reader s g b hc] at he
    exact (List.mem_append.mp he).imp_right fun h => (mem_recordsOf.mp h).1

theorem mem_cuts (reader : RecordReader) (s : BatchSettings) (g : Group) (b : Gathering)
    (cs : List Accumulator.Call) {e : Entry} (he : e ∈ (b.cuts reader s g cs).flatten.flatten) :
    e ∈ b.entries ∨ .record e ∈ cs.flatMap (Accumulator.Call.pieces reader) := by
  induction cs generalizing b with
  | nil => cases he
  | cons c cs ih =>
    rw [cuts, List.flatten_cons, List.flatten_append] at he
    rw [List.flatMap_cons, List.mem_append]
    obtain he | he := List.mem_append.mp he
    · exact (mem_act reader s g b c (List.mem_append_left _ he)).imp_right .inl
    · obtain he | he := ih (b.act reader s g c).1 he
      · exact (mem_act reader s g b c (List.mem_append_right _ he)).imp_right .inl
      · exact .inr (.inr he)

end Gathering

/-! ## The batches of a group -/

section

variable {s : BatchSettings} {g : Group}

/-- The batches of one group among units that are made of the given pieces. -/
def batchesOf (s : BatchSettings) (g : Group) (contents : List (List Piece)) :
    List (List Entry) :=
  (contents.map (recordsOf s g)).filter fun es => !es.isEmpty

@[simp] theorem batchesOf_append (xss yss : List (List Piece)) :
    batchesOf s g (xss ++ yss) = batchesOf s g xss ++ batchesOf s g yss := by
  simp [batchesOf]

theorem batchesOf_cons (xs : List Piece) (xss : List (List Piece)) :
    batchesOf s g (xs :: xss) =
      (if (recordsOf s g xs).isEmpty then [] else [recordsOf s g xs]) ++ batchesOf s g xss := by
  rw [batchesOf, List.map_cons, List.filter_cons]
  cases (recordsOf s g xs).isEmpty <;> rfl

theorem batchesOf_failure (m : Message) (e : DecodeError) :
    batchesOf s g [[.failure m e]] = [] := rfl

theorem batchesOf_flatten (contents : List (List (List Piece))) :
    batchesOf s g contents.flatten = (contents.map (batchesOf s g)).flatten := by
  rw [batchesOf, List.map_flatten, List.filter_flatten, List.map_map]
  rfl

/-- The batches of a group are its records. -/
theorem flatten_batchesOf (contents : List (List Piece)) :
    (batchesOf s g contents).flatten = recordsOf s g contents.flatten := by
  rw [batchesOf, List.flatten_filter_not_isEmpty, recordsOf, List.filterMap_flatten,
    List.filter_flatten, List.map_map]
  rfl

end

/-! ## Units -/

section

variable {s : BatchSettings} {u : Emission} {us : List Emission} {xs : List Piece}
  {contents : List (List Piece)}

/-- The records of one unit agree on their group. -/
theorem Emission.MadeOf.group_eq (h : u.MadeOf s xs) {e e' : Entry} (he : .record e ∈ xs)
    (he' : .record e' ∈ xs) : e.group s = e'.group s := by
  cases h with
  | batch hb hg =>
    obtain ⟨e₁, he₁, heq⟩ := List.mem_map.mp he
    obtain ⟨e₂, he₂, heq'⟩ := List.mem_map.mp he'
    obtain rfl := Piece.record.inj heq
    obtain rfl := Piece.record.inj heq'
    exact (hg e₁ he₁).trans (hg e₂ he₂).symm
  | failure m e => simp at he

theorem group_eq_of_made (h : List.Forall₂ (Emission.MadeOf s) us contents) (hxs : xs ∈ contents)
    {e e' : Entry} (he : .record e ∈ xs) (he' : .record e' ∈ xs) : e.group s = e'.group s := by
  induction h with
  | nil => cases hxs
  | cons hu _ ih =>
    obtain rfl | hxs := List.mem_cons.mp hxs
    · exact hu.group_eq he he'
    · exact ih hxs

/-- A batch is one of the batches of its group. -/
theorem exists_batchesOf (h : List.Forall₂ (Emission.MadeOf s) us contents) {b : SealedBatch}
    (hb : .batch b ∈ us) :
    ∃ g, ∃ es ∈ batchesOf s g contents, b.records = es.map (·.record.value) := by
  induction h with
  | nil => cases hb
  | @cons u xs us contents hu _ ih =>
    obtain rfl | hb := List.mem_cons.mp hb
    · cases hu with
      | @batch g b es hholds hg =>
        refine ⟨g, es, ?_, hholds.records⟩
        rw [batchesOf_cons, recordsOf_map_record hg, if_pos rfl, hholds.isEmpty]
        exact List.mem_append_left _ List.mem_cons_self
    · obtain ⟨g, es, hes, hrecords⟩ := ih hb
      refine ⟨g, es, ?_, hrecords⟩
      rw [batchesOf_cons]
      exact List.mem_append_right _ hes

/-- Of no group is there a batch, if all that was handed on are messages that could not be read. -/
theorem batchesOf_eq_nil (h : List.Forall₂ (Emission.MadeOf s) us contents)
    (hus : ∀ u ∈ us, u.isParseFailure = true) (g : Group) : batchesOf s g contents = [] := by
  induction h with
  | nil => rfl
  | @cons u xs us contents hu _ ih =>
    obtain ⟨hfailure, hus⟩ := List.forall_mem_cons.mp hus
    rw [batchesOf_cons, ih hus]
    cases hu with
    | batch hb hg => cases hfailure
    | failure m e => rfl

theorem flatten_batchesOf_eq_nil {outs : List (List Emission)} {contents : List (List (List Piece))}
    (h : List.Forall₂ (List.Forall₂ (Emission.MadeOf s)) outs contents)
    (houts : ∀ us ∈ outs, ∀ u ∈ us, u.isParseFailure = true) (g : Group) :
    (contents.map (batchesOf s g)).flatten = [] := by
  induction h with
  | nil => rfl
  | cons hus _ ih =>
    obtain ⟨hfirst, houts⟩ := List.forall_mem_cons.mp houts
    rw [List.map_cons, List.flatten_cons, batchesOf_eq_nil hus hfirst, ih houts]
    rfl

end

/-! ## What is true of each batch -/

/-- A relation between a batch and its records, which the first record brings about and each further
one keeps. -/
structure PendingBatch.IsKept (P : PendingBatch → List Entry → Prop) : Prop where
  start : ∀ sequence now e, P (.start sequence now e.message e.record.value) [e]
  push : ∀ b es e, P b es → P (b.push e.message e.record.value) (es ++ [e])

theorem PendingBatch.isKept_true : PendingBatch.IsKept fun _ _ => True :=
  ⟨fun _ _ _ => trivial, fun _ _ _ _ => trivial⟩

/-- What a unit is made of, if for each batch that is handed on the relation is true. -/
inductive Emission.MadeWith (P : PendingBatch → List Entry → Prop) (s : BatchSettings) :
    Emission → List Piece → Prop where
  | batch {g : Group} {b : PendingBatch} {es : List Entry} (hb : b.Holds es) (hP : P b es)
    (hg : ∀ e ∈ es, e.group s = g) : MadeWith P s (.batch (b.toSealed s g)) (es.map .record)
  | failure (m : Message) (e : DecodeError) :
    MadeWith P s (.parseFailure (Accumulator.failureOf s m e)) [.failure m e]

theorem Emission.MadeWith.madeOf {P : PendingBatch → List Entry → Prop} {s : BatchSettings}
    {u : Emission} {xs : List Piece} (h : u.MadeWith P s xs) : u.MadeOf s xs := by
  cases h with
  | batch hb hP hg => exact .batch hb hg
  | failure m e => exact .failure m e

namespace Accumulator

/-- Of each group the accumulator keeps the open batch that is given for it. -/
structure Gathers (a : Accumulator) (gs : Group → Gathering) : Prop where
  holds : a.Holds fun g => (gs g).entries
  since : ∀ g b, a.pending.find? g = some b → b.since = (gs g).since

/-- And for each of these batches the relation is true. -/
structure GathersWith (P : PendingBatch → List Entry → Prop) (a : Accumulator)
    (gs : Group → Gathering) : Prop extends a.Gathers gs where
  kept : ∀ g b, a.pending.find? g = some b → P b (gs g).entries

/-- What the accumulator hands on is what is cut off of the batches of all groups, and the given
messages that could not be read. -/
structure Follows (a : Accumulator) (gs : Group → Gathering) (r : Accumulator × List Emission)
    (gs' : Group → Gathering) (cuts : Group → List (List Entry)) (failed : List Piece) : Prop where
  settings : r.1.settings = a.settings
  reader : r.1.reader = a.reader
  gathers : r.1.Gathers gs'
  contents : ∃ contents, List.Forall₂ (Emission.MadeOf a.settings) r.2 contents ∧
    (∀ g, batchesOf a.settings g contents = cuts g) ∧ failuresOf contents.flatten = failed

/-- And for each batch that is handed on or kept the relation is true. -/
structure FollowsWith (P : PendingBatch → List Entry → Prop) (a : Accumulator)
    (gs : Group → Gathering) (r : Accumulator × List Emission) (gs' : Group → Gathering)
    (cuts : Group → List (List Entry)) (failed : List Piece) : Prop where
  settings : r.1.settings = a.settings
  reader : r.1.reader = a.reader
  gathers : r.1.GathersWith P gs'
  contents : ∃ contents, List.Forall₂ (Emission.MadeWith P a.settings) r.2 contents ∧
    (∀ g, batchesOf a.settings g contents = cuts g) ∧ failuresOf contents.flatten = failed

variable {P : PendingBatch → List Entry → Prop} {a a' a'' : Accumulator}
  {gs gs' gs'' : Group → Gathering} {units units' : List Emission}
  {cuts cuts' : Group → List (List Entry)} {failed failed' : List Piece}

theorem gathers_empty (h : a.pending = []) : a.Gathers fun _ => .empty where
  holds := {
    nodup := by rw [h]; exact List.nodup_nil
    batch := fun g b hb => by rw [h] at hb; cases hb
    group := fun g e he => by cases he
    nothing := fun _ _ => rfl }
  since g b hb := by rw [h] at hb; cases hb

theorem Gathers.isOpen (h : a.Gathers gs) {g : Group} {b : PendingBatch}
    (hb : a.pending.find? g = some b) : (gs g).entries.isEmpty = false :=
  (h.holds.batch g b hb).isEmpty

theorem Gathers.with_true (h : a.Gathers gs) : a.GathersWith (fun _ _ => True) gs :=
  ⟨h, fun _ _ _ => trivial⟩

theorem gathersWith_empty (h : a.pending = []) : a.GathersWith P fun _ => .empty :=
  ⟨gathers_empty h, fun g b hb => by rw [h] at hb; cases hb⟩

theorem FollowsWith.follows {r : Accumulator × List Emission}
    (h : a.FollowsWith P gs r gs' cuts failed) : a.Follows gs r gs' cuts failed := by
  obtain ⟨contents, hmade, hrest⟩ := h.contents
  exact ⟨h.settings, h.reader, h.gathers.toGathers, contents, hmade.imp fun _ _ hu => hu.madeOf,
    hrest⟩

/-- Nothing is handed on. -/
theorem FollowsWith.silent (h : a'.GathersWith P gs') (hsettings : a'.settings = a.settings)
    (hreader : a'.reader = a.reader) : a.FollowsWith P gs (a', []) gs' (fun _ => []) [] :=
  ⟨hsettings, hreader, h, [], .nil, fun _ => rfl, rfl⟩

theorem FollowsWith.refl (h : a.GathersWith P gs) :
    a.FollowsWith P gs (a, []) gs (fun _ => []) [] :=
  .silent h rfl rfl

theorem FollowsWith.trans (h : a.FollowsWith P gs (a', units) gs' cuts failed)
    (h' : a'.FollowsWith P gs' (a'', units') gs'' cuts' failed') :
    a.FollowsWith P gs (a'', units ++ units') gs'' (fun g => cuts g ++ cuts' g)
      (failed ++ failed') := by
  obtain ⟨contents, hmade, hcuts, hfailed⟩ := h.contents
  obtain ⟨contents', hmade', hcuts', hfailed'⟩ := h'.contents
  have hs : a'.settings = a.settings := h.settings
  rw [hs] at hmade' hcuts'
  refine ⟨h'.settings.trans hs, h'.reader.trans h.reader, h'.gathers, contents ++ contents',
    List.rel_append hmade hmade', fun g => ?_, ?_⟩
  · rw [batchesOf_append, hcuts, hcuts']
  · rw [List.flatten_append, failuresOf_append, hfailed, hfailed']

theorem FollowsWith.congr (h : a.FollowsWith P gs (a', units) gs' cuts failed)
    (hgs : ∀ g, gs'' g = gs' g) (hcuts : ∀ g, cuts' g = cuts g) :
    a.FollowsWith P gs (a', units) gs'' cuts' failed := by
  obtain rfl : gs'' = gs' := funext hgs
  obtain rfl : cuts' = cuts := funext hcuts
  exact h

/-! ## Sealing -/

/-- Of the batches that are sealed each one is that of its group. -/
theorem batchesOf_sealed {s : BatchSettings} {kept : Group → List Entry} {out : Pending}
    (hout : (out.map (·.1)).Nodup) (hgroup : ∀ g, ∀ e ∈ kept g, e.group s = g)
    (hfull : ∀ x ∈ out, (kept x.1).isEmpty = false) (g : Group) :
    batchesOf s g (out.map fun x => (kept x.1).map Piece.record) =
      if g ∈ out.map (·.1) then [kept g] else [] := by
  induction out with
  | nil => rfl
  | cons x rest ih =>
    obtain ⟨hnot, hrest⟩ := List.nodup_cons.mp hout
    obtain ⟨hx, hfull⟩ := List.forall_mem_cons.mp hfull
    rw [List.map_cons, List.map_cons, batchesOf_cons, ih hrest hfull,
      recordsOf_map_record (hgroup x.1)]
    by_cases heq : x.1 = g
    · subst heq
      rw [if_pos rfl, hx, if_neg Bool.false_ne_true, if_neg hnot, if_pos List.mem_cons_self,
        List.append_nil]
    · rw [if_neg heq, List.isEmpty_nil, if_pos rfl, List.nil_append]
      by_cases hg : g ∈ rest.map (·.1)
      · rw [if_pos hg, if_pos (List.mem_cons_of_mem _ hg)]
      · rw [if_neg hg, if_neg (by simp [Ne.symm heq, hg])]

section

variable {f : Group × PendingBatch → Bool} {due : Group → Bool} {out : Pending}

theorem take_sealed (h : a.Gathers gs)
    (hdue : ∀ g b, a.pending.find? g = some b → f (g, b) = due g)
    (hout : out.Perm (a.pending.filter f)) (g : Group) :
    (gs g).take (due g) =
      if g ∈ out.map (·.1) then (.empty, [(gs g).entries]) else (gs g, []) := by
  have hmem : g ∈ out.map (·.1) ↔ (due g && !(gs g).entries.isEmpty) = true := by
    rw [Bool.and_eq_true, Bool.not_eq_true']
    refine ⟨fun hg => ?_, fun ⟨hd, hopen⟩ => ?_⟩
    · obtain ⟨⟨g', b⟩, hx, rfl⟩ := List.mem_map.mp hg
      obtain ⟨hb, hf⟩ := (mem_sealed h.holds hout).mp hx
      exact ⟨(hdue _ b hb).symm.trans hf, h.isOpen hb⟩
    · cases hb : a.pending.find? g with
      | none =>
        have hnothing : (gs g).entries = [] := h.holds.nothing g hb
        rw [hnothing] at hopen
        cases hopen
      | some b =>
        have hf := (hdue g b hb).trans hd
        exact List.mem_map.mpr ⟨(g, b), (mem_sealed h.holds hout).mpr ⟨hb, hf⟩, rfl⟩
  rw [Gathering.take]
  exact if_congr hmem.symm rfl rfl

/-- A batch that is not sealed was there before, and nothing is cut off of it. -/
theorem take_kept (h : a.Gathers gs)
    (hdue : ∀ g b, a.pending.find? g = some b → f (g, b) = due g) {g : Group} {b : PendingBatch}
    (hb : Pending.find? g (a.pending.filter fun x => !f x) = some b) :
    a.pending.find? g = some b ∧ (gs g).take (due g) = (gs g, []) := by
  rw [Pending.find?_filter h.holds.nodup, Option.filter_eq_some_iff] at hb
  obtain ⟨hb, hf⟩ := hb
  rw [hdue g b hb, Bool.not_eq_true'] at hf
  rw [hf, Gathering.take_false]
  exact ⟨hb, rfl⟩

theorem gathers_sealed (h : a.GathersWith P gs)
    (hdue : ∀ g b, a.pending.find? g = some b → f (g, b) = due g)
    (hout : out.Perm (a.pending.filter f)) :
    GathersWith P { a with pending := a.pending.filter fun x => !f x }
      fun g => ((gs g).take (due g)).1 where
  holds := by
    have hholds := holds_sealed h.holds f hout
    have hkept : (fun g => if g ∈ out.map (·.1) then [] else (gs g).entries) =
        fun g => ((gs g).take (due g)).1.entries := by
      funext g
      rw [take_sealed h.toGathers hdue hout]
      split <;> rfl
    rw [hkept] at hholds
    exact hholds
  since g b hb := by
    obtain ⟨hb, hkeep⟩ := take_kept h.toGathers hdue hb
    rw [hkeep]
    exact h.since g b hb
  kept g b hb := by
    obtain ⟨hb, hkeep⟩ := take_kept h.toGathers hdue hb
    rw [hkeep]
    exact h.kept g b hb

end

/-- Some batches are sealed, in any order: those that are due. -/
theorem seal_follows (h : a.GathersWith P gs) (f : Group × PendingBatch → Bool) (due : Group → Bool)
    (hdue : ∀ g b, a.pending.find? g = some b → f (g, b) = due g)
    {out : Pending} (hout : out.Perm (a.pending.filter f)) :
    a.FollowsWith P gs
      ({ a with pending := a.pending.filter fun x => !f x },
        out.map fun x => .batch (x.2.toSealed a.settings x.1))
      (fun g => ((gs g).take (due g)).1) (fun g => ((gs g).take (due g)).2) [] := by
  have hnodup : (out.map (·.1)).Nodup :=
    (hout.map _).nodup_iff.mpr (Pending.nodup_filter h.holds.nodup f)
  have hfull : ∀ x ∈ out, (gs x.1).entries.isEmpty = false := fun x hx =>
    h.isOpen ((mem_sealed h.holds hout).mp hx).1
  refine ⟨rfl, rfl, gathers_sealed h hdue hout,
    out.map fun x => (gs x.1).entries.map .record, ?_, fun g => ?_,
    failuresOf_sealed (fun g => (gs g).entries) out⟩
  · refine List.forall₂_map_left_iff.mpr (List.forall₂_map_right_iff.mpr ?_)
    refine List.forall₂_same.mpr fun x hx => ?_
    have hfind := ((mem_sealed h.holds hout).mp hx).1
    exact .batch (h.holds.batch x.1 x.2 hfind) (h.kept x.1 x.2 hfind) (h.holds.group x.1)
  · rw [batchesOf_sealed hnodup h.holds.group hfull, take_sealed h.toGathers hdue hout]
    split <;> rfl

/-! ## Each call -/

theorem gathers_join (hP : PendingBatch.IsKept P) (h : a.GathersWith P gs) (e : Entry)
    (now next : Nat) :
    GathersWith P
      { a with
        pending := a.pending.add (e.group a.settings) a.nextSequence now e.message e.record.value
        nextSequence := next }
      fun g => if g = e.group a.settings then (gs g).join now e else gs g where
  holds := by
    have hholds := holds_join h.holds (Eq.refl (e.group a.settings)) now next
    have hkept : (fun g => if g = e.group a.settings then (gs (e.group a.settings)).entries ++ [e]
        else (gs g).entries) =
        fun g => (if g = e.group a.settings then (gs g).join now e else gs g).entries := by
      funext g
      by_cases hg : g = e.group a.settings
      · rw [if_pos hg, if_pos hg, hg]
        rfl
      · rw [if_neg hg, if_neg hg]
    rw [hkept] at hholds
    exact hholds
  since g b hb := by
    dsimp only at hb ⊢
    rw [Pending.find?_add] at hb
    split at hb
    · rename_i hg
      rw [if_pos hg, hg]
      obtain rfl := Option.some.inj hb
      cases hold : a.pending.find? (e.group a.settings) with
      | none =>
        have hnothing : (gs (e.group a.settings)).entries = [] := h.holds.nothing _ hold
        simp [Gathering.join, hnothing, PendingBatch.start]
      | some b =>
        simp only [Gathering.join, h.isOpen hold, Bool.false_eq_true, if_false, Option.elim_some]
        exact h.since _ b hold
    · rename_i hg
      rw [if_neg hg]
      exact h.since g b hb
  kept g b hb := by
    dsimp only at hb ⊢
    rw [Pending.find?_add] at hb
    split at hb
    · rename_i hg
      rw [if_pos hg, hg]
      obtain rfl := Option.some.inj hb
      cases hold : a.pending.find? (e.group a.settings) with
      | none =>
        have hnothing : (gs (e.group a.settings)).entries = [] := h.holds.nothing _ hold
        rw [Gathering.join, hnothing]
        exact hP.start a.nextSequence now e
      | some b => exact hP.push b _ e (h.kept _ b hold)
    · rename_i hg
      rw [if_neg hg]
      exact h.kept g b hb

/-- A record joins the batch of its group, which is cut off if that fills it. -/
theorem addRecord_follows (hP : PendingBatch.IsKept P) (h : a.GathersWith P gs) (e : Entry)
    (now : Nat) :
    a.FollowsWith P gs (a.addRecord e.message now (e.group a.settings) e.record)
      (fun g => ((gs g).addAll a.settings now (recordsOf a.settings g [.record e])).1)
      (fun g => ((gs g).addAll a.settings now (recordsOf a.settings g [.record e])).2) [] := by
  have hgathers := gathers_join hP h e now (a.nextSequence + 1)
  have hjoin : a.FollowsWith P gs _ _ _ _ := .silent hgathers rfl rfl
  have hadd : ∀ g, (gs g).addAll a.settings now (recordsOf a.settings g [.record e]) =
      (if g = e.group a.settings then (gs g).join now e else gs g).take
        (g == e.group a.settings &&
          decide (max 1 a.settings.maxRecords ≤ ((gs g).join now e).entries.length)) := by
    intro g
    rw [recordsOf_record]
    by_cases hg : g = e.group a.settings
    · rw [if_pos hg.symm, if_pos hg, Gathering.addAll_singleton, beq_iff_eq.mpr hg, Bool.true_and]
      rfl
    · rw [if_neg (Ne.symm hg), if_neg hg, beq_eq_false_iff_ne.mpr hg]
      rfl
  unfold addRecord
  dsimp only
  split
  · rename_i b hb
    have hrecords := (hgathers.holds.batch _ b hb).records
    rw [if_pos rfl] at hrecords
    have hsize : b.records.size = ((gs (e.group a.settings)).join now e).entries.length := by
      rw [← Array.length_toList, hrecords, List.length_map]
    have hpos : 1 ≤ b.records.size := by
      rw [hsize, Gathering.join, List.length_append]
      exact Nat.le_add_left ..
    have hdue : ∀ g, (g == e.group a.settings &&
        decide (max 1 a.settings.maxRecords ≤ ((gs g).join now e).entries.length)) =
        (g == e.group a.settings && decide (a.settings.maxRecords ≤ b.records.size)) := by
      intro g
      by_cases hg : g = e.group a.settings
      · rw [hg, ← hsize, decide_eq_decide.mpr (Nat.max_le.trans (and_iff_right hpos))]
      · rw [beq_eq_false_iff_ne.mpr hg, Bool.false_and, Bool.false_and]
    split
    · rename_i hfull
      have hseal := seal_follows hgathers (fun x => x.1 == e.group a.settings)
        (fun g => g == e.group a.settings) (fun _ _ _ => rfl)
        (Pending.perm_filter_group hgathers.holds.nodup hb)
      refine (hjoin.trans hseal).congr (fun g => ?_) fun g => ?_
      · rw [hadd, hdue, decide_eq_true hfull, Bool.and_true]
      · rw [hadd, hdue, decide_eq_true hfull, Bool.and_true, List.nil_append]
    · rename_i hroom
      refine hjoin.congr (fun g => ?_) fun g => ?_
      · rw [hadd, hdue, decide_eq_false hroom, Bool.and_false, Gathering.take_false]
      · rw [hadd, hdue, decide_eq_false hroom, Bool.and_false, Gathering.take_false]
  · rename_i hb
    rw [Pending.find?_add, if_pos rfl] at hb
    cases hb

theorem addRecords_follows (hP : PendingBatch.IsKept P) (h : a.GathersWith P gs) (m : Message)
    (now : Nat) {es : List Entry} (hes : ∀ e ∈ es, e.message = m) :
    a.FollowsWith P gs (a.addRecords m now (commonGroup a.settings m) (es.map (·.record)))
      (fun g => ((gs g).addAll a.settings now (recordsOf a.settings g (es.map .record))).1)
      (fun g => ((gs g).addAll a.settings now (recordsOf a.settings g (es.map .record))).2) [] := by
  induction es generalizing a gs with
  | nil => exact .refl h
  | cons e es ih =>
    obtain rfl := hes e List.mem_cons_self
    have hfirst := addRecord_follows hP h e now
    have hrest := ih hfirst.gathers fun e' he' => hes e' (List.mem_cons_of_mem e he')
    rw [hfirst.settings] at hrest
    have hsplit : ∀ g, (gs g).addAll a.settings now
        (recordsOf a.settings g ((e :: es).map .record)) = _ := fun g => by
      rw [List.map_cons, ← List.singleton_append, recordsOf_append, Gathering.addAll_append]
    exact (hfirst.trans hrest).congr (fun g => by rw [hsplit]) fun g => by rw [hsplit]

theorem absorb_followsWith (hP : PendingBatch.IsKept P) (h : a.GathersWith P gs) (m : Message)
    (now : Nat) :
    a.FollowsWith P gs (a.absorb m now)
      (fun g => ((gs g).act a.reader a.settings g (.absorb m now)).1)
      (fun g => ((gs g).act a.reader a.settings g (.absorb m now)).2)
      (failuresOf (m.pieces a.reader)) := by
  simp only [absorb, Gathering.act, Message.pieces]
  cases a.reader m.payload with
  | ok rs =>
    have hfollows := addRecords_follows hP h m now (m.message_of_mem_entries rs)
    rw [Message.map_record_entries] at hfollows
    dsimp only
    rw [failuresOf_map_record]
    exact hfollows
  | error e =>
    exact ⟨rfl, rfl, h, [[.failure m e]], .cons (.failure m e) .nil,
      fun _ => batchesOf_failure m e, rfl⟩

theorem sealAll_follows (h : a.GathersWith P gs) (f : Group × PendingBatch → Bool)
    (due : Group → Bool) (hdue : ∀ g b, a.pending.find? g = some b → f (g, b) = due g) :
    a.FollowsWith P gs
      ({ a with pending := a.pending.filter fun x => !f x },
        Pending.sealAll a.settings (a.pending.filter f))
      (fun g => ((gs g).take (due g)).1) (fun g => ((gs g).take (due g)).2) [] :=
  seal_follows h f due hdue (List.mergeSort_perm _ _)

theorem takeExpired_follows (h : a.GathersWith P gs) (now : Nat) :
    a.FollowsWith P gs (a.takeExpired now)
      (fun g => ((gs g).act a.reader a.settings g (.takeExpired now)).1)
      (fun g => ((gs g).act a.reader a.settings g (.takeExpired now)).2) [] := by
  unfold takeExpired
  rw [List.partition_eq_filter_filter]
  refine sealAll_follows h (fun x => isExpired a.settings now x.2) _ fun g b hb => ?_
  rw [isExpired, h.since g b hb]

theorem flushAll_followsWith (h : a.GathersWith P gs) :
    a.FollowsWith P gs a.flushAll
      (fun g => ((gs g).act a.reader a.settings g .flushAll).1)
      (fun g => ((gs g).act a.reader a.settings g .flushAll).2) [] := by
  have hfollows := sealAll_follows h (fun _ => true) (fun _ => true) fun _ _ _ => rfl
  have hall : a.pending.filter (fun _ => true) = a.pending := List.filter_eq_self.mpr fun _ _ => rfl
  have hnone : a.pending.filter (fun _ => !true) = [] :=
    List.filter_eq_nil_iff.mpr fun _ _ => Bool.false_ne_true
  rw [hall, hnone] at hfollows
  exact hfollows

/-- In every call the accumulator hands on what is cut off of the batch of each group. -/
theorem act_followsWith (hP : PendingBatch.IsKept P) (h : a.GathersWith P gs) (c : Call) :
    a.FollowsWith P gs (a.act c) (fun g => ((gs g).act a.reader a.settings g c).1)
      (fun g => ((gs g).act a.reader a.settings g c).2) (failuresOf (c.pieces a.reader)) := by
  cases c with
  | absorb m now => exact absorb_followsWith hP h m now
  | takeExpired now => exact takeExpired_follows h now
  | flushAll => exact flushAll_followsWith h
  | discard => exact .silent (gathersWith_empty rfl) rfl rfl

theorem absorb_follows (h : a.Gathers gs) (m : Message) (now : Nat) :
    a.Follows gs (a.absorb m now)
      (fun g => ((gs g).act a.reader a.settings g (.absorb m now)).1)
      (fun g => ((gs g).act a.reader a.settings g (.absorb m now)).2)
      (failuresOf (m.pieces a.reader)) :=
  (absorb_followsWith PendingBatch.isKept_true h.with_true m now).follows

theorem flushAll_follows (h : a.Gathers gs) :
    a.Follows gs a.flushAll
      (fun g => ((gs g).act a.reader a.settings g .flushAll).1)
      (fun g => ((gs g).act a.reader a.settings g .flushAll).2) [] :=
  (flushAll_followsWith h.with_true).follows

theorem act_follows (h : a.Gathers gs) (c : Call) :
    a.Follows gs (a.act c) (fun g => ((gs g).act a.reader a.settings g c).1)
      (fun g => ((gs g).act a.reader a.settings g c).2) (failuresOf (c.pieces a.reader)) :=
  (act_followsWith PendingBatch.isKept_true h.with_true c).follows

/-! ## What was taken in -/

/-- If what is cut off and what is left is what there was, nothing got lost. -/
theorem Follows.takes {new : List Piece} (h : a.Follows gs (a', units) gs' cuts (failuresOf new))
    (hcuts : ∀ g, (cuts g).flatten ++ (gs' g).entries =
      (gs g).entries ++ recordsOf a.settings g new) :
    ∃ contents, a.Takes (fun g => (gs g).entries) new (a', units) (fun g => (gs' g).entries)
      contents := by
  obtain ⟨contents, hmade, hbatches, hfailures⟩ := h.contents
  refine ⟨contents, h.settings, h.reader, h.gathers.holds, hmade, fun g => ?_, hfailures⟩
  rw [← flatten_batchesOf, hbatches, hcuts]

variable {kept : Group → List Entry}

theorem Holds.gathers (h : a.Holds kept) :
    a.Gathers fun g => ⟨((a.pending.find? g).map (·.since)).getD 0, kept g⟩ where
  holds := h
  since g b hb := by
    rw [hb]
    rfl

/-- What a call takes in is handed on or kept, and so is what was kept before. -/
theorem act_takes (h : a.Holds kept) (c : Call) (hc : c ≠ .discard) :
    ∃ kept' contents, a.Takes kept (c.pieces a.reader) (a.act c) kept' contents :=
  ⟨_, (act_follows h.gathers c).takes fun g => Gathering.act_flatten a.reader a.settings g _ hc⟩

theorem absorbAll_takes (h : a.Holds kept) (now : Nat) (ms : List Message) :
    ∃ kept' contents,
      a.Takes kept (ms.flatMap (·.pieces a.reader)) (a.absorbAll now ms) kept' contents := by
  induction ms generalizing a kept with
  | nil => exact ⟨kept, [], .refl h⟩
  | cons m ms ih =>
    obtain ⟨kept₁, first, hfirst⟩ := act_takes h (.absorb m now) nofun
    obtain ⟨kept', rest, hrest⟩ := ih hfirst.holds
    rw [hfirst.reader] at hrest
    exact ⟨kept', first ++ rest, hfirst.trans hrest⟩

/-- What a poll brings is handed on or kept, and so is what was kept before. -/
theorem receive_takes (h : a.Holds kept) (now : Nat) (ms : List Message) :
    ∃ kept' contents,
      a.Takes kept (ms.flatMap (·.pieces a.reader)) (a.receive now ms) kept' contents := by
  obtain ⟨kept₁, full, hfull⟩ := absorbAll_takes h now ms
  obtain ⟨kept', expired, hexpired⟩ := act_takes hfull.holds (.takeExpired now) nofun
  have htakes := hfull.trans hexpired
  rw [show Call.pieces _ (.takeExpired now) = [] from rfl, List.append_nil] at htakes
  exact ⟨kept', full ++ expired, htakes⟩

theorem flushAll_takes (h : a.Holds kept) :
    ∃ kept' contents, a.Takes kept [] a.flushAll kept' contents := act_takes h .flushAll nofun

/-! ## Runs -/

/-- What the accumulator hands on in each of some calls, seen from each group. -/
theorem outputs_follow (hP : PendingBatch.IsKept P) (h : a.GathersWith P gs) (cs : List Call) :
    (a.after cs).settings = a.settings ∧
      (a.after cs).GathersWith P (fun g => (gs g).after a.reader a.settings g cs) ∧
      ∃ contents : List (List (List Piece)),
        List.Forall₂ (List.Forall₂ (Emission.MadeWith P a.settings)) (a.outputs cs) contents ∧
        (∀ g, contents.map (batchesOf a.settings g) =
          (gs g).cuts a.reader a.settings g cs) ∧
        failuresOf contents.flatten.flatten = failuresOf (cs.flatMap (Call.pieces a.reader)) := by
  induction cs generalizing a gs with
  | nil => exact ⟨rfl, h, [], .nil, fun _ => rfl, rfl⟩
  | cons c cs ih =>
    have hact := act_followsWith hP h c
    obtain ⟨contents₁, hmade₁, hcuts₁, hfailed₁⟩ := hact.contents
    obtain ⟨hsettings, hgathers, contents, hmade, hcuts, hfailed⟩ := ih hact.gathers
    rw [hact.settings, hact.reader] at hgathers hcuts
    rw [hact.settings] at hmade hsettings
    rw [hact.reader] at hfailed
    refine ⟨hsettings, hgathers, contents₁ :: contents, .cons hmade₁ hmade, fun g => ?_, ?_⟩
    · rw [List.map_cons, hcuts₁, hcuts]
      rfl
    · rw [List.flatten_cons, List.flatten_append, failuresOf_append, hfailed₁, hfailed,
        List.flatMap_cons, failuresOf_append]

theorem outputs_start (reader : RecordReader) (s : BatchSettings) (cs : List Call) :
    ((start reader s).after cs).settings = s ∧
      ((start reader s).after cs).Gathers (fun g => Gathering.empty.after reader s g cs) ∧
      ∃ contents : List (List (List Piece)),
        List.Forall₂ (List.Forall₂ (Emission.MadeOf s)) ((start reader s).outputs cs) contents ∧
        (∀ g, contents.map (batchesOf s g) = Gathering.empty.cuts reader s g cs) ∧
        failuresOf contents.flatten.flatten = failuresOf (cs.flatMap (Call.pieces reader)) := by
  obtain ⟨hsettings, hgathers, contents, hmade, hrest⟩ :=
    outputs_follow (a := start reader s) PendingBatch.isKept_true (gathersWith_empty rfl) cs
  exact ⟨hsettings, hgathers.toGathers, contents,
    hmade.imp fun _ _ hus => hus.imp fun _ _ hu => hu.madeOf, hrest⟩

end Accumulator
end RecordIntake
