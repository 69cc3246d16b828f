import RecordIntake.Proofs.Cutting
import RecordIntake.Proofs.Position

/-!
Whatever is committed was accepted by a sink before.  A record goes from the log into the
accumulator of a lease, from there into a unit, and with that to a sink.  Only when nothing of what
a lease absorbed is still on its way does it commit, and then up to its position.  What gets lost on
the way, when a lease faults or is given up, lies behind the position to which the connection moves
back.
-/
namespace RecordIntake

open Cluster (Reads)

def Event.accepted? : Event → Option Emission
  | .emitted _ e => some e
  | _ => none

/-- What the sinks have accepted, latest first. -/
def accepted (journal : List Event) : List Emission := journal.filterMap Event.accepted?

namespace Cluster

/-- Every piece of the messages below an offset is among the given ones. -/
structure HandedBelow (c : Cluster) (reader : RecordReader) (xs : List Piece) (p : Partition)
    (n : Int) : Prop where
  le_size : n ≤ (c.log p).size
  mem : ∀ m ∈ c.log p, m.offset < n → ∀ x ∈ m.pieces reader, x ∈ xs

/-- What the sinks have accepted can be told apart into pieces such that every piece of the messages
below the given offsets has its own place there. -/
def HandedOn (c : Cluster) (reader : RecordReader) (s : BatchSettings) (offsets : Offsets)
    (journal : List Event) : Prop :=
  ∃ contents, List.Forall₂ (Emission.MadeOf s) (accepted journal) contents ∧
    ∀ p n, offsets.find? p = some n → c.HandedBelow reader contents.flatten p n

namespace HandedBelow

variable {c : Cluster} {reader : RecordReader} {xs ys : List Piece} {p : Partition} {n : Int}

theorem mono (h : c.HandedBelow reader xs p n) (hxs : ∀ x ∈ xs, x ∈ ys) :
    c.HandedBelow reader ys p n :=
  ⟨h.le_size, fun m hm hlt x hx => hxs x (h.mem m hm hlt x hx)⟩

/-- Below the first offset there is nothing. -/
theorem zero (hc : c.Consistent) : c.HandedBelow reader xs p 0 where
  le_size := Int.natCast_nonneg _
  mem m hm hlt := by
    obtain ⟨i, hi⟩ := Array.mem_iff_getElem?.mp hm
    rw [(hc.placed p i m hi).2] at hlt
    omega

/-- New messages come behind. -/
theorem grow {env env' : Environment} (h : env.cluster.HandedBelow reader xs p n)
    (hgrows : env.Grows env') (hc : env'.cluster.Consistent) :
    env'.cluster.HandedBelow reader xs p n where
  le_size := Int.le_trans h.le_size (Int.ofNat_le.mpr (hgrows.size_le p))
  mem m hm hlt := by
    obtain ⟨i, hi⟩ := Array.mem_iff_getElem?.mp hm
    have hoffset := (hc.placed p i m hi).2
    have hsize := h.le_size
    have hold : (env.cluster.log p)[i]? = some m := by
      rw [← hi]
      exact (hgrows.getElem? (by omega)).symm
    exact h.mem m (Array.mem_iff_getElem?.mpr ⟨i, hold⟩) hlt

/-- What is read on from there goes up to the position behind it. -/
theorem read (h : c.HandedBelow reader xs p n) (hc : c.Consistent) {seen : List Message}
    (hne : seen ≠ []) (hreads : Reads (c.log p) n seen)
    (hseen : ∀ m ∈ seen, ∀ x ∈ m.pieces reader, x ∈ xs) :
    c.HandedBelow reader xs p (n + seen.length) where
  le_size := hreads.bounded hne
  mem m hm hlt := by
    obtain ⟨i, hi⟩ := Array.mem_iff_getElem?.mp hm
    have hoffset := (hc.placed p i m hi).2
    by_cases hbefore : m.offset < n
    · exact h.mem m hm hbefore
    · exact hseen m (hreads.complete i m hi (by omega) (by omega))

end HandedBelow

theorem HandedOn.grow {env env' : Environment} {reader : RecordReader} {s : BatchSettings}
    {offsets : Offsets} {journal : List Event}
    (h : env.cluster.HandedOn reader s offsets journal) (hgrows : env.Grows env')
    (hc : env'.cluster.Consistent) : env'.cluster.HandedOn reader s offsets journal := by
  obtain ⟨contents, hmade, hbelow⟩ := h
  exact ⟨contents, hmade, fun p n hn => (hbelow p n hn).grow hgrows hc⟩

end Cluster

/-! ## On the way to a sink -/

/-- Every piece of the messages was accepted, is in a unit that is due, or is kept. -/
structure Work.HandsOn (reader : RecordReader) (s : BatchSettings) (x : Work) (ms : List Message)
    (done : List Piece) : Prop where
  reader_eq : x.lease.accumulator.reader = reader
  settings_eq : x.lease.accumulator.settings = s
  flushed : x.errand = .commit → x.lease.accumulator.pending = []
  pieces : ∃ kept contents, x.lease.accumulator.Holds kept ∧
    List.Forall₂ (Emission.MadeOf s) x.units contents ∧
      ∀ m ∈ ms, ∀ y ∈ m.pieces reader,
        y ∈ done ∨ y ∈ contents.flatten ∨ ∃ g, ∃ e ∈ kept g, y = .record e

namespace Work.HandsOn

variable {reader : RecordReader} {s : BatchSettings} {x : Work} {l : Lease} {ms ns : List Message}
  {done : List Piece}

theorem mono (h : x.HandsOn reader s ms done) {more : List Piece}
    (hmore : ∀ y ∈ done, y ∈ more) : x.HandsOn reader s ms more where
  reader_eq := h.reader_eq
  settings_eq := h.settings_eq
  flushed := h.flushed
  pieces := by
    obtain ⟨kept, contents, hkept, hmade, hpieces⟩ := h.pieces
    exact ⟨kept, contents, hkept, hmade, fun m hm y hy => (hpieces m hm y hy).imp_left (hmore y)⟩

theorem like (h : x.HandsOn reader s ms done) {x' : Work} (hx : x.Like x') :
    x'.HandsOn reader s ms done where
  reader_eq := hx.accumulator ▸ h.reader_eq
  settings_eq := hx.accumulator ▸ h.settings_eq
  flushed he := hx.accumulator ▸ h.flushed (hx.errand he)
  pieces := by
    rw [hx.accumulator, hx.units]
    exact h.pieces

theorem issue (id : LeaseId) (c : Connection) (reader : RecordReader) (settings : IntakeSettings)
    (sink : String) (now : Nat) (done : List Piece) :
    HandsOn reader settings.batch ⟨Lease.issue id c reader settings sink now, [], .poll⟩ []
      done where
  reader_eq := rfl
  settings_eq := rfl
  flushed h := by cases h
  pieces := ⟨_, [], Accumulator.holds_start reader settings.batch, .nil, fun m hm => by cases hm⟩

/-- A unit was accepted. -/
theorem accept {e : Emission} {units : List Emission} {errand : Errand}
    (h : HandsOn reader s ⟨l, e :: units, errand⟩ ms done) :
    ∃ content, Emission.MadeOf s e content ∧
      HandsOn reader s ⟨l, units, errand⟩ ms (content ++ done) := by
  obtain ⟨kept, contents, hkept, hmade, hpieces⟩ := h.pieces
  obtain _ | ⟨hcontent, hmade⟩ := hmade
  rename_i content contents
  refine ⟨content, hcontent, h.reader_eq, h.settings_eq, h.flushed, kept, contents, hkept, hmade,
    fun m hm y hy => ?_⟩
  obtain hdone | hdue | hkept := hpieces m hm y hy
  · exact .inl (List.mem_append_right content hdone)
  · rw [List.flatten_cons] at hdue
    obtain hnow | hdue := List.mem_append.mp hdue
    · exact .inl (List.mem_append_left done hnow)
    · exact .inr (.inl hdue)
  · exact .inr (.inr hkept)

/-- The accumulator took in more, or handed on what it had kept. -/
theorem take (h : HandsOn reader s ⟨l, [], .poll⟩ ms done) {l' : Lease} {units : List Emission}
    {errand : Errand}
    (htakes : ∀ kept, l.accumulator.Holds kept → ∃ kept' contents,
      l.accumulator.Takes kept (ns.flatMap (·.pieces reader)) (l'.accumulator, units) kept'
        contents)
    (hflushed : errand = .commit → l'.accumulator.pending = []) :
    HandsOn reader s ⟨l', units, errand⟩ (ms ++ ns) done := by
  obtain ⟨kept, contents, hkept, hmade, hpieces⟩ := h.pieces
  cases hmade
  obtain ⟨kept', contents, htakes⟩ := htakes kept hkept
  have hsettings : l.accumulator.settings = s := h.settings_eq
  refine ⟨htakes.reader.trans h.reader_eq, htakes.settings.trans h.settings_eq, hflushed, kept',
    contents, htakes.holds, hsettings ▸ htakes.made, fun m hm y hy => ?_⟩
  obtain hm | hm := List.mem_append.mp hm
  · obtain hdone | hdue | ⟨g, e, he, rfl⟩ := hpieces m hm y hy
    · exact .inl hdone
    · cases hdue
    · obtain hdue | he := htakes.mem_of_kept he
      · exact .inr (.inl hdue)
      · exact .inr (.inr ⟨g, e, he, rfl⟩)
  · exact .inr (htakes.mem (List.mem_flatMap.mpr ⟨m, hm, hy⟩))

theorem absorbs (h : HandsOn reader s ⟨l, [], .poll⟩ ms done) {ph' : Phase}
    (habsorbs : l.Absorbs ns ph') (hx : ph'.work? = some x) :
    x.HandsOn reader s (ms ++ ns) done := by
  have hreader : l.accumulator.reader = reader := h.reader_eq
  cases habsorbs with
  | waits deadline hns =>
    cases hx
    rw [hns, List.append_nil]
    exact h
  | fails e hns =>
    simp only [Phase.work?, Lease.fault_state, if_true] at hx
    cases hx
  | receives now received =>
    cases hx
    exact h.take (fun kept hkept => hreader ▸ Accumulator.receive_takes hkept now ns)
      fun he => by cases he
  | flushes hns =>
    cases hx
    rw [hns]
    exact h.take (fun kept hkept => Accumulator.flushAll_takes hkept) fun _ => rfl

/-- When a lease commits, nothing is on the way any more. -/
theorem complete (h : HandsOn reader s ⟨l, [], .commit⟩ ms done) :
    ∀ m ∈ ms, ∀ y ∈ m.pieces reader, y ∈ done := by
  intro m hm y hy
  obtain ⟨kept, contents, hkept, hmade, hpieces⟩ := h.pieces
  cases hmade
  obtain hdone | hdue | ⟨g, e, he, -⟩ := hpieces m hm y hy
  · exact hdone
  · cases hdue
  · rw [hkept.nothing_of_empty (h.flushed rfl) g] at he
    cases he

theorem startNextCycle (h : HandsOn reader s ⟨l, [], .commit⟩ ms done) (now : Nat) :
    HandsOn reader s ⟨l.startNextCycle now, [], .poll⟩ [] done where
  reader_eq := h.reader_eq
  settings_eq := h.settings_eq
  flushed he := by cases he
  pieces := by
    obtain ⟨kept, contents, hkept, hmade, -⟩ := h.pieces
    exact ⟨kept, contents, hkept, hmade, fun m hm => by cases hm⟩

end Work.HandsOn

/-! ## Every step -/

namespace World

/-- Wherever a connection may go on from, everything below was accepted. -/
structure Handed (w : World) (contents : List (List Piece)) : Prop where
  made : List.Forall₂ (Emission.MadeOf w.pool.settings.batch) (accepted w.env.journal) contents
  committed : ∀ p n, w.env.cluster.committed.find? p = some n →
    w.env.cluster.HandedBelow w.pool.reader contents.flatten p n
  starts : ∀ id p n, startOf id p w.history = some n →
    w.env.cluster.HandedBelow w.pool.reader contents.flatten p n
  spare : ∀ c, w.Spare c → ∀ p n, c.positions.find? p = some n →
    w.env.cluster.HandedBelow w.pool.reader contents.flatten p n
  work : ∀ id ph x, w.phases.find? id = some ph → ph.work? = some x →
    x.HandsOn w.pool.reader w.pool.settings.batch (absorbed id w.history) contents.flatten

variable {w w' : World} {contents : List (List Piece)}

theorem accepted_steady {env env' : Environment} (h : env.Steady env') :
    accepted env'.journal = accepted env.journal := by
  obtain ⟨es, hes, hj⟩ := h.journal
  have hquiet : es.filterMap Event.accepted? = [] := by
    refine List.filterMap_eq_nil_iff.mpr fun e he => ?_
    have hquiet := hes e he
    cases e with
    | emitted sink unit => cases hquiet
    | connected | polled | committed | rewound | counted | closed | refused | poolMissing => rfl
  rw [accepted, hj, List.filterMap_append, hquiet]
  rfl

theorem handed_start (maxPollRecords now : Nat) (s : Subscription) (reader : RecordReader)
    (settings : IntakeSettings) : Handed (.start maxPollRecords now s reader settings) [] where
  made := .nil
  committed p n h := by cases h
  starts id p n h := by cases h
  spare c hc := by
    cases hc with
    | idle i h => cases h
    | inquiry x h => cases h
    | opening id o sink h => cases h
  work id ph x h := by cases h

theorem handed_calm (hc : w'.env.cluster.Consistent) (hcalm : Calm w w') (h : Handed w contents) :
    Handed w' contents where
  made := by
    rw [accepted_steady hcalm.steady, hcalm.terms.settings]
    exact h.made
  committed p n hn := by
    rw [hcalm.terms.reader]
    exact (h.committed p n (hcalm.steady.committed ▸ hn)).grow hcalm.steady.toGrows hc
  starts id p n hn := by
    rw [hcalm.terms.reader]
    exact (h.starts id p n (hcalm.history ▸ hn)).grow hcalm.steady.toGrows hc
  spare c hspare p n hn := by
    rw [hcalm.terms.reader]
    obtain hspare | ⟨hnil, -⟩ := hcalm.spare c hspare
    · exact (h.spare c hspare p n hn).grow hcalm.steady.toGrows hc
    · rw [hnil] at hn
      cases hn
  work id ph' x' hph' hx' := by
    rw [hcalm.terms.reader, hcalm.terms.settings, hcalm.history]
    obtain ⟨hnone, -⟩ | ⟨ph, hph, hcont⟩ := hcalm.phases id ph' hph'
    · rw [Phase.lease_of_work hx'] at hnone
      cases hnone
    · obtain ⟨x, hx, hlike⟩ := hcont.work x' hx'
      exact (h.work id ph x hph hx).like hlike

/-- A step of one lease, after which more may have been accepted. -/
theorem handed_insert (h : Handed w contents) {env : Environment} {p' : Pool} {id : LeaseId}
    {ph' : Phase} (os : List Occurrence) (more : List (List Piece))
    (hc : env.cluster.Consistent) (hgrows : w.env.Grows env) (hterms : Pool.SameTerms w.pool p')
    (hos : ∀ o ∈ os, ∀ id', id' ≠ id → o.Other id')
    (hmade : List.Forall₂ (Emission.MadeOf w.pool.settings.batch) (accepted env.journal)
      (more ++ contents))
    (hcommitted : ∀ p n, env.cluster.committed.find? p = some n →
      w.env.cluster.HandedBelow w.pool.reader contents.flatten p n)
    (hstarts : ∀ p n, startOf id p (os ++ w.history) = some n →
      w.env.cluster.HandedBelow w.pool.reader contents.flatten p n)
    (hspare : ∀ c,
      Spare
        { w with
          env := env
          pool := p'
          phases := w.phases.insert id ph'
          history := os ++ w.history } c →
      ∀ p n, c.positions.find? p = some n →
        w.env.cluster.HandedBelow w.pool.reader contents.flatten p n)
    (hwork : ∀ x, ph'.work? = some x →
      x.HandsOn w.pool.reader w.pool.settings.batch (absorbed id (os ++ w.history))
        (more ++ contents).flatten) :
    Handed
      { w with
        env := env
        pool := p'
        phases := w.phases.insert id ph'
        history := os ++ w.history } (more ++ contents) := by
  have hall : ∀ x ∈ contents.flatten, x ∈ (more ++ contents).flatten := by
    intro x hx
    rw [List.flatten_append]
    exact List.mem_append_right _ hx
  have hbelow : ∀ {p n}, w.env.cluster.HandedBelow w.pool.reader contents.flatten p n →
      env.cluster.HandedBelow p'.reader (more ++ contents).flatten p n := by
    intro p n hn
    rw [hterms.reader]
    exact (hn.grow hgrows hc).mono hall
  refine ⟨?_, fun p n hn => hbelow (hcommitted p n hn), fun id' p n hn => ?_,
    fun c hspare' p n hn => hbelow (hspare c hspare' p n hn), fun id' ph x hph hx => ?_⟩
  · show List.Forall₂ (Emission.MadeOf p'.settings.batch) _ _
    rw [hterms.settings]
    exact hmade
  · by_cases hne : id' = id
    · exact hbelow (hstarts p n (hne ▸ hn))
    · have hother := startOf_append_other (fun o ho => hos o ho id' hne) p w.history
      exact hbelow (h.starts id' p n (hother ▸ hn))
  · show x.HandsOn p'.reader p'.settings.batch _ _
    rw [hterms.reader, hterms.settings]
    rw [SortedMap.find?_insert] at hph
    split at hph
    · rename_i heq
      cases hph
      exact heq ▸ hwork x hx
    · rename_i hne
      have hother := absorbed_append_other (fun o ho => hos o ho id' hne) w.history
      show x.HandsOn _ _ (absorbed id' (os ++ w.history)) _
      rw [hother]
      exact (h.work id' ph x hph hx).mono hall

/-- A step of one lease in which no unit is accepted and nothing is committed. -/
theorem handed_lease (h : Handed w contents) {env : Environment} {id : LeaseId} {ph' : Phase}
    (os : List Occurrence) (hc : env.cluster.Consistent) (hgrows : w.env.Grows env)
    (haccepted : accepted env.journal = accepted w.env.journal)
    (hcommitted : env.cluster.committed = w.env.cluster.committed)
    (hos : ∀ o ∈ os, ∀ id', id' ≠ id → o.Other id') (hopening : ∀ o sink, ph' ≠ .opening o sink)
    (hstarts : ∀ p n, startOf id p (os ++ w.history) = some n →
      w.env.cluster.HandedBelow w.pool.reader contents.flatten p n)
    (hwork : ∀ x, ph'.work? = some x →
      x.HandsOn w.pool.reader w.pool.settings.batch (absorbed id (os ++ w.history))
        contents.flatten) :
    Handed
      { w with
        env := env
        phases := w.phases.insert id ph'
        history := os ++ w.history } contents :=
  handed_insert h os [] hc hgrows (.refl w.pool) hos (haccepted ▸ h.made)
    (fun p n hn => h.committed p n (hcommitted ▸ hn)) hstarts
    (fun c hspare => h.spare c (hspare.of_insert hopening)) hwork

/-- A lease that is about to commit has handed on everything below its position. -/
theorem position_below (htracked : Tracked w) (h : Handed w contents) {id : LeaseId} {l : Lease}
    (hph : w.phases.find? id = some (.emitting l [] .commit)) {p : Partition} {n : Int}
    (hn : l.connection.positions.find? p = some n) :
    w.env.cluster.HandedBelow w.pool.reader contents.flatten p n := by
  have hkeeps := (htracked.lease id _ l hph rfl).keeps p
  have hdone := (h.work id _ _ hph rfl).complete
  rw [hn] at hkeeps
  generalize hstart : startOf id p w.history = start at hkeeps
  generalize hseen : Message.onlyOf p (absorbed id w.history) = seen at hkeeps
  generalize l.ledger.ranges.find? p = range at hkeeps
  cases hkeeps with
  | nothing => exact h.starts id p n hstart
  | range hne hreads =>
    refine (h.starts id p _ hstart).read htracked.consistent hne hreads fun m hm => ?_
    exact hdone m (List.mem_of_mem_filter (hseen ▸ hm))

/-- What a lease commits lies below its position. -/
theorem committable_below (htracked : Tracked w) (h : Handed w contents) {id : LeaseId} {l : Lease}
    (hph : w.phases.find? id = some (.emitting l [] .commit)) {p : Partition} {n : Int}
    (hn : l.ledger.committable.find? p = some n) :
    w.env.cluster.HandedBelow w.pool.reader contents.flatten p n := by
  rw [Ledger.find?_committable] at hn
  obtain ⟨r, hr, rfl⟩ := Option.map_eq_some_iff.mp hn
  exact position_below htracked h hph (((htracked.lease id _ l hph rfl).keeps p).next r hr)

theorem handed_lend (h : Handed w contents) {id : LeaseId} {o : Offer} {sink sink' : String}
    {c : Connection} {env : Environment} (hc : env.cluster.Consistent)
    (hph : w.phases.find? id = some (.opening o sink)) (hsteady : w.env.Steady env)
    (hy : Pool.Supply.Yields w.pool o.supply c) (now : Nat) :
    Handed
      { w with
        env := env
        phases := w.phases.insert id
          (.held (Lease.issue o.lease c w.pool.reader w.pool.settings sink' now))
        history := .lent id c :: w.history } contents := by
  refine handed_lease h [.lent id c] hc hsteady.toGrows (accepted_steady hsteady)
    hsteady.committed (List.forall_mem_singleton.mpr fun id' hne => hne.symm) (by simp)
    (fun p n hn => ?_) fun x hx => ?_
  · have hn : c.positions.find? p = some n := (if_pos rfl).symm.trans hn
    obtain hspare | ⟨hnil, -⟩ := spare_of_yields hph hy
    · exact h.spare c hspare p n hn
    · rw [hnil] at hn
      cases hn
  · cases hx
    have hnone : absorbed id ([.lent id c] ++ w.history) = [] := if_pos rfl
    rw [hnone]
    exact .issue ..

/-- What is read is absorbed, and what is read for the first time is read from a committed
offset. -/
theorem handed_read (htracked : Tracked w) (h : Handed w contents) {id : LeaseId} {l : Lease}
    {env : Environment} {after : Connection} {ms : List Message} {ph' : Phase}
    (hc : env.cluster.Consistent) (hph : w.phases.find? id = some (.held l))
    (hl : l.state ≠ .faulted) (hsteady : w.env.Steady env)
    (hph' : Lease.Absorbs { l with state := .polling, connection := after } ms ph') :
    Handed
      { w with
        env := env
        phases := w.phases.insert id ph'
        history := .read id w.env.cluster l.connection after ms :: w.history } contents := by
  refine handed_lease h [.read id w.env.cluster l.connection after ms] hc
    hsteady.toGrows (accepted_steady hsteady) hsteady.committed
    (List.forall_mem_singleton.mpr fun id' hne => hne.symm) hph'.not_opening
    (fun p n hn => ?_) fun x hx => ?_
  · rw [List.singleton_append, startOf, if_pos rfl] at hn
    obtain hn | ⟨-, hn⟩ := Option.or_eq_some_iff.mp hn
    · exact h.starts id p n hn
    · split at hn
      · obtain rfl := Option.some.inj hn
        cases hcommitted : w.env.cluster.committed.find? p with
        | none => exact .zero htracked.consistent
        | some n => exact h.committed p n hcommitted
      · cases hn
  · have hold := h.work id _ ⟨l, [], .poll⟩ hph (if_neg hl)
    have hseen : absorbed id ([.read id w.env.cluster l.connection after ms] ++ w.history) =
        absorbed id w.history ++ ms := if_pos rfl
    rw [hseen]
    exact .absorbs (l := { l with state := .polling, connection := after })
      ⟨hold.reader_eq, hold.settings_eq, hold.flushed, hold.pieces⟩ hph' hx

theorem handed_accept (h : Handed w contents) {id : LeaseId} {l : Lease} {e : Emission}
    {units : List Emission} {errand : Errand} {env : Environment} (hc : env.cluster.Consistent)
    (hph : w.phases.find? id = some (.emitting l (e :: units) errand))
    (hcluster : env.cluster = w.env.cluster)
    (hj : env.journal = .emitted l.sink e :: w.env.journal) :
    ∃ content, Handed
      { w with env := env, phases := w.phases.insert id (.emitting l units errand) }
      (content :: contents) := by
  obtain ⟨content, hmade, hwork⟩ := (h.work id _ _ hph rfl).accept
  refine ⟨content, handed_insert h [] [content] hc (.of_logs (by rw [hcluster]))
    (.refl w.pool) (by simp) ?_ (fun p n hn => h.committed p n (hcluster ▸ hn)) (h.starts id)
    (fun c hspare => h.spare c (Spare.of_insert (by simp) hspare)) fun x hx => ?_⟩
  · rw [accepted, hj]
    exact .cons hmade h.made
  · cases hx
    exact hwork

/-- A lease commits, and starts over from where it stands. -/
theorem handed_commit (htracked : Tracked w) (h : Handed w contents) {id : LeaseId} {l : Lease}
    {env : Environment} (hc : env.cluster.Consistent)
    (hph : w.phases.find? id = some (.emitting l [] .commit))
    (hlogs : env.cluster.logs = w.env.cluster.logs)
    (hj : env.journal =
      .committed l.connection.id l.ledger.committable (.ok ()) :: w.env.journal)
    (hcommitted : env.cluster.committed = w.env.cluster.committed.union l.ledger.committable)
    (now : Nat) :
    Handed
      { w with
        env := env
        phases := w.phases.insert id (.held (l.startNextCycle now))
        history :=
          .committed id l.connection w.env.cluster.committed l.ledger.committable :: w.history }
      contents := by
  have hsorted := (htracked.lease id _ l hph rfl).sorted
  refine handed_insert h [.committed id l.connection w.env.cluster.committed l.ledger.committable]
    [] hc (.of_logs hlogs) (.refl w.pool) (List.forall_mem_singleton.mpr fun id' hne => hne.symm)
    ?_ (fun p n hn => ?_) (fun p n hn => ?_)
    (fun c hspare => h.spare c (Spare.of_insert (by simp) hspare)) fun x hx => ?_
  · rw [accepted, hj]
    exact h.made
  · rw [hcommitted, SortedMap.find?_union (Ledger.sorted_committable hsorted)] at hn
    obtain hn | ⟨-, hn⟩ := Option.or_eq_some_iff.mp hn
    · exact committable_below htracked h hph hn
    · exact h.committed p n hn
  · exact position_below htracked h hph ((if_pos rfl).symm.trans hn)
  · cases hx
    have hnone : absorbed id
        ([.committed id l.connection w.env.cluster.committed l.ledger.committable] ++
          w.history) = [] := if_pos rfl
    rw [hnone]
    exact (h.work id _ _ hph rfl).startNextCycle now

/-- A connection that is kept stands where its lease began or committed. -/
theorem handed_checkIn (htracked : Tracked w) (h : Handed w contents) {id : LeaseId}
    {c : Connection} {discard : Bool} {env : Environment} (hc : env.cluster.Consistent)
    (hph : w.phases.find? id = some (.returning c discard)) (hsteady : w.env.Steady env)
    (now : Nat) (os : List Occurrence) (hos : ∀ o ∈ os, ∀ id', o.Other id') :
    Handed
      { w with
        env := env
        pool := (w.pool.takeBack id (some c) discard now).1
        phases := w.phases.insert id .ended
        history := os ++ w.history } contents := by
  refine handed_insert h os [] hc hsteady.toGrows (w.pool.sameTerms_takeBack ..)
    (fun o ho id' _ => hos o ho id') ((accepted_steady hsteady).symm ▸ h.made)
    (fun p n hn => h.committed p n (hsteady.committed ▸ hn)) (fun p n hn => ?_)
    (fun c' hc' p n hn => ?_) fun x hx => by cases hx
  · rw [startOf_append_other fun o ho => hos o ho id] at hn
    exact h.starts id p n hn
  · obtain hc' | ⟨rfl, hkept⟩ := spare_checkIn hc'
    · exact h.spare c' hc' p n hn
    · obtain rfl : discard = false := (Bool.or_eq_false_iff.mp hkept).1
      rw [htracked.returning id c hph p] at hn
      exact h.starts id p n hn

theorem handed_moves (htracked : Tracked w) (hc : w'.env.cluster.Consistent)
    (hmoves : Moves w w') (h : Handed w contents) : ∃ contents', Handed w' contents' := by
  cases hmoves with
  | calm hcalm => exact ⟨contents, handed_calm hc hcalm h⟩
  | lend hph hsteady hy now => exact ⟨contents, handed_lend h hc hph hsteady hy now⟩
  | read hph hl hsteady hpolls hph' =>
    exact ⟨contents, handed_read htracked h hc hph hl hsteady hph'⟩
  | @absorb id ph ph' l env hph hx hsteady hph' =>
    refine ⟨contents, handed_lease h [] hc hsteady.toGrows (accepted_steady hsteady)
      hsteady.committed (by simp) hph'.not_opening (h.starts id) fun x hx' => ?_⟩
    have hold := (h.work id ph _ hph hx).absorbs hph' hx'
    rw [List.append_nil] at hold
    exact hold
  | accept hph hcluster hj =>
    obtain ⟨content, hhanded⟩ := handed_accept h hc hph hcluster hj
    exact ⟨content :: contents, hhanded⟩
  | commit hph hempty hlogs hj hcommitted now =>
    exact ⟨contents, handed_commit htracked h hc hph hlogs hj hcommitted now⟩
  | @refuse id l env e hph hlogs hj hcommitted =>
    refine ⟨contents, handed_lease h [] hc (.of_logs hlogs) (by rw [accepted, hj]; rfl) hcommitted
      (by simp) (by simp) (h.starts id) fun x hx => ?_⟩
    simp only [Phase.work?, Lease.fault_state, if_true] at hx
    cases hx
  | @abandon id ph l env c discard hph hl hsteady ha =>
    exact ⟨contents, handed_lease h [] hc hsteady.toGrows (accepted_steady hsteady)
      hsteady.committed (by simp) (by simp) (h.starts id) fun x hx => by cases hx⟩
  | @checkIn id c discard env hph hsteady now =>
    have hc : env.cluster.Consistent := hc
    split
    · exact ⟨contents, handed_checkIn htracked h hc hph hsteady now [] (by simp)⟩
    · exact ⟨contents, handed_checkIn htracked h hc hph hsteady now [.returned id c]
        (List.forall_mem_singleton.mpr fun _ => trivial)⟩

theorem moves_grows (hmoves : Moves w w') : w.env.Grows w'.env := by
  cases hmoves with
  | calm hcalm => exact hcalm.steady.toGrows
  | lend hph hsteady hy now => exact hsteady.toGrows
  | read hph hl hsteady hpolls hph' => exact hsteady.toGrows
  | absorb hph hx hsteady hph' => exact hsteady.toGrows
  | accept hph hcluster hj => exact .of_logs (by rw [hcluster])
  | commit hph hempty hlogs hj hc now => exact .of_logs hlogs
  | refuse hph hlogs hj hc => exact .of_logs hlogs
  | abandon hph hl hsteady ha => exact hsteady.toGrows
  | checkIn hph hsteady now => exact hsteady.toGrows

/-- Every commit was for messages that had been accepted before, whether it succeeded or not. -/
def Vouched (w : World) : Prop :=
  ∀ c offsets result earlier, .committed c offsets result :: earlier <:+ w.env.journal →
    w.env.cluster.HandedOn w.pool.reader w.pool.settings.batch offsets earlier

theorem vouched_steady (h : Vouched w) (hc : w'.env.cluster.Consistent)
    (hterms : Pool.SameTerms w.pool w'.pool) (hsteady : w.env.Steady w'.env) : Vouched w' := by
  intro c offsets result earlier hsuffix
  obtain ⟨es, hes, hj⟩ := hsteady.journal
  rw [hj] at hsuffix
  have hnot : Event.committed c offsets result ∉ es := fun hmem => by cases hes _ hmem
  rw [hterms.reader, hterms.settings]
  exact (h c offsets result earlier (suffix_of_append hnot hsuffix)).grow hsteady.toGrows hc

theorem vouched_commit (htracked : Tracked w) (hhanded : Handed w contents) (h : Vouched w)
    {id : LeaseId} {l : Lease} (hph : w.phases.find? id = some (.emitting l [] .commit))
    {env : Environment} {phases : SortedMap LeaseId Phase} {history : List Occurrence}
    (hlogs : env.cluster.logs = w.env.cluster.logs) {result : Except IntakeError Unit}
    (hj : env.journal = .committed l.connection.id l.ledger.committable result :: w.env.journal) :
    Vouched { w with env := env, phases := phases, history := history } := by
  intro c offsets result' earlier hsuffix
  have hgrows : w.env.Grows env := .of_logs hlogs
  have hc := hgrows.consistent htracked.consistent
  change _ <:+ env.journal at hsuffix
  rw [hj] at hsuffix
  obtain heq | hsuffix := List.suffix_cons_iff.mp hsuffix
  · cases heq
    exact ⟨contents, hhanded.made, fun p n hn =>
      (committable_below htracked hhanded hph hn).grow hgrows hc⟩
  · exact (h c offsets result' earlier hsuffix).grow hgrows hc

theorem vouched_moves (htracked : Tracked w) (hhanded : Handed w contents)
    (hmoves : Moves w w') (h : Vouched w) : Vouched w' := by
  have hc : w'.env.cluster.Consistent := (moves_grows hmoves).consistent htracked.consistent
  cases hmoves with
  | calm hcalm => exact vouched_steady h hc hcalm.terms hcalm.steady
  | lend hph hsteady hy now => exact vouched_steady h hc (.refl w.pool) hsteady
  | read hph hl hsteady hpolls hph' => exact vouched_steady h hc (.refl w.pool) hsteady
  | absorb hph hx hsteady hph' => exact vouched_steady h hc (.refl w.pool) hsteady
  | abandon hph hl hsteady ha => exact vouched_steady h hc (.refl w.pool) hsteady
  | checkIn hph hsteady now =>
    exact vouched_steady h hc (w.pool.sameTerms_takeBack ..) hsteady
  | commit hph hempty hlogs hj hcommitted now =>
    exact vouched_commit htracked hhanded h hph hlogs hj
  | refuse hph hlogs hj hcommitted => exact vouched_commit htracked hhanded h hph hlogs hj
  | @accept id l e units errand env hph hcluster hj =>
    intro c offsets result earlier hsuffix
    change _ <:+ env.journal at hsuffix
    rw [hj] at hsuffix
    obtain heq | hsuffix := List.suffix_cons_iff.mp hsuffix
    · cases heq
    · exact (h c offsets result earlier hsuffix).grow (.of_logs (by rw [hcluster])) hc

/-! ## After every run -/

/-- What holds of acceptance after every run, whatever the pool subscribes to. -/
structure Delivering (s : Subscription) (w : World) : Prop extends Sound s w where
  handed : ∃ contents, Handed w contents
  vouched : Vouched w

theorem delivering_step {s : Subscription} (hstep : Step w w') (h : Delivering s w) :
    Delivering s w' := by
  have hmoves := moves_of_step hstep
  have hsound := sound_step hstep h.toSound
  obtain ⟨contents, hhanded⟩ := h.handed
  exact ⟨hsound, handed_moves h.tracked hsound.tracked.consistent hmoves hhanded,
    vouched_moves h.tracked hhanded hmoves h.vouched⟩

theorem delivering_start (maxPollRecords now : Nat) (s : Subscription) (reader : RecordReader)
    (settings : IntakeSettings) : Delivering s (.start maxPollRecords now s reader settings) where
  toSound := sound_start ..
  handed := ⟨[], handed_start ..⟩
  vouched c offsets result earlier h := by
    simp [World.start, Environment.start] at h

/-- Every message below a committed offset was accepted in full: each of its records in a batch, or
its parse failure.  And so it was before the commit that covered it was tried. -/
theorem committed_messages_were_accepted (maxPollRecords now : Nat) (s : Subscription)
    (reader : RecordReader) (settings : IntakeSettings) (as : List Action) :
    let w := (World.start maxPollRecords now s reader settings).run as
    w.env.cluster.HandedOn reader settings.batch w.env.cluster.committed w.env.journal ∧
      ∀ c offsets result earlier, .committed c offsets result :: earlier <:+ w.env.journal →
        w.env.cluster.HandedOn reader settings.batch offsets earlier := by
  intro w
  have h : Delivering s w := run_induction (fun _ _ => delivering_step) (delivering_start ..) as
  have hterms : Pool.SameTerms (World.start maxPollRecords now s reader settings).pool w.pool :=
    sameTerms_run _ as
  have hreader : w.pool.reader = reader := hterms.reader
  have hsettings : w.pool.settings = settings := hterms.settings
  obtain ⟨contents, hhanded⟩ := h.handed
  have hmade := hhanded.made
  have hcommitted := hhanded.committed
  have hvouched := h.vouched
  rw [hsettings] at hmade
  rw [hreader] at hcommitted
  rw [Vouched, hreader, hsettings] at hvouched
  exact ⟨⟨contents, hmade, hcommitted⟩, hvouched⟩

/-- A message with a record and one that cannot be read are polled and committed. -/
def readAndCommit : World :=
  (World.start 10 0 (.topics ["t"]) Record.read {}).run
    [.onCluster (.produce ⟨⟨"t", 0⟩, 0, none, some [123, 125], none, []⟩),
      .onCluster (.produce ⟨⟨"t", 0⟩, 0, none, some [123], none, []⟩), .request "s", .supply 1,
      .poll 1, .emit 1, .emit 1, .commit 1, .emit 1, .emit 1]

theorem committed_messages_were_accepted_readAndCommit :
    ∃ earlier, readAndCommit.env.journal = .committed 1 [(⟨"t", 0⟩, 2)] (.ok ()) :: earlier ∧
      readAndCommit.env.cluster.HandedOn Record.read {} [(⟨"t", 0⟩, 2)] earlier := by
  have hhead : readAndCommit.env.journal.head?.bind Event.commit? = some (1, [(⟨"t", 0⟩, 2)]) := by
    decide +kernel
  obtain ⟨e, he, hcommit⟩ := Option.bind_eq_some_iff.mp hhead
  obtain ⟨earlier, hjournal⟩ := List.head?_eq_some_iff.mp he
  rw [Event.eq_of_commit? hcommit] at hjournal
  have hall := committed_messages_were_accepted 10 0 (.topics ["t"]) Record.read {}
    [.onCluster (.produce ⟨⟨"t", 0⟩, 0, none, some [123, 125], none, []⟩),
      .onCluster (.produce ⟨⟨"t", 0⟩, 0, none, some [123], none, []⟩), .request "s", .supply 1,
      .poll 1, .emit 1, .emit 1, .commit 1, .emit 1, .emit 1]
  exact ⟨earlier, hjournal, hall.2 1 _ _ earlier ⟨[], hjournal.symm⟩⟩

end World
end RecordIntake
