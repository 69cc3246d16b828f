import RecordIntake.Proofs.Steps

/-!
What the history of a run says about one lease: where its reading of a partition started, and what
it has absorbed since then.  Both start over with each successful commit.

A lease and its connection keep in step with that.  The ledger's range of a partition begins where
the reading started and ends at the position of the connection, and what was absorbed is the log
between the two.  For a partition without a range the position itself is where the reading started.
-/
namespace RecordIntake

open Cluster (Reads)

/-- Where the reading of a partition started for a lease: at the position that the connection had
when the lease began or committed, or, if it had none, at the committed offset that was then read
from. -/
def startOf (id : LeaseId) (p : Partition) : List Occurrence → Option Int
  | [] => none
  | .lent id' c :: h => if id' = id then c.positions.find? p else startOf id p h
  | .read id' cluster _ after _ :: h =>
    if id' = id then
      (startOf id p h).or
        (if (after.positions.find? p).isSome then some ((cluster.committed.find? p).getD 0)
        else none)
    else startOf id p h
  | .committed id' c _ _ :: h => if id' = id then c.positions.find? p else startOf id p h
  | .returned _ _ :: h => startOf id p h

/-- What a lease has absorbed since it began or last committed. -/
def absorbed (id : LeaseId) : List Occurrence → List Message
  | [] => []
  | .lent id' _ :: h => if id' = id then [] else absorbed id h
  | .read id' _ _ _ messages :: h =>
    if id' = id then absorbed id h ++ messages else absorbed id h
  | .committed id' _ _ _ :: h => if id' = id then [] else absorbed id h
  | .returned _ _ :: h => absorbed id h

/-- Whether an occurrence is about another lease. -/
def Occurrence.Other (id : LeaseId) : Occurrence → Prop
  | .lent id' _ | .read id' _ _ _ _ | .committed id' _ _ _ => id' ≠ id
  | .returned _ _ => True

theorem startOf_cons_other {id : LeaseId} {o : Occurrence} (ho : o.Other id) (p : Partition)
    (h : List Occurrence) : startOf id p (o :: h) = startOf id p h := by
  cases o with
  | returned id' c => rfl
  | lent id' c => exact if_neg ho
  | read id' cluster before after messages => exact if_neg ho
  | committed id' c before offsets => exact if_neg ho

theorem absorbed_cons_other {id : LeaseId} {o : Occurrence} (ho : o.Other id)
    (h : List Occurrence) : absorbed id (o :: h) = absorbed id h := by
  cases o with
  | returned id' c => rfl
  | lent id' c => exact if_neg ho
  | read id' cluster before after messages => exact if_neg ho
  | committed id' c before offsets => exact if_neg ho

theorem startOf_append_other {id : LeaseId} {os : List Occurrence} (hos : ∀ o ∈ os, o.Other id)
    (p : Partition) (h : List Occurrence) : startOf id p (os ++ h) = startOf id p h := by
  induction os with
  | nil => rfl
  | cons o os ih =>
    rw [List.cons_append, startOf_cons_other (hos o List.mem_cons_self)]
    exact ih fun o' ho' => hos o' (List.mem_cons_of_mem o ho')

theorem absorbed_append_other {id : LeaseId} {os : List Occurrence} (hos : ∀ o ∈ os, o.Other id)
    (h : List Occurrence) : absorbed id (os ++ h) = absorbed id h := by
  induction os with
  | nil => rfl
  | cons o os ih =>
    rw [List.cons_append, absorbed_cons_other (hos o List.mem_cons_self)]
    exact ih fun o' ho' => hos o' (List.mem_cons_of_mem o ho')

/-- Whether the reading of a lease starts over. -/
def Occurrence.Begins (id : LeaseId) : Occurrence → Prop
  | .lent id' _ | .committed id' _ _ _ => id' = id
  | .read _ _ _ _ _ | .returned _ _ => False

/-- The connection and the offsets of a commit that succeeded. -/
def Event.commit? : Event → Option (ConnectionId × Offsets)
  | .committed c offsets (.ok ()) => some (c, offsets)
  | _ => none

def Occurrence.commit? : Occurrence → Option (ConnectionId × Offsets)
  | .committed _ c _ offsets => some (c.id, offsets)
  | _ => none

theorem Event.eq_of_commit? {e : Event} {k : ConnectionId} {offsets : Offsets}
    (h : e.commit? = some (k, offsets)) : e = .committed k offsets (.ok ()) := by
  cases e with
  | committed k' offsets' result =>
    cases result with
    | ok u =>
      cases h
      rfl
    | error e => cases h
  | connected | polled | rewound | counted | closed | emitted | refused | poolMissing => cases h

theorem Occurrence.eq_of_commit? {o : Occurrence} {k : ConnectionId} {offsets : Offsets}
    (h : o.commit? = some (k, offsets)) :
    ∃ id c before, o = .committed id c before offsets ∧ c.id = k := by
  cases o with
  | committed id c before offsets' =>
    cases h
    exact ⟨id, c, before, rfl, rfl⟩
  | lent | read | returned => cases h

/-- What is not among the last that happened came before. -/
theorem suffix_of_append {α : Type} {o : α} {os earlier h : List α} (ho : o ∉ os)
    (hsuffix : o :: earlier <:+ os ++ h) : o :: earlier <:+ h := by
  induction os with
  | nil => exact hsuffix
  | cons o' os ih =>
    obtain heq | hsuffix := List.suffix_cons_iff.mp hsuffix
    · exact absurd ((List.cons.inj heq).1 ▸ List.mem_cons_self) ho
    · exact ih (fun hmem => ho (List.mem_cons_of_mem o' hmem)) hsuffix

/-- How the reading of one partition stands: where it started, where it goes on, what was absorbed
in between, and the range that the ledger has of it. -/
inductive Keeps (log : Array Message) :
    Option Int → Option Int → List Message → Option OffsetRange → Prop where
  | nothing (position : Option Int) : Keeps log position position [] none
  | range {seen : List Message} {first : Int} (hne : seen ≠ []) (hreads : Reads log first seen) :
    Keeps log (some first) (some (first + seen.length)) seen (some ⟨first, first + seen.length⟩)

namespace Keeps

variable {log : Array Message} {start position : Option Int} {seen : List Message}
  {range : Option OffsetRange}

theorem grow (h : Keeps log start position seen range) (more : Array Message) :
    Keeps (log ++ more) start position seen range := by
  cases h with
  | nothing => exact .nothing start
  | range hne hreads => exact .range hne (hreads.grow more)

/-- What is read is absorbed. -/
theorem read (h : Keeps log start position seen range) {committed : Int} {read : List Message}
    (hreads : Reads log (position.getD committed) read) :
    Keeps log (start.or (some committed)) (some (position.getD committed + read.length))
      (seen ++ read) (Ledger.prolong range (position.getD committed) read.length) := by
  cases h with
  | nothing =>
    have hstart : start.or (some committed) = some (start.getD committed) := by
      cases start <;> rfl
    rw [hstart, List.nil_append]
    by_cases hnone : read = []
    · subst hnone
      simp only [List.length_nil, Ledger.prolong, if_true, Int.natCast_zero, Int.add_zero]
      exact .nothing _
    · rw [Ledger.prolong, if_neg (by simpa using hnone)]
      exact .range hnone hreads
  | @range _ first hne hseen =>
    have hlength : first + (seen.length : Int) + read.length = first + (seen ++ read).length := by
      rw [List.length_append]
      omega
    simp only [Option.getD_some] at hreads
    simp only [Option.getD_some, Option.some_or, Ledger.prolong, hlength]
    exact .range (by simp [hne]) (hseen.append hreads)

/-- Where the range ends is the position. -/
theorem next (h : Keeps log start position seen range) :
    ∀ r, range = some r → position = some r.next := by
  cases h with
  | nothing => exact fun r hr => by cases hr
  | range => exact fun r hr => by cases hr; rfl

/-- Where the range begins is where the reading started. -/
theorem first (h : Keeps log start position seen range) :
    (range.map (·.first)).or position = start := by
  cases h <;> rfl

/-- What was absorbed is the log from where the reading started. -/
theorem reads (h : Keeps log start position seen range) :
    seen = [] ∨ ∃ first, start = some first ∧ Reads log first seen := by
  cases h with
  | nothing => exact .inl rfl
  | @range _ first _ hreads => exact .inr ⟨first, rfl, hreads⟩

theorem isSome_start {offset : Int} (h : Keeps log start (some offset) seen range) :
    start.isSome = true := by
  rw [← h.first]
  cases range <;> rfl

end Keeps

/-- A lease that keeps in step with what it has absorbed. -/
structure InStep (c : Cluster) (h : List Occurrence) (id : LeaseId) (l : Lease) : Prop where
  sorted : l.ledger.ranges.Sorted
  keeps : ∀ p, Keeps (c.log p) (startOf id p h) (l.connection.positions.find? p)
    (Message.onlyOf p (absorbed id h)) (l.ledger.ranges.find? p)

namespace InStep

variable {c : Cluster} {h : List Occurrence} {id : LeaseId} {l l' : Lease}

theorem congr (hl : InStep c h id l) (hc : l'.connection = l.connection)
    (hr : l'.ledger.ranges = l.ledger.ranges) : InStep c h id l' where
  sorted := hr ▸ hl.sorted
  keeps p := by
    rw [hc, hr]
    exact hl.keeps p

/-- What other leases do changes nothing. -/
theorem other (hl : InStep c h id l) {os : List Occurrence} (hos : ∀ o ∈ os, o.Other id) :
    InStep c (os ++ h) id l where
  sorted := hl.sorted
  keeps p := by
    rw [startOf_append_other hos, absorbed_append_other hos]
    exact hl.keeps p

theorem grow (hl : InStep c h id l) {c' : Cluster}
    (hc : ∀ p, ∃ more, c'.log p = c.log p ++ more) : InStep c' h id l where
  sorted := hl.sorted
  keeps p := by
    obtain ⟨more, hmore⟩ := hc p
    rw [hmore]
    exact (hl.keeps p).grow more

/-- A cycle begins, with what is then the position. -/
theorem of_empty (hl : l.ledger.ranges = [])
    (hstart : ∀ p, startOf id p h = l.connection.positions.find? p)
    (habsorbed : absorbed id h = []) : InStep c h id l where
  sorted := hl ▸ SortedMap.sorted_nil
  keeps p := by
    rw [hl, hstart, habsorbed]
    exact .nothing _

/-- A lease reads on: what it had absorbed of a partition is followed by what is read of it now. -/
theorem read (hc : c.Consistent) (hl : InStep c h id l) {after : Connection}
    {result : Progress (Except IntakeError (List Message))}
    (hpolls : Environment.Polls c l.connection after result) :
    InStep c (.read id c l.connection after result.messages :: h) id
      { l with connection := after, ledger := l.ledger.recordAll result.messages } where
  sorted := Ledger.sorted_recordAll hl.sorted _
  keeps p := by
    have hkeeps := hl.keeps p
    rw [absorbed, if_pos rfl, startOf, if_pos rfl, Message.onlyOf_append]
    obtain ⟨-, hreads, hpos⟩ | ⟨hnone, hpos⟩ := hpolls.reads_partition hc p
    · have hroom : (Message.onlyOf p result.messages).length ≠ 0 →
          c.readingStart l.connection.positions p + (Message.onlyOf p result.messages).length ≤
            Ledger.greatestOffset := fun hne =>
        Int.le_trans (hreads.bounded (by simpa using hne)) (hc.room p)
      have hstart : ∀ r, l.ledger.ranges.find? p = some r →
          r.next = c.readingStart l.connection.positions p := fun r hr => by
        rw [Cluster.readingStart, hkeeps.next r hr]
        rfl
      rw [Ledger.find?_recordAll_of_offsets hreads.offsets hstart hroom, hpos, Option.isSome_some,
        if_pos rfl]
      exact hkeeps.read hreads
    · have hrange : (l.ledger.recordAll result.messages).ranges.find? p =
          l.ledger.ranges.find? p := by
        rw [Ledger.find?_recordAll, hnone]
        rfl
      rw [hrange, hnone, List.append_nil, hpos]
      cases hposition : l.connection.positions.find? p with
      | none =>
        rw [hposition] at hkeeps
        simpa using hkeeps
      | some position =>
        rw [hposition] at hkeeps
        rw [Option.or_of_isSome hkeeps.isSome_start]
        exact hkeeps

end InStep
end RecordIntake
