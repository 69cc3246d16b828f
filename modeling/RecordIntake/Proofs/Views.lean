import Mathlib.Data.List.Dedup
import RecordIntake.Proofs.SortedSet
import RecordIntake.Proofs.Subscription

/-!
Explicit ownership from three sides: the partitions that a subscription selects, those that it
lists, and the subscription to the partitions of a list.  All three are compared by their members.
That is enough, since a list in ascending order is given by its members, and so is a subscription as
long as no topic is without partitions.
-/
namespace RecordIntake

/-- By topic, and within a topic by number. -/
theorem Partition.compare_eq_lt_iff {p q : Partition} :
    compare p q = .lt ↔ p.topic < q.topic ∨ p.topic = q.topic ∧ p.number < q.number := by
  show (compareLex (compareOn Partition.topic) (compareOn Partition.number)) p q = .lt ↔ _
  rw [compareLex, Ordering.then_eq_lt]
  refine or_congr compareOfLessAndEq_eq_lt (and_congr ?_ Int.compare_eq_lt)
  exact Std.LawfulEqOrd.compare_eq_iff_eq

/-- A sorted set is any list of its members, sorted and without repetitions. -/
theorem SortedSet.eq_mergeSort_dedup {κ : Type} [Ord κ] [Std.TransOrd κ] [Std.LawfulEqOrd κ]
    [DecidableEq κ] {s : SortedSet κ} (hs : s.Sorted) {ks : List κ} (h : ∀ k, k ∈ s ↔ k ∈ ks) :
    s = ks.dedup.mergeSort fun a b => (compare a b).isLE := by
  have hperm : s.Perm (ks.dedup.mergeSort fun a b => (compare a b).isLE) := by
    refine List.Perm.trans ?_ (List.mergeSort_perm ..).symm
    exact (List.perm_ext_iff_of_nodup hs.nodup (List.nodup_dedup ks)).mpr fun k =>
      (h k).trans List.mem_dedup.symm
  have htrans (a b c : κ) (hab : (compare a b).isLE) (hbc : (compare b c).isLE) :
      (compare a c).isLE := Std.TransOrd.isLE_trans hab hbc
  have htotal (a b : κ) : ((compare a b).isLE || (compare b a).isLE) = true := by
    rw [Std.OrientedOrd.eq_swap (a := b)]
    cases compare a b <;> rfl
  have hsort : (ks.dedup.mergeSort fun a b => (compare a b).isLE).Pairwise
      fun a b => (compare a b).isLE = true :=
    List.pairwise_mergeSort htrans htotal ks.dedup
  have hle : s.Pairwise fun a b => (compare a b).isLE = true := hs.imp fun hlt => by rw [hlt]; rfl
  refine hperm.eq_of_pairwise (fun a b _ _ hab hba => ?_) hle hsort
  exact Std.LawfulEqOrd.eq_of_compare (Std.OrientedCmp.isLE_antisymm hab hba)

namespace Subscription

variable {owned owned' : SortedMap String (SortedSet Int)} {p q : Partition}

/-! ## What is listed -/

theorem mem_ownedPartitions_iff :
    p ∈ (Subscription.partitions owned).ownedPartitions ↔
      ∃ numbers, (p.topic, numbers) ∈ owned ∧ p.number ∈ numbers := by
  simp only [ownedPartitions, List.mem_flatMap, List.mem_map]
  constructor
  · rintro ⟨⟨topic, numbers⟩, hmem, n, hn, rfl⟩
    exact ⟨numbers, hmem, hn⟩
  · rintro ⟨numbers, hmem, hn⟩
    exact ⟨(p.topic, numbers), hmem, p.number, hn, rfl⟩

/-- Topics are in order, and so are the numbers of each. -/
theorem WellFormed.sorted_ownedPartitions (h : (Subscription.partitions owned).WellFormed) :
    SortedSet.Sorted (Subscription.partitions owned).ownedPartitions := by
  refine List.pairwise_flatMap.mpr ⟨fun e he => ?_, h.1.imp fun hlt => ?_⟩
  · refine List.pairwise_map.mpr ((h.2 e he).imp fun hlt => ?_)
    exact Partition.compare_eq_lt_iff.mpr (.inr ⟨rfl, Int.compare_eq_lt.mp hlt⟩)
  · intro q hq r hr
    obtain ⟨n, -, rfl⟩ := List.mem_map.mp hq
    obtain ⟨m, -, rfl⟩ := List.mem_map.mp hr
    exact Partition.compare_eq_lt_iff.mpr (.inl (compareOfLessAndEq_eq_lt.mp hlt))

/-- What is selected is what is listed. -/
theorem WellFormed.selects_iff (h : (Subscription.partitions owned).WellFormed) :
    (Subscription.partitions owned).selects p = true ↔
      p ∈ (Subscription.partitions owned).ownedPartitions := by
  rw [mem_ownedPartitions_iff]
  simp only [selects]
  constructor
  · intro hsel
    split at hsel
    · rename_i numbers hfind
      have hmem := SortedMap.mem_of_find? hfind
      exact ⟨numbers, hmem, (SortedSet.contains_iff_mem (h.2 _ hmem)).mp hsel⟩
    · cases hsel
  · rintro ⟨numbers, hmem, hn⟩
    rw [SortedMap.find?_of_mem h.1 hmem]
    exact (SortedSet.contains_iff_mem (h.2 _ hmem)).mpr hn

/-! ## Owning the partitions of a list -/

/-- Every topic has a partition. -/
def NoneVacant (owned : SortedMap String (SortedSet Int)) : Prop := ∀ e ∈ owned, e.2 ≠ []

/-- Owns one more partition. -/
def claim (owned : SortedMap String (SortedSet Int)) (p : Partition) :
    SortedMap String (SortedSet Int) :=
  SortedMap.upsert p.topic (fun ns => SortedSet.insert p.number (ns.getD [])) owned

theorem ofPartitions_eq (ps : List Partition) : ofPartitions ps = .partitions (ps.foldl claim []) :=
  rfl

/-- An entry is the one of the topic, or was there before. -/
theorem mem_claim {e : String × SortedSet Int} (he : e ∈ claim owned p) :
    e = (p.topic, SortedSet.insert p.number ((owned.find? p.topic).getD [])) ∨ e ∈ owned :=
  (List.mem_cons.mp ((SortedMap.insert_perm ..).mem_iff.mp he)).imp_right
    fun h => (SortedMap.erase_sublist ..).subset h

theorem sorted_getD (h : (Subscription.partitions owned).WellFormed) (topic : String) :
    SortedSet.Sorted ((SortedMap.find? topic owned).getD []) := by
  cases hfind : SortedMap.find? topic owned with
  | none => exact List.Pairwise.nil
  | some numbers => exact h.2 _ (SortedMap.mem_of_find? hfind)

theorem WellFormed.claim (h : (Subscription.partitions owned).WellFormed) (p : Partition) :
    (Subscription.partitions (claim owned p)).WellFormed := by
  refine ⟨SortedMap.sorted_insert h.1 _ _, fun e he => ?_⟩
  obtain rfl | he := mem_claim he
  · exact SortedSet.sorted_insert (sorted_getD h p.topic) p.number
  · exact h.2 e he

theorem NoneVacant.claim (h : NoneVacant owned) (p : Partition) : NoneVacant (claim owned p) := by
  intro e he
  obtain rfl | he := mem_claim he
  · exact List.ne_nil_of_mem (SortedSet.mem_insert.mpr (.inl rfl))
  · exact h e he

theorem selects_eq (owned : SortedMap String (SortedSet Int)) (p : Partition) :
    (Subscription.partitions owned).selects p =
      SortedSet.contains p.number ((SortedMap.find? p.topic owned).getD []) := by
  simp only [selects]
  cases SortedMap.find? p.topic owned <;> rfl

theorem selects_claim (h : (Subscription.partitions owned).WellFormed) :
    (Subscription.partitions (claim owned p)).selects q = true ↔
      q = p ∨ (Subscription.partitions owned).selects q = true := by
  obtain ⟨topic, number⟩ := p
  obtain ⟨topic', number'⟩ := q
  rw [selects_eq, selects_eq, claim, SortedMap.upsert, SortedMap.find?_insert]
  by_cases htopic : topic' = topic
  · have hsorted := sorted_getD h topic
    rw [if_pos htopic, htopic, Option.getD_some, SortedSet.contains_iff_mem hsorted,
      SortedSet.contains_iff_mem (SortedSet.sorted_insert hsorted number), SortedSet.mem_insert,
      Partition.mk.injEq, and_iff_right rfl]
  · rw [if_neg htopic, Partition.mk.injEq, or_iff_right fun heq => htopic heq.1]

/-- The claims of a list, one after the other. -/
theorem claims (ps : List Partition) (h : (Subscription.partitions owned).WellFormed)
    (hv : NoneVacant owned) :
    (Subscription.partitions (ps.foldl claim owned)).WellFormed ∧
      NoneVacant (ps.foldl claim owned) ∧
      ∀ q, (Subscription.partitions (ps.foldl claim owned)).selects q = true ↔
        q ∈ ps ∨ (Subscription.partitions owned).selects q = true := by
  induction ps generalizing owned with
  | nil => exact ⟨h, hv, fun q => (or_iff_right List.not_mem_nil).symm⟩
  | cons p ps ih =>
    obtain ⟨hwell, hvacant, hsel⟩ := ih (h.claim p) (hv.claim p)
    refine ⟨hwell, hvacant, fun q => ?_⟩
    rw [List.foldl_cons, hsel, selects_claim h, List.mem_cons, or_left_comm, or_assoc]

theorem wellFormed_nil : (Subscription.partitions []).WellFormed :=
  ⟨SortedMap.sorted_nil, List.forall_mem_nil _⟩

theorem wellFormed_ofPartitions (ps : List Partition) : (ofPartitions ps).WellFormed :=
  (claims ps wellFormed_nil (List.forall_mem_nil _)).1

theorem selects_ofPartitions_iff (ps : List Partition) :
    (ofPartitions ps).selects q = true ↔ q ∈ ps :=
  ((claims ps wellFormed_nil (List.forall_mem_nil _)).2.2 q).trans
    (or_iff_left Bool.false_ne_true)

/-! ## Topics without partitions

They are not listed, and nothing else is lost in a list. -/

theorem find?_of_selects (h : (Subscription.partitions owned).WellFormed)
    (h' : (Subscription.partitions owned').WellFormed) (hv : NoneVacant owned)
    (hsel : ∀ p, (Subscription.partitions owned).selects p =
      (Subscription.partitions owned').selects p)
    {topic : String} {numbers : SortedSet Int} (hfind : SortedMap.find? topic owned = some numbers) :
    SortedMap.find? topic owned' = some numbers := by
  have hmem := SortedMap.mem_of_find? hfind
  obtain ⟨n, hn⟩ := List.exists_mem_of_ne_nil numbers (hv _ hmem)
  have hsame : ∀ k, k ∈ numbers ↔ k ∈ (SortedMap.find? topic owned').getD [] := by
    intro k
    have hk := hsel ⟨topic, k⟩
    rw [selects_eq, selects_eq, hfind, Option.getD_some, Bool.eq_iff_iff,
      SortedSet.contains_iff_mem (h.2 _ hmem),
      SortedSet.contains_iff_mem (sorted_getD h' topic)] at hk
    exact hk
  cases hfind' : SortedMap.find? topic owned' with
  | none =>
    rw [hfind'] at hsame
    exact absurd ((hsame n).mp hn) List.not_mem_nil
  | some numbers' =>
    rw [hfind'] at hsame
    have hmem' := SortedMap.mem_of_find? hfind'
    exact congrArg some (SortedSet.ext (h.2 _ hmem) (h'.2 _ hmem') hsame).symm

/-- Subscriptions that select the same partitions are the same, but for topics without any. -/
theorem eq_of_selects (h : (Subscription.partitions owned).WellFormed)
    (h' : (Subscription.partitions owned').WellFormed) (hv : NoneVacant owned)
    (hv' : NoneVacant owned')
    (hsel : ∀ p, (Subscription.partitions owned).selects p =
      (Subscription.partitions owned').selects p) :
    owned = owned' := by
  refine SortedMap.ext h.1 h'.1 fun topic => ?_
  cases hfind : SortedMap.find? topic owned with
  | some numbers => exact (find?_of_selects h h' hv hsel hfind).symm
  | none =>
    cases hfind' : SortedMap.find? topic owned' with
    | none => rfl
    | some numbers =>
      rw [find?_of_selects h' h hv' (fun p => (hsel p).symm) hfind'] at hfind
      cases hfind

/-- What a subscription selects is what it lists, each partition once and in order.  The
subscription to a list of partitions selects the members of the list and lists them sorted.  The
subscription to what another one lists selects what that one does, and is the same unless a topic of
it has no partitions. -/
theorem listed_partitions_selected (h : (Subscription.partitions owned).WellFormed)
    (ps : List Partition) :
    let s := Subscription.partitions owned
    (∀ topic n, s.selects ⟨topic, n⟩ = true ↔ ⟨topic, n⟩ ∈ s.ownedPartitions) ∧
      (s.ownedPartitions.Pairwise fun p q =>
        p.topic < q.topic ∨ p.topic = q.topic ∧ p.number < q.number) ∧
      (∀ p, (ofPartitions ps).selects p = true ↔ p ∈ ps) ∧
      (ofPartitions ps).ownedPartitions =
        ps.dedup.mergeSort (fun p q => (compare p q).isLE) ∧
      (∀ p, (ofPartitions s.ownedPartitions).selects p = s.selects p) ∧
      ((∀ e ∈ owned, e.2 ≠ []) → ofPartitions s.ownedPartitions = s) := by
  intro s
  have hagain : ∀ p, (ofPartitions s.ownedPartitions).selects p = s.selects p := fun p =>
    Bool.eq_iff_iff.mpr ((selects_ofPartitions_iff _).trans h.selects_iff.symm)
  refine ⟨fun topic n => h.selects_iff,
    h.sorted_ownedPartitions.imp Partition.compare_eq_lt_iff.mp,
    fun p => selects_ofPartitions_iff ps, ?_, hagain, fun hv => ?_⟩
  · have hwell : (ofPartitions ps).WellFormed := wellFormed_ofPartitions ps
    rw [ofPartitions_eq] at hwell ⊢
    refine SortedSet.eq_mergeSort_dedup hwell.sorted_ownedPartitions fun p => ?_
    exact hwell.selects_iff.symm.trans (selects_ofPartitions_iff ps)
  · obtain ⟨hwell, hvacant, -⟩ := claims s.ownedPartitions wellFormed_nil (List.forall_mem_nil _)
    exact congrArg _ (eq_of_selects hwell h hvacant hv hagain)

/-- Repeated partitions, repeated topics, and a topic without partitions. -/
theorem listed_partitions_selected_vacantTopic :
    let s := Subscription.partitions [("events", []), ("logs", [0, 2])]
    (∀ p, (ofPartitions s.ownedPartitions).selects p = s.selects p) ∧
      ofPartitions s.ownedPartitions = .partitions [("logs", [0, 2])] ∧
      (ofPartitions [⟨"logs", 2⟩, ⟨"events", 1⟩, ⟨"logs", 0⟩, ⟨"logs", 2⟩]).ownedPartitions =
        [⟨"logs", 2⟩, ⟨"events", 1⟩, ⟨"logs", 0⟩, ⟨"logs", 2⟩].dedup.mergeSort
          (fun p q => (compare p q).isLE) ∧
      ofPartitions (Subscription.partitions [("logs", [0, 2])]).ownedPartitions =
        .partitions [("logs", [0, 2])] := by
  intro s
  have hwell : s.WellFormed :=
    ⟨by unfold SortedMap.Sorted; decide +kernel, by decide +kernel⟩
  have hwell' : (Subscription.partitions [("logs", [0, 2])]).WellFormed :=
    ⟨by unfold SortedMap.Sorted; decide +kernel, by decide +kernel⟩
  obtain ⟨-, -, -, hlist, hagain, -⟩ := listed_partitions_selected hwell
    [⟨"logs", 2⟩, ⟨"events", 1⟩, ⟨"logs", 0⟩, ⟨"logs", 2⟩]
  obtain ⟨-, -, -, -, -, hsame⟩ := listed_partitions_selected hwell' []
  have hclaims : s.ownedPartitions.foldl claim [] = [("logs", [0, 2])] := by decide +kernel
  exact ⟨hagain, (ofPartitions_eq _).trans (congrArg _ hclaims), hlist, hsame (by decide +kernel)⟩

end Subscription
end RecordIntake
