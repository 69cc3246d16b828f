import Mathlib.Data.List.Nodup
import RecordIntake.Proofs.SortedMap
import RecordIntake.Subscription

/-!
Which partitions a subscription selects, and which it owns.
-/
namespace RecordIntake

theorem SortedSet.contains_singleton {κ : Type} [Ord κ] [Std.TransOrd κ] [Std.LawfulEqOrd κ]
    (k k' : κ) : SortedSet.contains k [k'] = true ↔ k = k' := by
  cases h : compare k k' with
  | eq => simp [SortedSet.contains, Std.LawfulEqOrd.eq_of_compare h]
  | lt =>
    have hne : k ≠ k' := by
      rintro rfl
      simp at h
    simp [SortedSet.contains, h, hne]
  | gt =>
    have hne : k ≠ k' := by
      rintro rfl
      simp at h
    simp [SortedSet.contains, h, hne]

/-- A subscription to one partition selects just that. -/
theorem Subscription.selects_ofPartitions (q r : Partition) :
    (ofPartitions [q]).selects r = true ↔ r = q := by
  obtain ⟨topic, number⟩ := q
  obtain ⟨topic', number'⟩ := r
  show (match SortedMap.find? topic' (SortedMap.insert topic [number] []) with
    | some numbers => SortedSet.contains number' numbers
    | none => false) = true ↔ _
  rw [SortedMap.find?_insert]
  by_cases ht : topic' = topic
  · rw [if_pos ht]
    simp [SortedSet.contains_singleton, ht]
  · rw [if_neg ht]
    simp [ht]

/-- The names and numbers of a subscription are in order, as those of a sorted set are. -/
def Subscription.WellFormed : Subscription → Prop
  | .topics names => names.Pairwise fun a b => compare a b = .lt
  | .pattern _ => True
  | .partitions owned =>
    SortedMap.Sorted owned ∧ ∀ e ∈ owned, e.2.Pairwise fun a b => compare a b = .lt

theorem Subscription.WellFormed.nodup {s : Subscription} (h : s.WellFormed) :
    s.ownedPartitions.Nodup := by
  cases s with
  | topics names => exact List.nodup_nil
  | pattern p => exact List.nodup_nil
  | partitions owned =>
    refine List.nodup_flatMap.mpr ⟨fun e he => ?_, h.1.imp fun hlt => ?_⟩
    · refine List.Nodup.map (fun a b hab => (Partition.mk.inj hab).2) ?_
      refine (h.2 e he).imp fun hlt => ?_
      rintro rfl
      simp at hlt
    · intro q hq hq'
      obtain ⟨_, -, rfl⟩ := List.mem_map.mp hq
      obtain ⟨_, -, hq'⟩ := List.mem_map.mp hq'
      rw [(Partition.mk.inj hq').1] at hlt
      simp at hlt

end RecordIntake
