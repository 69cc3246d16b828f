import RecordIntake.Proofs.SortedMap

/-!
What a sorted set holds after each of its operations.  Looking up stops at the first member that is
too great, so it needs their order, which inserting keeps.
-/
namespace RecordIntake
namespace SortedSet

variable {κ : Type} [Ord κ]

/-- Every member is less than those behind it. -/
def Sorted (s : SortedSet κ) : Prop := s.Pairwise fun a b => compare a b = .lt

variable [Std.LawfulEqOrd κ]

theorem mem_insert {s : SortedSet κ} {k k' : κ} : k' ∈ insert k s ↔ k' = k ∨ k' ∈ s := by
  induction s with
  | nil => simp [insert]
  | cons l s ih =>
    cases hk : compare k l with
    | lt => simp [insert, hk]
    | eq => simp [insert, Std.LawfulEqOrd.eq_of_compare hk]
    | gt => simp [insert, hk, ih, or_left_comm]

theorem mem_foldl_insert {ks : List κ} {s : SortedSet κ} {k : κ} :
    k ∈ ks.foldl (fun acc k => insert k acc) s ↔ k ∈ ks ∨ k ∈ s := by
  induction ks generalizing s with
  | nil => simp
  | cons l ks ih => rw [List.foldl_cons, ih, mem_insert, List.mem_cons, or_left_comm, or_assoc]

theorem mem_ofList {ks : List κ} {k : κ} : k ∈ ofList ks ↔ k ∈ ks :=
  mem_foldl_insert.trans (or_iff_left List.not_mem_nil)

theorem eq_singleton {s : SortedSet κ} {k : κ} (hs : s.Sorted)
    (hne : s ≠ []) (hall : ∀ l ∈ s, l = k) : s = [k] := by
  match s, hs, hne with
  | [l], _, _ => rw [hall l List.mem_cons_self]
  | l :: l' :: s, hs, _ =>
    have hlt := (List.pairwise_cons.mp hs).1 l' List.mem_cons_self
    rw [hall l List.mem_cons_self,
      hall l' (List.mem_cons_of_mem _ List.mem_cons_self)] at hlt
    simp at hlt

theorem Sorted.nodup {s : SortedSet κ} (hs : s.Sorted) : s.Nodup := by
  refine hs.imp fun {a b} hlt heq => ?_
  subst heq
  simp at hlt

variable [Std.TransOrd κ]

theorem contains_iff_mem {s : SortedSet κ} (hs : s.Sorted) {k : κ} : contains k s = true ↔ k ∈ s := by
  induction s with
  | nil => exact ⟨fun h => absurd h Bool.false_ne_true, fun h => absurd h List.not_mem_nil⟩
  | cons k' s ih =>
    obtain ⟨hlt, hs⟩ := List.pairwise_cons.mp hs
    rw [List.mem_cons]
    cases hk : compare k k' with
    | lt =>
      simp only [contains, hk, Bool.false_eq_true, false_iff, not_or]
      refine ⟨?_, fun hmem => ?_⟩
      · rintro rfl
        simp at hk
      · have habove := Std.TransCmp.lt_trans hk (hlt k hmem)
        simp at habove
    | eq => simp [contains, Std.LawfulEqOrd.eq_of_compare hk]
    | gt =>
      have hne : k ≠ k' := by
        rintro rfl
        simp at hk
      simp only [contains, hk, ih hs, hne, false_or]

theorem sorted_insert {s : SortedSet κ} (hs : s.Sorted) (k : κ) : Sorted (insert k s) := by
  induction s with
  | nil => exact List.pairwise_singleton ..
  | cons l s ih =>
    obtain ⟨hlt, hs'⟩ := List.pairwise_cons.mp hs
    cases hk : compare k l with
    | lt =>
      simp only [insert, hk]
      refine List.pairwise_cons.mpr ⟨fun a ha => ?_, hs⟩
      obtain rfl | ha := List.mem_cons.mp ha
      · exact hk
      · exact Std.TransCmp.lt_trans hk (hlt a ha)
    | eq =>
      obtain rfl := Std.LawfulEqOrd.eq_of_compare hk
      simp only [insert, hk]
      exact hs
    | gt =>
      simp only [insert, hk]
      refine List.pairwise_cons.mpr ⟨fun a ha => ?_, ih hs'⟩
      obtain rfl | ha := mem_insert.mp ha
      · exact Std.OrientedCmp.gt_iff_lt.mp hk
      · exact hlt a ha

/-- Sets with the same members are the same. -/
theorem ext {s s' : SortedSet κ} (hs : s.Sorted) (hs' : s'.Sorted) (h : ∀ k, k ∈ s ↔ k ∈ s') :
    s = s' := by
  refine ((List.perm_ext_iff_of_nodup hs.nodup hs'.nodup).mpr h).eq_of_pairwise
    (fun a b _ _ hab hba => ?_) hs hs'
  rw [Std.OrientedCmp.gt_of_lt hab] at hba
  exact nomatch hba

theorem sorted_ofList (ks : List κ) : (ofList ks).Sorted := by
  suffices hall : ∀ s : SortedSet κ, s.Sorted → (ks.foldl (fun acc k => insert k acc) s).Sorted from
    hall [] List.Pairwise.nil
  induction ks with
  | nil => exact fun s hs => hs
  | cons k ks ih => exact fun s hs => ih _ (sorted_insert hs k)

end SortedSet
end RecordIntake
