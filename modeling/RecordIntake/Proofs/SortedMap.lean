import RecordIntake.Partition

/-!
What a sorted map holds after each of its operations.

Looking up stops at the first key that is too great, and inserting walks the same way.  So most of
what is said here about `find?` needs no order of the entries; erasing and joining do.
-/
namespace RecordIntake

instance : Std.TransOrd Partition :=
  inferInstanceAs (Std.TransCmp (compareLex (compareOn Partition.topic) (compareOn Partition.number)))

instance : Std.LawfulEqOrd Partition where
  eq_of_compare {a b} h := by
    obtain ⟨topic, number⟩ := a
    obtain ⟨topic', number'⟩ := b
    have h : compareLex (compareOn Partition.topic) (compareOn Partition.number)
        ⟨topic, number⟩ ⟨topic', number'⟩ = .eq := h
    simp only [compareLex, compareOn, Ordering.then_eq_eq, Std.LawfulEqOrd.compare_eq_iff_eq] at h
    obtain ⟨rfl, rfl⟩ := h
    rfl

namespace SortedMap

variable {κ α β : Type} [Ord κ]

/-- Every key is less than the keys behind it. -/
def Sorted (m : SortedMap κ α) : Prop := m.Pairwise fun a b => compare a.1 b.1 = .lt

theorem sorted_nil : Sorted ([] : SortedMap κ α) := List.Pairwise.nil

@[simp] theorem find?_nil (k : κ) : find? k ([] : SortedMap κ α) = none := rfl

theorem sorted_mapValues {f : α → β} {m : SortedMap κ α} (h : m.Sorted) :
    (m.mapValues f).Sorted :=
  List.pairwise_map.mpr h

theorem find?_mapValues (f : α → β) (m : SortedMap κ α) (k : κ) :
    find? k (m.mapValues f) = (find? k m).map f := by
  induction m with
  | nil => rfl
  | cons e m ih =>
    obtain ⟨k', a⟩ := e
    show find? k ((k', f a) :: mapValues f m) = _
    simp only [find?]
    cases compare k k' with
    | lt => rfl
    | eq => rfl
    | gt => exact ih

theorem find?_eq_none_of_lt {k : κ} {m : SortedMap κ α}
    (h : ∀ e ∈ m, compare k e.1 = .lt) : find? k m = none := by
  cases m with
  | nil => rfl
  | cons e m =>
    have := h e List.mem_cons_self
    simp [find?, this]

theorem erase_of_find?_eq_none {k : κ} {m : SortedMap κ α} (h : find? k m = none) :
    m.erase k = m := by
  induction m with
  | nil => rfl
  | cons e m ih =>
    obtain ⟨k', a⟩ := e
    cases hk : compare k k' with
    | lt => simp [erase, hk]
    | eq => simp [find?, hk] at h
    | gt =>
      simp only [find?, hk] at h
      simp only [erase, hk, ih h]

theorem insert_perm (k : κ) (a : α) (m : SortedMap κ α) :
    (m.insert k a).Perm ((k, a) :: m.erase k) := by
  induction m with
  | nil => exact List.Perm.refl _
  | cons e m ih =>
    obtain ⟨k', a'⟩ := e
    cases hk : compare k k' with
    | lt => simp only [insert, erase, hk, List.Perm.refl]
    | eq => simp only [insert, erase, hk, List.Perm.refl]
    | gt =>
      simp only [insert, erase, hk]
      exact (ih.cons _).trans (List.Perm.swap ..)

/-- What is left is in the order in which it was. -/
theorem erase_sublist (k : κ) (m : SortedMap κ α) : (m.erase k).Sublist m := by
  induction m with
  | nil => exact List.Sublist.refl _
  | cons e m ih =>
    obtain ⟨k', a⟩ := e
    cases hk : compare k k' with
    | lt => simp only [erase, hk, List.Sublist.refl]
    | eq => simp only [erase, hk, List.sublist_cons_self]
    | gt =>
      simp only [erase, hk]
      exact ih.cons_cons _

theorem sorted_erase {m : SortedMap κ α} (hm : m.Sorted) (k : κ) : (m.erase k).Sorted :=
  List.Pairwise.sublist (erase_sublist k m) hm

/-! ## Entries -/

section

variable [Std.LawfulEqOrd κ]

theorem find?_insert_self (k : κ) (a : α) (m : SortedMap κ α) :
    find? k (m.insert k a) = some a := by
  induction m with
  | nil => simp [insert, find?]
  | cons e m ih =>
    obtain ⟨k', a'⟩ := e
    cases h : compare k k' with
    | lt => simp [insert, find?, h]
    | eq => simp [insert, find?, h]
    | gt => simpa [insert, find?, h] using ih

theorem mem_of_find? {k : κ} {a : α} {m : SortedMap κ α} (h : find? k m = some a) :
    (k, a) ∈ m := by
  induction m with
  | nil => simp at h
  | cons e m ih =>
    obtain ⟨k', a'⟩ := e
    cases hk : compare k k' with
    | lt => simp [find?, hk] at h
    | eq =>
      obtain rfl := Std.LawfulEqOrd.compare_eq_iff_eq.mp hk
      simp only [find?, hk, Option.some.injEq] at h
      rw [h]
      exact List.mem_cons_self
    | gt =>
      simp only [find?, hk] at h
      exact List.mem_cons_of_mem _ (ih h)

/-- What is there already need not be inserted. -/
theorem insert_of_find? {k : κ} {a : α} {m : SortedMap κ α} (h : find? k m = some a) :
    m.insert k a = m := by
  induction m with
  | nil => cases h
  | cons e m ih =>
    obtain ⟨k', a'⟩ := e
    cases hk : compare k k' with
    | lt => simp [find?, hk] at h
    | eq =>
      obtain rfl := Std.LawfulEqOrd.compare_eq_iff_eq.mp hk
      simp only [find?, hk, Option.some.injEq] at h
      simp only [insert, hk, h]
    | gt =>
      simp only [find?, hk] at h
      simp only [insert, hk, ih h]

theorem insert_insert (k : κ) (a b : α) (m : SortedMap κ α) :
    (m.insert k a).insert k b = m.insert k b := by
  induction m with
  | nil => simp [insert]
  | cons e m ih =>
    obtain ⟨k', a'⟩ := e
    cases hk : compare k k' with
    | lt => simp [insert, hk]
    | eq => simp [insert, hk]
    | gt => simp only [insert, hk, ih]

/-- A key that was not there leaves nothing behind when it is erased again. -/
theorem erase_insert {k : κ} {m : SortedMap κ α} (h : find? k m = none) (a : α) :
    (m.insert k a).erase k = m := by
  induction m with
  | nil => simp [insert, erase]
  | cons e m ih =>
    obtain ⟨k', a'⟩ := e
    cases hk : compare k k' with
    | lt => simp [insert, erase, hk]
    | eq => simp [find?, hk] at h
    | gt =>
      simp only [find?, hk] at h
      simp only [insert, erase, hk, ih h]

theorem perm_cons_erase {k : κ} {a : α} {m : SortedMap κ α} (h : find? k m = some a) :
    m.Perm ((k, a) :: m.erase k) := by
  induction m with
  | nil => simp at h
  | cons e m ih =>
    obtain ⟨k', a'⟩ := e
    cases hk : compare k k' with
    | lt => simp [find?, hk] at h
    | eq =>
      obtain rfl := Std.LawfulEqOrd.compare_eq_iff_eq.mp hk
      simp only [find?, hk, Option.some.injEq] at h
      simp only [erase, hk, h, List.Perm.refl]
    | gt =>
      simp only [find?, hk] at h
      simp only [erase, hk]
      exact ((ih h).cons _).trans (List.Perm.swap ..)

theorem find?_erase_self {k : κ} {m : SortedMap κ α} (hm : m.Sorted) :
    find? k (m.erase k) = none := by
  induction m with
  | nil => rfl
  | cons e m ih =>
    obtain ⟨k', a⟩ := e
    obtain ⟨hlt, hm⟩ := List.pairwise_cons.mp hm
    cases hk : compare k k' with
    | lt => simp [erase, find?, hk]
    | eq =>
      obtain rfl := Std.LawfulEqOrd.compare_eq_iff_eq.mp hk
      simp only [erase, hk]
      exact find?_eq_none_of_lt hlt
    | gt => simpa [erase, find?, hk] using ih hm

end

variable [Std.TransOrd κ] [Std.LawfulEqOrd κ]

theorem find?_of_mem {k : κ} {a : α} {m : SortedMap κ α} (hm : m.Sorted) (h : (k, a) ∈ m) :
    find? k m = some a := by
  induction m with
  | nil => simp at h
  | cons e m ih =>
    obtain ⟨k', a'⟩ := e
    obtain ⟨hlt, hm⟩ := List.pairwise_cons.mp hm
    rcases List.mem_cons.mp h with h | h
    · obtain ⟨rfl, rfl⟩ := Prod.mk.inj h
      simp [find?]
    · have hgt : compare k k' = .gt := Std.OrientedCmp.gt_iff_lt.mpr (hlt _ h)
      simp only [find?, hgt]
      exact ih hm h

/-- Maps that are looked up alike are the same. -/
theorem ext {m m' : SortedMap κ α} (hm : m.Sorted) (hm' : m'.Sorted)
    (h : ∀ k, find? k m = find? k m') : m = m' := by
  have hne : ∀ {a b : κ × α}, compare a.1 b.1 = .lt → a ≠ b := by
    rintro a b hlt rfl
    simp at hlt
  have hmem : ∀ x, x ∈ m ↔ x ∈ m' := fun ⟨k, a⟩ =>
    ⟨fun hx => mem_of_find? (h k ▸ find?_of_mem hm hx),
      fun hx => mem_of_find? (h k ▸ find?_of_mem hm' hx)⟩
  refine ((List.perm_ext_iff_of_nodup (hm.imp hne) (hm'.imp hne)).mpr hmem).eq_of_pairwise
    (fun a b _ _ hab hba => ?_) hm hm'
  rw [Std.OrientedCmp.gt_of_lt hab] at hba
  exact nomatch hba

/-! ## Each operation -/

theorem find?_insert_of_ne {k k' : κ} (h : k' ≠ k) (a : α) (m : SortedMap κ α) :
    find? k' (m.insert k a) = find? k' m := by
  have hk : compare k' k ≠ .eq := fun e => h (Std.LawfulEqOrd.compare_eq_iff_eq.mp e)
  induction m with
  | nil =>
    simp only [insert, find?]
    cases hc : compare k' k with
    | lt => rfl
    | eq => exact absurd hc hk
    | gt => rfl
  | cons e m ih =>
    obtain ⟨l, b⟩ := e
    cases hl : compare k l with
    | lt =>
      -- Before the new entry nothing is found, because there was nothing before it.
      simp only [insert, hl, find?]
      cases hc : compare k' k with
      | lt => simp [Std.TransCmp.lt_trans hc hl]
      | eq => exact absurd hc hk
      | gt => rfl
    | eq =>
      obtain rfl := Std.LawfulEqOrd.compare_eq_iff_eq.mp hl
      simp only [insert, hl, find?]
      cases hc : compare k' k with
      | lt => rfl
      | eq => exact absurd hc hk
      | gt => rfl
    | gt =>
      simp only [insert, hl, find?]
      cases compare k' l with
      | lt => rfl
      | eq => rfl
      | gt => exact ih

theorem find?_insert [DecidableEq κ] (k k' : κ) (a : α) (m : SortedMap κ α) :
    find? k' (m.insert k a) = if k' = k then some a else find? k' m := by
  by_cases h : k' = k
  · rw [if_pos h, h, find?_insert_self]
  · rw [if_neg h, find?_insert_of_ne h]

/-- What is found after inserting was inserted, or was there before. -/
theorem of_find?_insert {k k' : κ} {a b : α} {m : SortedMap κ α}
    (h : find? k' (m.insert k a) = some b) : k' = k ∧ b = a ∨ k' ≠ k ∧ find? k' m = some b := by
  by_cases hk : k' = k
  · rw [hk, find?_insert_self] at h
    exact .inl ⟨hk, (Option.some.inj h).symm⟩
  · exact .inr ⟨hk, (find?_insert_of_ne hk a m).symm.trans h⟩

/-- What was there is there after inserting, unless its key is the one that got another value. -/
theorem find?_insert_of_find? {k k' : κ} {a b : α} {m : SortedMap κ α} (hk : find? k m = some a)
    (hk' : find? k' m = some b) (a' : α) :
    find? k' (m.insert k a') = some b ∨ k' = k ∧ b = a := by
  by_cases heq : k' = k
  · rw [heq, hk] at hk'
    exact .inr ⟨heq, (Option.some.inj hk').symm⟩
  · exact .inl ((find?_insert_of_ne heq a' m).trans hk')

theorem sorted_insert {m : SortedMap κ α} (hm : m.Sorted) (k : κ) (a : α) :
    (m.insert k a).Sorted := by
  induction m with
  | nil => exact List.pairwise_singleton ..
  | cons e m ih =>
    obtain ⟨k', a'⟩ := e
    obtain ⟨hlt, hm'⟩ := List.pairwise_cons.mp hm
    cases hk : compare k k' with
    | lt =>
      simp only [insert, hk]
      refine List.pairwise_cons.mpr ⟨fun e he => ?_, hm⟩
      rcases List.mem_cons.mp he with rfl | he
      · exact hk
      · exact Std.TransCmp.lt_trans hk (hlt e he)
    | eq =>
      obtain rfl := Std.LawfulEqOrd.compare_eq_iff_eq.mp hk
      simp only [insert, hk]
      exact List.pairwise_cons.mpr ⟨hlt, hm'⟩
    | gt =>
      simp only [insert, hk]
      refine List.pairwise_cons.mpr ⟨fun e he => ?_, ih hm'⟩
      rcases List.mem_cons.mp ((insert_perm k a m).mem_iff.mp he) with rfl | he
      · exact Std.OrientedCmp.gt_iff_lt.mp hk
      · exact hlt e ((erase_sublist k m).subset he)

theorem find?_erase_of_ne {k k' : κ} {m : SortedMap κ α} (hm : m.Sorted) (h : k' ≠ k) :
    find? k' (m.erase k) = find? k' m := by
  induction m with
  | nil => rfl
  | cons e m ih =>
    obtain ⟨l, a⟩ := e
    obtain ⟨hlt, hm⟩ := List.pairwise_cons.mp hm
    cases hl : compare k l with
    | lt => simp [erase, hl]
    | eq =>
      obtain rfl := Std.LawfulEqOrd.compare_eq_iff_eq.mp hl
      simp only [erase, hl, find?]
      cases hc : compare k' k with
      | lt => exact find?_eq_none_of_lt fun e he => Std.TransCmp.lt_trans hc (hlt e he)
      | eq => exact absurd (Std.LawfulEqOrd.compare_eq_iff_eq.mp hc) h
      | gt => rfl
    | gt =>
      simp only [erase, hl, find?]
      cases compare k' l with
      | lt => rfl
      | eq => rfl
      | gt => exact ih hm

theorem find?_erase [DecidableEq κ] {m : SortedMap κ α} (hm : m.Sorted) (k k' : κ) :
    find? k' (m.erase k) = if k' = k then none else find? k' m := by
  by_cases h : k' = k
  · rw [if_pos h, h, find?_erase_self hm]
  · rw [if_neg h, find?_erase_of_ne hm h]

theorem find?_union [DecidableEq κ] {n : SortedMap κ α} (hn : n.Sorted) (m : SortedMap κ α)
    (k : κ) : find? k (m.union n) = (find? k n).or (find? k m) := by
  induction n generalizing m with
  | nil => rfl
  | cons e n ih =>
    obtain ⟨k', a⟩ := e
    obtain ⟨hlt, hn⟩ := List.pairwise_cons.mp hn
    show find? k (union (m.insert k' a) n) = _
    rw [ih hn, find?_insert]
    by_cases h : k = k'
    · subst h
      rw [find?_eq_none_of_lt hlt]
      simp [find?]
    · rw [if_neg h]
      cases hk : compare k k' with
      | lt =>
        rw [find?_eq_none_of_lt fun e he => Std.TransCmp.lt_trans hk (hlt e he)]
        simp [find?, hk]
      | eq => exact absurd (Std.LawfulEqOrd.compare_eq_iff_eq.mp hk) h
      | gt => simp [find?, hk]

/-! ## From lists -/

theorem sorted_foldl_insert {m : SortedMap κ α} (hm : m.Sorted) (l : List (κ × α)) :
    (l.foldl (fun acc (k, a) => insert k a acc) m).Sorted := by
  induction l generalizing m with
  | nil => exact hm
  | cons x l ih => exact ih (sorted_insert hm x.1 x.2)

theorem sorted_ofList (l : List (κ × α)) : (ofList l).Sorted := sorted_foldl_insert sorted_nil l

/-- Without repeated keys nothing of the list gets lost. -/
theorem ofList_perm {l : List (κ × α)} (hl : (l.map (·.1)).Nodup) : (ofList l).Perm l := by
  suffices hall : ∀ acc : SortedMap κ α, (∀ x ∈ l, find? x.1 acc = none) →
      (l.foldl (fun acc (k, a) => insert k a acc) acc).Perm (acc ++ l) from
    hall [] fun _ _ => rfl
  induction l with
  | nil => exact fun acc _ => (List.append_nil acc).symm ▸ List.Perm.refl acc
  | cons x l ih =>
    intro acc hacc
    obtain ⟨hx, hl⟩ := List.nodup_cons.mp hl
    have hins : (acc.insert x.1 x.2).Perm (x :: acc) := by
      have hperm := insert_perm x.1 x.2 acc
      rwa [erase_of_find?_eq_none (hacc x List.mem_cons_self)] at hperm
    have hnew : ∀ y ∈ l, find? y.1 (acc.insert x.1 x.2) = none := fun y hy => by
      have hne : y.1 ≠ x.1 := fun h => hx (List.mem_map.mpr ⟨y, hy, h⟩)
      rw [find?_insert_of_ne hne, hacc y (List.mem_cons_of_mem _ hy)]
    exact (ih hl _ hnew).trans ((hins.append_right l).trans List.perm_middle.symm)

theorem find?_ofList {l : List (κ × α)} (hl : (l.map (·.1)).Nodup) {k : κ} {a : α} :
    find? k (ofList l) = some a ↔ (k, a) ∈ l :=
  ⟨fun h => (ofList_perm hl).mem_iff.mp (mem_of_find? h),
    fun h => find?_of_mem (sorted_ofList l) ((ofList_perm hl).mem_iff.mpr h)⟩

end SortedMap
end RecordIntake
