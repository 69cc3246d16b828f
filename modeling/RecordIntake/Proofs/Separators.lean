import Mathlib.Data.List.DropRight
import Mathlib.Data.List.Forall2
import RecordIntake.Text.Blank
import RecordIntake.Text.Literal

/-!
What stands between separators, and which texts are integers.  Blanks at the end of a text end up in
its last part, and trimming takes them from there, so the parts do not depend on whether the whole
text was trimmed before.
-/
namespace RecordIntake.Text

/-! ## Blanks -/

def AllBlank (cs : List Char) : Prop := ∀ c ∈ cs, isBlank c = true

/-- The second text is the first one with blanks around it. -/
def Padded (cs cs' : List Char) : Prop :=
  ∃ b b', AllBlank b ∧ AllBlank b' ∧ cs' = b ++ cs ++ b'

variable {sep x : Char} {cs cs' b before after : List Char}

theorem trim_eq_rdropWhile (cs : List Char) :
    trim cs = (cs.dropWhile isBlank).rdropWhile isBlank := rfl

theorem trim_eq_nil_iff : trim cs = [] ↔ AllBlank cs := by
  rw [trim_eq_rdropWhile, List.rdropWhile_eq_nil_iff]
  constructor
  · intro h
    refine List.dropWhile_eq_nil_iff.mp ?_
    cases hdrop : cs.dropWhile isBlank with
    | nil => rfl
    | cons c rest =>
      have hc := h c (hdrop ▸ List.mem_cons_self)
      have hfirst := List.head?_dropWhile_not isBlank cs
      rw [hdrop, List.head?_cons] at hfirst
      exact absurd hc (by rw [show isBlank c = false from hfirst]; decide)
  · intro h
    rw [List.dropWhile_eq_nil_iff.mpr h]
    exact List.forall_mem_nil _

theorem trim_blank_append (hb : AllBlank b) (cs : List Char) : trim (b ++ cs) = trim cs := by
  rw [trim_eq_rdropWhile, List.dropWhile_append_of_pos hb, ← trim_eq_rdropWhile]

theorem rdropWhile_append_blank (hb : AllBlank b) (cs : List Char) :
    (cs ++ b).rdropWhile isBlank = cs.rdropWhile isBlank := by
  rw [List.rdropWhile, List.reverse_append,
    List.dropWhile_append_of_pos fun c hc => hb c (List.mem_reverse.mp hc), ← List.rdropWhile]

theorem trim_append_blank (hb : AllBlank b) (cs : List Char) : trim (cs ++ b) = trim cs := by
  simp only [trim_eq_rdropWhile, List.dropWhile_append]
  split
  · rename_i hnone
    rw [List.isEmpty_iff.mp hnone, List.dropWhile_eq_nil_iff.mpr hb]
  · rw [rdropWhile_append_blank hb]

theorem trim_of_padded (h : Padded cs cs') : trim cs' = trim cs := by
  obtain ⟨b, b', hb, hb', rfl⟩ := h
  rw [trim_append_blank hb', trim_blank_append hb]

theorem trim_dropWhile (cs : List Char) : trim (cs.dropWhile isBlank) = trim cs := by
  have hsplit := trim_blank_append (b := cs.takeWhile isBlank)
    (fun c hc => (List.mem_takeWhile_imp hc)) (cs.dropWhile isBlank)
  rw [List.takeWhile_append_dropWhile] at hsplit
  exact hsplit.symm

/-- Around a character that is no blank, a text is trimmed on both sides. -/
theorem trim_around (hx : isBlank x = false) (before after : List Char) :
    trim (before ++ x :: after) =
      before.dropWhile isBlank ++ x :: after.rdropWhile isBlank := by
  have hfront : (before ++ x :: after).dropWhile isBlank = before.dropWhile isBlank ++ x :: after := by
    rw [List.dropWhile_append]
    split
    · rename_i hnone
      rw [List.isEmpty_iff.mp hnone, List.dropWhile_cons_of_neg (by rw [hx]; decide), List.nil_append]
    · rfl
  rw [trim_eq_rdropWhile, hfront, List.rdropWhile, List.reverse_append, List.reverse_cons,
    List.append_assoc, List.dropWhile_append]
  split
  · rename_i hnone
    rw [List.singleton_append, List.dropWhile_cons_of_neg (by rw [hx]; decide), List.rdropWhile,
      List.isEmpty_iff.mp hnone]
    simp
  · rw [List.rdropWhile]
    simp

/-! ## Cutting -/

theorem cutAt_eq_some_iff :
    cutAt sep cs = some (before, after) ↔ cs = before ++ sep :: after ∧ sep ∉ before := by
  induction cs generalizing before with
  | nil => simp [cutAt]
  | cons c cs ih =>
    unfold cutAt
    by_cases hc : c = sep
    · subst hc
      rw [if_pos rfl, Option.some.injEq, Prod.mk.injEq]
      constructor
      · rintro ⟨rfl, rfl⟩
        exact ⟨rfl, List.not_mem_nil⟩
      · rintro ⟨heq, hnot⟩
        cases before with
        | nil => exact ⟨rfl, (List.cons.inj heq).2⟩
        | cons d before =>
          exact absurd ((List.cons.inj heq).1 ▸ List.mem_cons_self) hnot
    · rw [if_neg hc, Option.map_eq_some_iff]
      constructor
      · rintro ⟨⟨before', after'⟩, hcut, heq⟩
        obtain ⟨rfl, rfl⟩ := Prod.mk.inj heq
        obtain ⟨rfl, hnot⟩ := ih.mp hcut
        exact ⟨rfl, List.not_mem_cons_of_ne_of_not_mem (Ne.symm hc) hnot⟩
      · rintro ⟨heq, hnot⟩
        cases before with
        | nil => exact absurd (List.cons.inj heq).1 hc
        | cons d before =>
          obtain ⟨rfl, rfl⟩ := List.cons.inj heq
          exact ⟨(before, after), ih.mpr ⟨rfl, fun hsep => hnot (List.mem_cons_of_mem _ hsep)⟩, rfl⟩

theorem pieces_of_not_mem (h : sep ∉ cs) : pieces sep cs = [cs] := by
  induction cs with
  | nil => rfl
  | cons c cs ih =>
    have hc : c ≠ sep := fun hc => h (hc ▸ List.mem_cons_self)
    rw [pieces, if_neg hc, ih fun hsep => h (List.mem_cons_of_mem _ hsep)]

/-- What is put behind a text goes to the last piece. -/
theorem pieces_append (h : sep ∉ b) (cs : List Char) :
    List.Forall₂ (fun p p' => p' = p ∨ p' = p ++ b) (pieces sep cs) (pieces sep (cs ++ b)) := by
  induction cs with
  | nil =>
    rw [List.nil_append, pieces_of_not_mem h]
    exact .cons (.inr rfl) .nil
  | cons c cs ih =>
    rw [List.cons_append, pieces, pieces]
    split
    · exact .cons (.inl rfl) ih
    · generalize pieces sep cs = ps, pieces sep (cs ++ b) = ps' at ih
      cases ih with
      | nil => exact .cons (.inl rfl) .nil
      | cons hp hps =>
        refine .cons ?_ hps
        obtain rfl | rfl := hp
        · exact .inl rfl
        · exact .inr rfl

theorem entries_append_blank (hsep : isBlank sep = false) (hb : AllBlank b) (cs : List Char) :
    entries sep (cs ++ b) = entries sep cs := by
  have hnot : sep ∉ b := fun hmem => absurd (hb sep hmem) (by rw [hsep]; decide)
  have htrim : (pieces sep cs).map trim = (pieces sep (cs ++ b)).map trim := by
    rw [← List.forall₂_eq_eq_eq, List.forall₂_map_left_iff, List.forall₂_map_right_iff]
    refine (pieces_append hnot cs).imp fun p p' hp => ?_
    obtain rfl | rfl := hp
    · rfl
    · exact (trim_append_blank hb p).symm
  rw [entries, ← htrim, ← entries]

theorem entries_rdropWhile (hsep : isBlank sep = false) (cs : List Char) :
    entries sep (cs.rdropWhile isBlank) = entries sep cs := by
  have hsplit := entries_append_blank hsep (b := cs.rtakeWhile isBlank)
    (fun c hc => List.mem_rtakeWhile_imp hc) (cs.rdropWhile isBlank)
  rw [List.rdropWhile_append_rtakeWhile] at hsplit
  exact hsplit.symm

theorem entries_eq_nil_iff : entries sep cs = [] ↔ ∀ p ∈ pieces sep cs, AllBlank p := by
  rw [entries, List.filter_eq_nil_iff, List.forall_mem_map]
  refine forall₂_congr fun p _ => ?_
  rw [← trim_eq_nil_iff]
  simp

/-- The pieces that are not blank, trimmed. -/
def kept (ps : List (List Char)) : List (List Char) := (ps.map trim).filter (! ·.isEmpty)

theorem entries_eq_kept (sep : Char) (cs : List Char) : entries sep cs = kept (pieces sep cs) := rfl

theorem kept_cons {p : List Char} (hp : trim p ≠ []) (ps : List (List Char)) :
    kept (p :: ps) = trim p :: kept ps := by
  rw [kept, List.map_cons, List.filter_cons_of_pos (by simp [hp]), ← kept]

theorem kept_blank (hb : AllBlank b) (ps : List (List Char)) : kept (b :: ps) = kept ps := by
  rw [kept, List.map_cons, trim_eq_nil_iff.mpr hb, List.filter_cons_of_neg (by decide), ← kept]

theorem kept_append (ps qs : List (List Char)) : kept (ps ++ qs) = kept ps ++ kept qs := by
  rw [kept, List.map_append, List.filter_append, ← kept, ← kept]

/-- Pieces in another order, with more blanks around them, or with more blank ones among them. -/
inductive Reworded : List (List Char) → List (List Char) → Prop where
  | reordered {ps ps' : List (List Char)} (h : ps.Perm ps') : Reworded ps ps'
  | padded {p p' : List Char} (h : Padded p p') (ps : List (List Char)) :
    Reworded (p :: ps) (p' :: ps)
  | blank {b : List Char} (h : AllBlank b) (ps : List (List Char)) : Reworded ps (b :: ps)

theorem kept_perm {ps ps' : List (List Char)} (h : Reworded ps ps') : (kept ps).Perm (kept ps') := by
  cases h with
  | reordered h => exact (h.map trim).filter _
  | padded h ps => rw [kept, kept, List.map_cons, List.map_cons, trim_of_padded h]
  | blank h ps => rw [kept_blank h]

/-! ## Integers -/

/-- Digits with or without a sign before them, and their value. -/
inductive Numeral : List Char → Int → Prop where
  | plain {ds : List Char} (hne : ds ≠ []) (h : ∀ c ∈ ds, isDigit c = true) :
    Numeral ds (decimalValue ds)
  | plus {ds : List Char} (hne : ds ≠ []) (h : ∀ c ∈ ds, isDigit c = true) :
    Numeral ('+' :: ds) (decimalValue ds)
  | minus {ds : List Char} (hne : ds ≠ []) (h : ∀ c ∈ ds, isDigit c = true) :
    Numeral ('-' :: ds) (-decimalValue ds)

/-- A literal of an integer of 32 bits. -/
def IsInt32 (cs : List Char) (n : Int) : Prop :=
  Numeral cs n ∧ -2147483648 ≤ n ∧ n ≤ 2147483647

theorem readNatural_eq_some_iff {k : Nat} :
    readNatural cs = some k ↔ (cs ≠ [] ∧ ∀ c ∈ cs, isDigit c = true) ∧ decimalValue cs = k := by
  simp [readNatural, not_or]

theorem IntegerRange.contains_int32 {n : Int} :
    IntegerRange.int32.contains n = true ↔ -2147483648 ≤ n ∧ n ≤ 2147483647 := by
  rw [contains, Bool.and_eq_true, decide_eq_true_eq, decide_eq_true_eq]
  rfl

theorem readInteger_int32_iff {n : Int} : readInteger .int32 cs = some n ↔ IsInt32 cs n := by
  have hsigned : IntegerRange.int32.least < 0 := by decide
  unfold readInteger
  simp only [Option.filter_eq_some_iff, IntegerRange.contains_int32, IsInt32, if_pos hsigned]
  refine and_congr_left fun _ => ⟨fun h => ?_, fun h => ?_⟩
  · split at h
    · obtain ⟨k, hk, rfl⟩ := Option.map_eq_some_iff.mp h
      obtain ⟨⟨hne, hds⟩, rfl⟩ := readNatural_eq_some_iff.mp hk
      exact .plus hne hds
    · obtain ⟨k, hk, rfl⟩ := Option.map_eq_some_iff.mp h
      obtain ⟨⟨hne, hds⟩, rfl⟩ := readNatural_eq_some_iff.mp hk
      exact .minus hne hds
    · obtain ⟨k, hk, rfl⟩ := Option.map_eq_some_iff.mp h
      obtain ⟨⟨hne, hds⟩, rfl⟩ := readNatural_eq_some_iff.mp hk
      exact .plain hne hds
  · cases h with
    | plain hne hds =>
      split
      · exact absurd (hds '+' List.mem_cons_self) (by decide)
      · exact absurd (hds '-' List.mem_cons_self) (by decide)
      · exact Option.map_eq_some_iff.mpr ⟨_, readNatural_eq_some_iff.mpr ⟨⟨hne, hds⟩, rfl⟩, rfl⟩
    | plus hne hds =>
      exact Option.map_eq_some_iff.mpr ⟨_, readNatural_eq_some_iff.mpr ⟨⟨hne, hds⟩, rfl⟩, rfl⟩
    | minus hne hds =>
      exact Option.map_eq_some_iff.mpr ⟨_, readNatural_eq_some_iff.mpr ⟨⟨hne, hds⟩, rfl⟩, rfl⟩

end RecordIntake.Text
