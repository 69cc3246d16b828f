import RecordIntake.Proofs.Anchoring
import RecordIntake.Proofs.Repetitions
import RecordIntake.Regex.Engine

/-!
The engine does what is relied on of a library of patterns.  The alternatives of an expression are
those of the lowest group when the text has been read, and each of them matches what its sequence
spans.  A single character in front becomes the first item of the first alternative, and is spanned
before what the rest spans.  The engine goes through the places of a name in their order, so what it
finds is the leftmost match.
-/
namespace RecordIntake
namespace Regex

open Pattern (BeginsWithSign MatchesFrom isSign)

variable {a e : Expr} {es : List Expr} {text : Array Char} {i j k : Nat}

/-! ## Sequences and alternatives -/

/-- The expressions span one stretch behind the other. -/
def SpansAll (text : Array Char) : List Expr → Nat → Nat → Prop
  | [], i, k => i = k
  | e :: es, i, k => ∃ j, Spans text e i j ∧ SpansAll text es j k

theorem spans_foldl_cat :
    Spans text (es.foldl .cat a) i k ↔ ∃ j, Spans text a i j ∧ SpansAll text es j k := by
  induction es generalizing a with
  | nil => exact ⟨fun h => ⟨k, h, rfl⟩, fun ⟨_, h, hj⟩ => hj ▸ h⟩
  | cons e es ih =>
    rw [List.foldl_cons, ih]
    simp only [spans_cat_iff, SpansAll]
    constructor
    · rintro ⟨j, ⟨l, ha, he⟩, hes⟩
      exact ⟨l, ha, j, he, hes⟩
    · rintro ⟨l, ha, j, he, hes⟩
      exact ⟨j, ⟨l, ha, he⟩, hes⟩

theorem spans_joined_cat (hi : i ≤ text.size) :
    Spans text (joined .cat es) i k ↔ SpansAll text es i k := by
  cases es with
  | nil => exact spans_empty_iff.trans (and_iff_right hi)
  | cons e es => exact spans_foldl_cat

theorem spans_foldl_alt :
    Spans text (es.foldl .alt a) i j ↔ ∃ b ∈ a :: es, Spans text b i j := by
  induction es generalizing a with
  | nil => simp
  | cons e es ih =>
    rw [List.foldl_cons, ih]
    simp only [List.mem_cons, exists_eq_or_imp, spans_alt_iff, or_assoc]

/-- What an expression matches in a name. -/
def stretches (e : Expr) : Stretches := fun name i j => Spans name.toList.toArray e i j

/-- In front of a sequence an expression is spanned first. -/
theorem stretches_joined_cons (e : Expr) (es : List Expr) :
    stretches (joined .cat (e :: es)) = (stretches e).followedBy (stretches (joined .cat es)) := by
  funext name i k
  refine propext (spans_foldl_cat.trans (exists_congr fun j => and_congr_right fun h => ?_))
  exact (spans_joined_cat h.within.2).symm

/-! ## Groups -/

namespace Level

/-- The alternatives of a group, in the order in which they are written. -/
def alternatives (l : Level) : List Expr :=
  (sequenceItem l.items :: l.branches).reverse.filterMap (·.expr?)

/-- A group spans what one of its alternatives spans. -/
theorem spans_iff {l : Level} (he : l.item.expr? = some e) :
    Spans text e i j ↔ ∃ b ∈ l.alternatives, Spans text b i j := by
  obtain rfl := Option.some.inj he
  have hlast : joined .cat (l.items.reverse.filterMap (·.expr?)) ∈ l.alternatives :=
    List.mem_filterMap.mpr ⟨sequenceItem l.items, List.mem_reverse.mpr List.mem_cons_self, rfl⟩
  show Spans text (joined .alt l.alternatives) i j ↔ _
  cases hes : l.alternatives with
  | nil =>
    rw [hes] at hlast
    exact absurd hlast List.not_mem_nil
  | cons b bs => exact spans_foldl_alt

end Level

/-- An item in front is in front of the first alternative. -/
theorem InFront.alternatives {l l' : Level} (h : InFront ⟨some e, 0⟩ [l] [l']) :
    l'.alternatives.map stretches =
      (l.alternatives.map stretches).modifyHead (stretches e).followedBy := by
  have hfirst : ∀ items : List Item,
      stretches (joined .cat ((items ++ [⟨some e, 0⟩] : List Item).reverse.filterMap (·.expr?))) =
        (stretches e).followedBy
          (stretches (joined .cat (items.reverse.filterMap (·.expr?)))) := by
    intro items
    rw [List.reverse_concat]
    exact stretches_joined_cons e _
  cases h with
  | opened capturing flags items => exact congrArg ([·]) (hfirst items)
  | finished capturing flags branches first items =>
    have hreverse : ∀ first : List Item,
        Level.alternatives ⟨capturing, flags, branches ++ [sequenceItem first], items⟩ =
          joined .cat (first.reverse.filterMap (·.expr?)) ::
            (sequenceItem items :: branches).reverse.filterMap (·.expr?) := by
      intro first
      rw [Level.alternatives, ← List.cons_append, List.reverse_concat]
      rfl
    rw [hreverse, hreverse, List.map_cons, List.map_cons, hfirst]
    rfl
  | above l hbelow => cases hbelow

/-! ## Texts -/

/-- The alternatives of the expression that a text stands for, if it stands for one. -/
def alternatives (text : List Char) : Option (List Stretches) :=
  (State.start.run text.length text).map fun l => l.alternatives.map stretches

/-- The first item is taken, and then the rest is read. -/
theorem run_start (c : Char) (cs : List Char) :
    State.start.run (c :: cs).length (c :: cs) =
      (State.start.next c cs).bind fun r => r.1.run cs.length r.2 := by
  have hskip : skip State.start.flags (c :: cs) = c :: cs := rfl
  rw [List.length_cons, State.run, hskip]
  cases hnext : State.start.next c cs with
  | none => simp only [hnext, Option.bind_none]
  | some r => simp only [hnext, Option.bind_some]

theorem alternatives_of_sign {text : List Char} (h : BeginsWithSign text) :
    alternatives text = none := by
  obtain ⟨c, rest, rfl, hc⟩ := h
  rw [alternatives, run_start, next_start_of_sign hc]
  rfl

/-- A character that is taken for an expression is in front of the first alternative of the rest. -/
theorem alternatives_cons {c : Char} {cs : List Char}
    (hc : State.start.next c cs = some (State.start.push e 0, cs)) (hcs : ¬ BeginsWithSign cs) :
    alternatives (c :: cs) = (alternatives cs).map (List.modifyHead (stretches e).followedBy) := by
  have hboth : Option.Rel (fun l l' => InFront ⟨some e, 0⟩ [l] [l'])
      (State.start.run cs.length cs) ((State.start.push e 0).run cs.length cs) :=
    (ahead_start e).run fun c rest hskip hsign => absurd ⟨c, rest, hskip, hsign⟩ hcs
  rw [alternatives, alternatives, run_start, hc, Option.bind_some, Option.map_map]
  generalize State.start.run cs.length cs = o, (State.start.push e 0).run cs.length cs = o' at hboth
  cases hboth with
  | none => rfl
  | some h => exact congrArg some h.alternatives

/-- What has a meaning of its own and is no sign stands alone, or is the bar between two
alternatives. -/
theorem next_start (c : Char) :
    alternatives [c] = none ∨ (alternatives [c]).map List.length = some 2 ∨
      ∃ e, ∀ cs, State.start.next c cs = some (State.start.push e 0, cs) := by
  by_cases hsign : isSign c = true
  · exact .inl (alternatives_of_sign ⟨c, [], rfl, hsign⟩)
  by_cases hopen : c = '('
  · exact .inl (hopen ▸ rfl)
  by_cases hclose : c = ')'
  · exact .inl (hclose ▸ rfl)
  by_cases hbar : c = '|'
  · exact .inr (.inl (hbar ▸ rfl))
  by_cases hclass : c = '['
  · exact .inl (hclass ▸ rfl)
  by_cases hescape : c = '\\'
  · exact .inl (hescape ▸ rfl)
  refine .inr (.inr ?_)
  by_cases hdot : c = '.'
  · subst hdot
    exact ⟨.set (dotSet .start), fun cs => rfl⟩
  by_cases hcaret : c = '^'
  · subst hcaret
    exact ⟨.look .textStart, fun cs => rfl⟩
  by_cases hdollar : c = '$'
  · subst hdollar
    exact ⟨.look .textEnd, fun cs => rfl⟩
  simp only [isSign, Bool.or_eq_true, decide_eq_true_eq, not_or] at hsign
  obtain ⟨⟨⟨hquestion, hstar⟩, hplus⟩, hbrace⟩ := hsign
  refine ⟨.set (foldCase .start (.single c.toNat)), fun cs => ?_⟩
  rw [State.next, if_neg hopen, if_neg hclose, if_neg hbar, if_neg hclass, if_neg hquestion,
    if_neg hstar, if_neg hplus, if_neg hbrace, if_neg hescape, if_neg hdot, if_neg hcaret,
    if_neg hdollar]
  rfl

/-- A character that has one alternative is taken for an expression. -/
theorem next_start_of_single {c : Char} {b : Stretches} (h : alternatives [c] = some [b]) :
    ∃ e, b = stretches e ∧ ∀ cs, State.start.next c cs = some (State.start.push e 0, cs) := by
  obtain hnone | htwo | ⟨e, hnext⟩ := next_start c
  · rw [hnone] at h
    cases h
  · rw [h] at htwo
    cases htwo
  · have hsingle : alternatives [c] = some [stretches e] := by
      rw [alternatives, run_start, hnext]
      rfl
    rw [hsingle] at h
    exact ⟨e, (List.cons.inj (Option.some.inj h)).1.symm, hnext⟩

/-- An anchor holds at the start of a text and nowhere else. -/
theorem stretches_anchor : stretches (.look .textStart) = Stretches.start := by
  funext name i j
  refine propext (spans_look_iff.trans ?_)
  constructor
  · rintro ⟨hi, hholds, rfl⟩
    cases i with
    | zero => exact ⟨rfl, rfl⟩
    | succ i =>
      have hsome : name.toList.toArray[i]? ≠ none := by
        rw [Ne, Array.getElem?_eq_none_iff]
        omega
      exact absurd (Option.isNone_iff_eq_none.mp hholds) hsome
  · rintro ⟨rfl, rfl⟩
    exact ⟨Nat.zero_le _, rfl, rfl⟩

/-! ## Patterns -/

theorem compile_eq_ok {s : String} {p : Pattern} (h : compile s = .ok p) :
    ∃ e, parse s.toList = some e ∧ p = ⟨s, fun name => e.find? name.toList.toArray⟩ := by
  unfold compile at h
  split at h
  · cases h
  · rename_i e he
    split at h
    · exact ⟨e, he, (Except.ok.inj h).symm⟩
    · cases h

/-- The expression of a text spans what one of its alternatives spans. -/
theorem spans_parse_iff {cs : List Char} {bs : List Stretches} (he : parse cs = some e)
    (hbs : alternatives cs = some bs) {name : String} :
    Spans name.toList.toArray e i j ↔ ∃ b ∈ bs, b name i j := by
  obtain ⟨l, hrun, rfl⟩ := Option.map_eq_some_iff.mp hbs
  unfold parse at he
  rw [hrun] at he
  dsimp only at he
  split at he
  · rw [Level.spans_iff he]
    constructor
    · rintro ⟨b, hb, h⟩
      exact ⟨stretches b, List.mem_map_of_mem hb, h⟩
    · rintro ⟨_, hb, h⟩
      obtain ⟨b, hmem, rfl⟩ := List.mem_map.mp hb
      exact ⟨b, hmem, h⟩
  · cases he

theorem exists_spans_iff {cs : List Char} {bs : List Stretches} (he : parse cs = some e)
    (hbs : alternatives cs = some bs) {name : String} :
    (∃ j, Spans name.toList.toArray e i j) ↔ MatchesFrom bs name i := by
  simp only [MatchesFrom, spans_parse_iff he hbs]
  constructor
  · rintro ⟨j, b, hb, h⟩
    exact ⟨b, hb, j, h⟩
  · rintro ⟨b, hb, j, h⟩
    exact ⟨j, b, hb, h⟩

/-- The first place from which the expression matches is found. -/
theorem find?_eq_some_iff (he : e.IsBounded) :
    e.find? text = some i ↔ (∃ j, Spans text e i j) ∧ ∀ k < i, ¬ ∃ j, Spans text e k j := by
  have hmatches : ∀ {k}, k ≤ text.size → (e.matchesFrom text k = true ↔ ∃ j, Spans text e k j) :=
    matchesFrom_iff he
  rw [Expr.find?, List.find?_range_eq_some]
  constructor
  · rintro ⟨hi, hrange, hleast⟩
    have hle : i ≤ text.size := Nat.le_of_lt_succ (List.mem_range.mp hrange)
    refine ⟨(hmatches hle).mp hi, fun k hk hspans => ?_⟩
    have hno := hleast k hk
    rw [Bool.not_eq_true', (hmatches (by omega)).mpr hspans] at hno
    cases hno
  · rintro ⟨⟨j, hspans⟩, hleast⟩
    have hle : i ≤ text.size := Nat.le_trans hspans.within.1 hspans.within.2
    refine ⟨(hmatches hle).mpr ⟨j, hspans⟩, List.mem_range.mpr (by omega), fun k hk => ?_⟩
    rw [Bool.not_eq_true', Bool.eq_false_iff, Ne, hmatches (by omega)]
    exact hleast k hk

theorem documented : Pattern.Documented compile alternatives where
  text_kept h := by
    obtain ⟨e, -, rfl⟩ := compile_eq_ok h
    rfl
  well_formed h := by
    obtain ⟨e, he, -⟩ := compile_eq_ok h
    unfold parse at he
    rw [alternatives, Option.isSome_map]
    split at he
    · cases he
    · rename_i hrun
      rw [hrun]
      rfl
  leftmost {text p bs} h hbs name i := by
    obtain ⟨e, he, rfl⟩ := compile_eq_ok h
    simp only [← exists_spans_iff he hbs]
    exact find?_eq_some_iff (isBounded_of_parse he)
  nothing_to_repeat := alternatives_of_sign
  caret := congrArg (fun b => some [b]) stretches_anchor
  concatenation hc htext := by
    obtain ⟨e, rfl, hnext⟩ := next_start_of_single hc
    exact alternatives_cons (hnext _) htext

end Regex
end RecordIntake
