import RecordIntake.Pattern

/-!
What is relied on of the library that makes patterns.  It documents a syntax, in which an expression
is a list of alternatives, and for each alternative which stretches of a text it matches.  Of both
only a few facts are used: what an anchor matches, what one character in front of an expression
means, that a repetition sign needs something to repeat, and that what is found is the leftmost
match.

They are enough to compare an expression with the anchored one.  From the start of a name, where the
anchor holds and takes nothing, both match the same.
-/
namespace RecordIntake

/-- Which stretches of a name are matched, by the numbers of characters before their first and up to
their last one. -/
abbrev Stretches := String → Nat → Nat → Prop

namespace Stretches

/-- A stretch of the one and right behind it a stretch of the other. -/
def followedBy (a b : Stretches) : Stretches := fun name i k => ∃ j, a name i j ∧ b name j k

/-- The empty stretch at the start of a name. -/
def start : Stretches := fun _ i j => i = 0 ∧ j = 0

end Stretches

namespace Pattern

/-- The signs that repeat what stands before them. -/
def isSign (c : Char) : Bool := c = '?' || c = '*' || c = '+' || c = '\x7b'

/-- The first character of the text repeats what stands before it. -/
def BeginsWithSign (text : List Char) : Prop := ∃ c rest, text = c :: rest ∧ isSign c = true

/-- One of the alternatives matches a stretch from this place on. -/
def MatchesFrom (bs : List Stretches) (name : String) (i : Nat) : Prop := ∃ b ∈ bs, ∃ j, b name i j

/-- The library does what it documents.  `alternatives` is its syntax: a text that is an expression
has alternatives, and a text that is none has not.  Not every expression is made a pattern, for
there are limits to the size of patterns. -/
structure Documented (compile : Compiler)
    (alternatives : List Char → Option (List Stretches)) : Prop where
  /-- A pattern knows its text. -/
  text_kept : ∀ {text : String} {p : Pattern}, compile text = .ok p → p.text = text
  /-- Only expressions are made patterns. -/
  well_formed : ∀ {text : String} {p : Pattern}, compile text = .ok p →
    (alternatives text.toList).isSome
  /-- The leftmost match is found, whichever alternative it is a match of. -/
  leftmost : ∀ {text : String} {p : Pattern} {bs : List Stretches}, compile text = .ok p →
    alternatives text.toList = some bs → ∀ name i, p.find? name = some i ↔
      MatchesFrom bs name i ∧ ∀ j < i, ¬ MatchesFrom bs name j
  /-- A repetition sign is an error where there is nothing before it. -/
  nothing_to_repeat : ∀ {text : List Char}, BeginsWithSign text → alternatives text = none
  /-- The sign `^` matches at the start of a text only, and takes nothing. -/
  caret : alternatives ['^'] = some [Stretches.start]
  /-- Of expressions that stand behind each other the second matches from where the first one ends,
  and alternatives bind less than that.  A repetition sign would belong to what stands in front of
  it. -/
  concatenation : ∀ {c : Char} {b : Stretches} {text : List Char}, alternatives [c] = some [b] →
    ¬ BeginsWithSign text →
    alternatives (c :: text) = (alternatives text).map (List.modifyHead b.followedBy)

/-- In front of the first alternative the anchor changes nothing at the start of a name. -/
theorem matchesFrom_zero_modifyHead {bs : List Stretches} {name : String} :
    MatchesFrom (bs.modifyHead Stretches.start.followedBy) name 0 ↔ MatchesFrom bs name 0 := by
  cases bs with
  | nil => rfl
  | cons b bs =>
    have hfirst : ∀ k, Stretches.start.followedBy b name 0 k ↔ b name 0 k := by
      intro k
      constructor
      · rintro ⟨j, ⟨-, rfl⟩, h⟩
        exact h
      · intro h
        exact ⟨0, ⟨rfl, rfl⟩, h⟩
    simp only [MatchesFrom, List.modifyHead_cons, List.mem_cons, exists_eq_or_imp, hfirst]

namespace Documented

variable {compile : Compiler} {alternatives : List Char → Option (List Stretches)}
  {text : List Char} {bs : List Stretches} {p q q' : Pattern}

/-- The anchored text is an expression just if the text alone is, and then both match the same from
the start of a name. -/
theorem anchored (h : Documented compile alternatives) (hsign : ¬ BeginsWithSign text) :
    ∃ f : List Stretches → List Stretches,
      alternatives (Pattern.anchored text) = (alternatives text).map f ∧
        ∀ bs name, MatchesFrom (f bs) name 0 ↔ MatchesFrom bs name 0 := by
  unfold Pattern.anchored
  split
  · exact ⟨id, (Option.map_id_apply ..).symm, fun _ _ => Iff.rfl⟩
  · exact ⟨_, h.concatenation h.caret hsign, fun _ _ => matchesFrom_zero_modifyHead⟩

/-- What compiles with the anchor is an expression without it, unless it begins with a sign. -/
theorem isSome_of_anchored (h : Documented compile alternatives) (hsign : ¬ BeginsWithSign text)
    (hq : compile (String.ofList (Pattern.anchored text)) = .ok q) :
    (alternatives text).isSome := by
  obtain ⟨f, hf, -⟩ := h.anchored hsign
  have hsome := h.well_formed hq
  rwa [String.toList_ofList, hf, Option.isSome_map] at hsome

theorem error_of_sign (h : Documented compile alternatives) (hsign : BeginsWithSign text) :
    ∃ explanation, compile (String.ofList text) = .error explanation := by
  cases hc : compile (String.ofList text) with
  | error explanation => exact ⟨explanation, rfl⟩
  | ok p =>
    have hsome := h.well_formed hc
    rw [String.toList_ofList, h.nothing_to_repeat hsign] at hsome
    cases hsome

/-- What is matched from the start of a name on is the leftmost match. -/
theorem matchesStart_iff (h : Documented compile alternatives)
    (hp : compile (String.ofList text) = .ok p) (hbs : alternatives text = some bs)
    (name : String) : p.matchesStart name = true ↔ MatchesFrom bs name 0 := by
  rw [matchesStart, beq_iff_eq, h.leftmost hp (by rwa [String.toList_ofList])]
  exact and_iff_left fun j hj => absurd hj (Nat.not_lt_zero j)

/-- If a text compiles with the anchor and without it, both patterns match at the start of the same
names. -/
theorem matchesStart_anchored (h : Documented compile alternatives)
    (hq : compile (String.ofList text) = .ok q)
    (hq' : compile (String.ofList (Pattern.anchored text)) = .ok q') :
    ∃ bs, alternatives text = some bs ∧ ∀ name,
      (q.matchesStart name = true ↔ MatchesFrom bs name 0) ∧
        (q'.matchesStart name = true ↔ MatchesFrom bs name 0) := by
  have hsign : ¬ BeginsWithSign text := by
    intro hsign
    obtain ⟨explanation, he⟩ := h.error_of_sign hsign
    rw [he] at hq
    cases hq
  obtain ⟨bs, hbs⟩ := Option.isSome_iff_exists.mp (h.isSome_of_anchored hsign hq')
  obtain ⟨f, hf, hsame⟩ := h.anchored hsign
  rw [hbs, Option.map_some] at hf
  exact ⟨bs, hbs, fun name =>
    ⟨h.matchesStart_iff hq hbs name, (h.matchesStart_iff hq' hf name).trans (hsame bs name)⟩⟩

end Documented
end Pattern
end RecordIntake
