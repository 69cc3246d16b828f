import RecordIntake.Proofs.PatternLibrary
import RecordIntake.Regex.Parser

/-!
Reading a text with an item in front.  It goes in lockstep with reading the text alone: the lowest
open group has the item before all others of its first alternative, and everything above is the
same.  The two readers part only where the text alone has nothing to repeat yet, which is at its
first character.  So if the text does not begin with a repetition sign, both readers come to the end
or neither does, and the first alternative is the only one that the item is in.
-/
namespace RecordIntake
namespace Regex

open Pattern (isSign)

/-- The results of two readers agree: both fail, or both go on, with the same rest. -/
def Agree {α β : Type} (r : α → β → Prop) (o : Option (α × List Char))
    (o' : Option (β × List Char)) : Prop :=
  Option.Rel (fun x x' => r x.1 x'.1 ∧ x'.2 = x.2) o o'

theorem rel_bind {α β γ δ : Type} {r : α → β → Prop} {s : γ → δ → Prop} {o : Option α}
    {o' : Option β} (h : Option.Rel r o o') {f : α → Option γ} {g : β → Option δ}
    (hfg : ∀ a b, r a b → Option.Rel s (f a) (g b)) : Option.Rel s (o.bind f) (o'.bind g) := by
  cases h with
  | none => exact .none
  | some hab => exact hfg _ _ hab

theorem rel_bind_self {α γ δ : Type} {s : γ → δ → Prop} (o : Option α) {f : α → Option γ}
    {g : α → Option δ} (hfg : ∀ a, Option.Rel s (f a) (g a)) :
    Option.Rel s (o.bind f) (o.bind g) := by
  cases o with
  | none => exact .none
  | some a => exact hfg a

theorem agree_map {α β : Type} {r : α → β → Prop} {o : Option α} {o' : Option β}
    (h : Option.Rel r o o') (rest : List Char) :
    Agree r (o.map (·, rest)) (o'.map (·, rest)) := by
  cases h with
  | none => exact .none
  | some hab => exact .some ⟨hab, rfl⟩

/-! ## An item in front of all others -/

/-- The levels are the same, but that the lowest has the item in front of its first alternative,
which is still open or is finished. -/
inductive InFront (x : Item) : List Level → List Level → Prop where
  | opened (capturing : Bool) (flags : Flags) (items : List Item) :
    InFront x [⟨capturing, flags, [], items⟩] [⟨capturing, flags, [], items ++ [x]⟩]
  | finished (capturing : Bool) (flags : Flags) (branches : List Item) (first items : List Item) :
    InFront x [⟨capturing, flags, branches ++ [sequenceItem first], items⟩]
      [⟨capturing, flags, branches ++ [sequenceItem (first ++ [x])], items⟩]
  | above (l : Level) {ls ls' : List Level} (h : InFront x ls ls') : InFront x (l :: ls) (l :: ls')

/-- The second reader is where the first one is, with an item in front. -/
structure Ahead (x : Item) (st st' : State) : Prop where
  levels : InFront x (st.level :: st.outer) (st'.level :: st'.outer)
  flags : st'.flags = st.flags
  names : st'.names = st.names

/-- There is something to repeat, or there never will be. -/
def State.HasBegun (st : State) : Prop :=
  st.outer = [] → st.level.branches = [] → st.level.items ≠ []

/-- From here on both take the same items. -/
structure InStep (x : Item) (st st' : State) : Prop extends Ahead x st st' where
  begun : st.HasBegun

variable {x : Item} {st st' : State}

namespace InFront

variable {l l' : Level} {ls ls' : List Level}

theorem add (h : InFront x (l :: ls) (l' :: ls')) (y : Item) :
    InFront x ({ l with items := y :: l.items } :: ls)
      ({ l' with items := y :: l'.items } :: ls') := by
  cases h with
  | opened capturing flags items => exact .opened capturing flags (y :: items)
  | finished capturing flags branches first items =>
    exact .finished capturing flags branches first (y :: items)
  | above l hbelow => exact .above _ hbelow

theorem bar (h : InFront x (l :: ls) (l' :: ls')) :
    InFront x ({ l with branches := sequenceItem l.items :: l.branches, items := [] } :: ls)
      ({ l' with branches := sequenceItem l'.items :: l'.branches, items := [] } :: ls') := by
  cases h with
  | opened capturing flags items => exact .finished capturing flags [] items []
  | finished capturing flags branches first items =>
    exact .finished capturing flags (sequenceItem items :: branches) first []
  | above l hbelow => exact .above _ hbelow

/-- A group that can be closed is the same in both. -/
theorem outer (h : InFront x (l :: ls) (l' :: ls')) :
    ls = [] ∧ ls' = [] ∨ l' = l ∧ ∃ o os o' os', ls = o :: os ∧ ls' = o' :: os' ∧
      InFront x (o :: os) (o' :: os') := by
  cases h with
  | opened => exact .inl ⟨rfl, rfl⟩
  | finished => exact .inl ⟨rfl, rfl⟩
  | above l hbelow =>
    cases hbelow with
    | opened => exact .inr ⟨rfl, _, _, _, _, rfl, rfl, .opened ..⟩
    | finished => exact .inr ⟨rfl, _, _, _, _, rfl, rfl, .finished ..⟩
    | above o hbelow => exact .inr ⟨rfl, _, _, _, _, rfl, rfl, .above o hbelow⟩

/-- The last item is the same in both, if there is one or the group is not where `x` is. -/
theorem last (h : InFront x (l :: ls) (l' :: ls'))
    (hbegun : ls = [] → l.branches = [] → l.items ≠ []) :
    l.items = [] ∧ l'.items = [] ∨ ∃ y ys ys', l.items = y :: ys ∧ l'.items = y :: ys' ∧
      InFront x ({ l with items := ys } :: ls) ({ l' with items := ys' } :: ls') := by
  obtain ⟨capturing, flags, branches, items⟩ := l
  cases items with
  | cons y ys =>
    cases h with
    | opened => exact .inr ⟨y, ys, ys ++ [x], rfl, rfl, .opened ..⟩
    | finished => exact .inr ⟨y, ys, ys, rfl, rfl, .finished ..⟩
    | above l hbelow => exact .inr ⟨y, ys, ys, rfl, rfl, .above _ hbelow⟩
  | nil =>
    cases h with
    | opened => exact absurd rfl (hbegun rfl rfl)
    | finished => exact .inl ⟨rfl, rfl⟩
    | above l hbelow => exact .inl ⟨rfl, rfl⟩

end InFront

namespace Ahead

theorem push (h : Ahead x st st') (e : Expr) (height : Nat) :
    InStep x (st.push e height) (st'.push e height) :=
  ⟨⟨h.levels.add ⟨some e, height⟩, h.flags, h.names⟩, fun _ _ => List.cons_ne_nil _ _⟩

theorem bar (h : Ahead x st st') : InStep x st.bar st'.bar :=
  ⟨⟨h.levels.bar, h.flags, h.names⟩, fun _ hnone => absurd hnone (List.cons_ne_nil _ _)⟩

theorem openGroup (h : Ahead x st st') (capturing : Bool) (flags : Flags) :
    InStep x (st.openGroup capturing flags) (st'.openGroup capturing flags) where
  levels := by
    show InFront x (⟨capturing, st.flags, [], []⟩ :: st.level :: st.outer)
      (⟨capturing, st'.flags, [], []⟩ :: st'.level :: st'.outer)
    rw [h.flags]
    exact .above _ h.levels
  flags := rfl
  names := h.names
  begun hnone := absurd hnone (List.cons_ne_nil _ _)

theorem addName (h : Ahead x st st') (name : List Char) :
    Option.Rel (Ahead x) (st.addName name) (st'.addName name) := by
  unfold State.addName
  rw [h.names]
  split
  · exact .none
  · exact .some ⟨h.levels, h.flags, rfl⟩

theorem closeGroup (h : Ahead x st st') :
    Option.Rel (InStep x) st.closeGroup st'.closeGroup := by
  unfold State.closeGroup
  obtain ⟨ho, ho'⟩ | ⟨hl, o, os, o', os', ho, ho', hbelow⟩ := h.levels.outer
  · rw [ho, ho']
    exact .none
  · rw [ho, ho', hl]
    have hback : Ahead x { st with outer := os, level := o, flags := st.level.flagsBefore }
        { st' with outer := os', level := o', flags := st.level.flagsBefore } :=
      ⟨hbelow, rfl, h.names⟩
    exact .some (hback.push _ _)

/-- When something was read before, the last item is the same. -/
theorem repeatLast (h : Ahead x st st') (hbegun : st.HasBegun) (min : Nat) (max : Option Nat) :
    Option.Rel (InStep x) (st.repeatLast min max) (st'.repeatLast min max) := by
  unfold State.repeatLast
  obtain ⟨hl, hl'⟩ | ⟨⟨e, height⟩, ys, ys', hl, hl', hbelow⟩ := h.levels.last hbegun
  · rw [hl, hl']
    exact .none
  · rw [hl, hl']
    cases e with
    | none => exact .none
    | some e =>
      have hback : Ahead x { st with level := { st.level with items := ys } }
          { st' with level := { st'.level with items := ys' } } := ⟨hbelow, h.flags, h.names⟩
      exact .some (hback.push _ _)

/-- A named group opens in both readers or in neither. -/
theorem openNamed (h : Ahead x st st') (cs : List Char) :
    Agree (InStep x)
      ((groupName cs).bind fun (name, rest) =>
        (st.addName name).bind fun st => some (st.openGroup true st.flags, rest))
      ((groupName cs).bind fun (name, rest) =>
        (st'.addName name).bind fun st => some (st.openGroup true st.flags, rest)) := by
  refine rel_bind_self _ fun (name, rest) => rel_bind (h.addName name) fun st st' h => ?_
  rw [h.flags]
  exact .some ⟨h.openGroup true st.flags, rfl⟩

theorem group (h : Ahead x st st') (cs : List Char) :
    Agree (InStep x) (st.group cs) (st'.group cs) := by
  unfold State.group
  rw [h.flags]
  split
  · exact .none
  · exact .none
  · exact .none
  · exact .none
  · split
    · exact h.openNamed _
    · exact h.openNamed _
    · refine rel_bind_self _ fun (flags, seen, rest) => ?_
      dsimp only
      split
      · split
        · exact .none
        · refine .some ⟨⟨⟨?_, rfl, h.names⟩, fun _ _ => List.cons_ne_nil _ _⟩, rfl⟩
          exact h.levels.add ⟨none, 0⟩
      · exact .some ⟨h.openGroup false flags, rfl⟩
    · exact .some ⟨h.openGroup true st.flags, rfl⟩

/-- The readers take the same next item, if it does not repeat what only one of them has read. -/
theorem next (h : Ahead x st st') {c : Char} (hbegun : isSign c = true → st.HasBegun)
    (cs : List Char) : Agree (InStep x) (st.next c cs) (st'.next c cs) := by
  unfold State.next
  rw [h.flags]
  by_cases hc : c = '('
  · rw [if_pos hc, if_pos hc]
    exact h.group cs
  rw [if_neg hc, if_neg hc]
  clear hc
  by_cases hc : c = ')'
  · rw [if_pos hc, if_pos hc]
    exact agree_map h.closeGroup cs
  rw [if_neg hc, if_neg hc]
  clear hc
  by_cases hc : c = '|'
  · rw [if_pos hc, if_pos hc]
    exact .some ⟨h.bar, rfl⟩
  rw [if_neg hc, if_neg hc]
  clear hc
  by_cases hc : c = '['
  · rw [if_pos hc, if_pos hc]
    refine rel_bind_self _ fun (l, rest) => rel_bind_self _ fun ((s, height), rest) => ?_
    dsimp only
    split
    · exact .none
    · exact .some ⟨h.push _ _, rfl⟩
  rw [if_neg hc, if_neg hc]
  clear hc
  by_cases hc : c = '?'
  · rw [if_pos hc, if_pos hc]
    exact agree_map (h.repeatLast (hbegun (hc ▸ rfl)) _ _) _
  rw [if_neg hc, if_neg hc]
  clear hc
  by_cases hc : c = '*'
  · rw [if_pos hc, if_pos hc]
    exact agree_map (h.repeatLast (hbegun (hc ▸ rfl)) _ _) _
  rw [if_neg hc, if_neg hc]
  clear hc
  by_cases hc : c = '+'
  · rw [if_pos hc, if_pos hc]
    exact agree_map (h.repeatLast (hbegun (hc ▸ rfl)) _ _) _
  rw [if_neg hc, if_neg hc]
  clear hc
  by_cases hc : c = '\x7b'
  · rw [if_pos hc, if_pos hc]
    refine rel_bind_self _ fun ((min, max), rest) => ?_
    exact rel_bind (h.repeatLast (hbegun (hc ▸ rfl)) _ _) fun st st' h => .some ⟨h, rfl⟩
  rw [if_neg hc, if_neg hc]
  clear hc
  by_cases hc : c = '\\'
  · rw [if_pos hc, if_pos hc]
    refine rel_bind_self _ fun (p, rest) => rel_bind_self _ fun e => ?_
    exact .some ⟨h.push _ _, rfl⟩
  rw [if_neg hc, if_neg hc]
  clear hc
  by_cases hc : c = '.'
  · rw [if_pos hc, if_pos hc]
    split
    · exact .some ⟨h.push _ _, rfl⟩
    · exact .none
  rw [if_neg hc, if_neg hc]
  clear hc
  by_cases hc : c = '^'
  · rw [if_pos hc, if_pos hc]
    exact .some ⟨h.push _ _, rfl⟩
  rw [if_neg hc, if_neg hc]
  clear hc
  by_cases hc : c = '$'
  · rw [if_pos hc, if_pos hc]
    exact .some ⟨h.push _ _, rfl⟩
  rw [if_neg hc, if_neg hc]
  clear hc
  exact .some ⟨h.push _ _, rfl⟩

end Ahead

/-! ## Whole texts -/

/-- At the end of the text both have one level left, or a group is still open in both. -/
theorem Ahead.finish (h : Ahead x st st') :
    Option.Rel (fun l l' => InFront x [l] [l']) (if st.outer.isEmpty then some st.level else none)
      (if st'.outer.isEmpty then some st'.level else none) := by
  have hlevels := h.levels
  obtain ⟨ho, ho'⟩ | ⟨-, o, os, o', os', ho, ho', -⟩ := hlevels.outer
  · rw [ho, ho'] at hlevels ⊢
    exact .some hlevels
  · rw [ho, ho']
    exact .none

/-- The readers agree to the end of the text, unless it begins with a sign that only the second one
has something for. -/
theorem Ahead.run (h : Ahead x st st') {steps : Nat} {cs : List Char}
    (hbegun : ∀ c rest, skip st.flags cs = c :: rest → isSign c = true → st.HasBegun) :
    Option.Rel (fun l l' => InFront x [l] [l']) (st.run steps cs) (st'.run steps cs) := by
  induction steps generalizing st st' cs with
  | zero =>
    unfold State.run
    rw [h.flags]
    split
    · exact h.finish
    · exact .none
  | succ steps ih =>
    unfold State.run
    rw [h.flags]
    split
    · exact h.finish
    · rename_i c rest hskip
      have hnext := h.next (hbegun c rest hskip) rest
      generalize st.next c rest = o, st'.next c rest = o' at hnext
      cases hnext with
      | none => exact .none
      | some hstep =>
        obtain ⟨hstep, hrest⟩ := hstep
        simp only [hrest]
        exact ih hstep.toAhead fun _ _ _ _ => hstep.begun

theorem ahead_start (e : Expr) : Ahead ⟨some e, 0⟩ State.start (State.start.push e 0) :=
  ⟨.opened false .start [], rfl, rfl⟩

/-- A sign at the beginning has nothing to repeat. -/
theorem next_start_of_sign {c : Char} (h : isSign c = true) (cs : List Char) :
    State.start.next c cs = none := by
  simp only [isSign, Bool.or_eq_true, decide_eq_true_eq] at h
  obtain ((rfl | rfl) | rfl) | rfl := h
  · rfl
  · rfl
  · rfl
  · show (bounds .start cs).bind _ = none
    cases bounds .start cs with
    | none => rfl
    | some r => rfl

end Regex
end RecordIntake
