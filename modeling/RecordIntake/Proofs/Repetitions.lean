import RecordIntake.Proofs.Matching
import RecordIntake.Regex.Parser

/-!
The bounds of the repetitions in an expression that was read from a text are in order.  The reader
refuses bounds in braces that are not, and those of the signs are as they should be; so whatever
item it takes, all that stands on its stack has its bounds in order.
-/
namespace RecordIntake
namespace Regex

variable {e : Expr}

def Item.IsBounded (y : Item) : Prop := ∀ e, y.expr? = some e → e.IsBounded

structure Level.IsBounded (l : Level) : Prop where
  branches : ∀ y ∈ l.branches, y.IsBounded
  items : ∀ y ∈ l.items, y.IsBounded

structure State.IsBounded (st : State) : Prop where
  level : st.level.IsBounded
  outer : ∀ l ∈ st.outer, l.IsBounded

theorem isBounded_exprs {ys : List Item} (hys : ∀ y ∈ ys, y.IsBounded) :
    ∀ e ∈ ys.reverse.filterMap (·.expr?), e.IsBounded := by
  intro e he
  obtain ⟨y, hy, hye⟩ := List.mem_filterMap.mp he
  exact hys y (List.mem_reverse.mp hy) e hye

/-- What keeps its parts bounded keeps many parts bounded. -/
theorem isBounded_joined {f : Expr → Expr → Expr}
    (hf : ∀ a b : Expr, a.IsBounded → b.IsBounded → (f a b).IsBounded) {es : List Expr}
    (hes : ∀ e ∈ es, e.IsBounded) : (joined f es).IsBounded := by
  cases es with
  | nil => trivial
  | cons e es =>
    obtain ⟨he, hes⟩ := List.forall_mem_cons.mp hes
    show (es.foldl f e).IsBounded
    induction es generalizing e with
    | nil => exact he
    | cons e' es ih =>
      obtain ⟨he', hes⟩ := List.forall_mem_cons.mp hes
      exact ih (f e e') (List.forall_mem_cons.mpr ⟨hf e e' he he', hes⟩) (hf e e' he he') hes

theorem sequenceItem_isBounded {ys : List Item} (hys : ∀ y ∈ ys, y.IsBounded) :
    (sequenceItem ys).IsBounded := by
  intro e he
  obtain rfl := Option.some.inj he
  exact isBounded_joined (f := Expr.cat) (fun _ _ ha hb => ⟨ha, hb⟩) (isBounded_exprs hys)

theorem alternativesItem_isBounded {ys : List Item} (hys : ∀ y ∈ ys, y.IsBounded) :
    (alternativesItem ys).IsBounded := by
  intro e he
  obtain rfl := Option.some.inj he
  exact isBounded_joined (f := Expr.alt) (fun _ _ ha hb => ⟨ha, hb⟩) (isBounded_exprs hys)

theorem Level.IsBounded.item {l : Level} (h : l.IsBounded) : l.item.IsBounded :=
  alternativesItem_isBounded (List.forall_mem_cons.mpr ⟨sequenceItem_isBounded h.items, h.branches⟩)

theorem primitiveExpr_isBounded {flags : Flags} {p : Primitive}
    (h : primitiveExpr flags p = some e) : e.IsBounded := by
  cases p with
  | literal n octet =>
    simp only [primitiveExpr] at h
    split at h
    · cases h
    · obtain rfl := Option.some.inj h
      trivial
  | set s =>
    obtain rfl := Option.some.inj h
    trivial
  | look l =>
    obtain rfl := Option.some.inj h
    trivial

/-- The bounds that are written behind an expression are in order. -/
theorem le_of_bounds {flags : Flags} {cs rest : List Char} {min : Nat} {max : Option Nat}
    (h : bounds flags cs = some ((min, max), rest)) : ∀ m, max = some m → min ≤ m := by
  unfold bounds at h
  generalize count (skip flags cs) = first at h
  obtain ⟨n, -, h⟩ := Option.bind_eq_some_iff.mp h
  split at h
  · obtain ⟨rfl, rfl⟩ := Prod.mk.inj (Prod.mk.inj (Option.some.inj h)).1
    intro m hm
    exact Nat.le_of_eq (Option.some.inj hm)
  · split at h
    · obtain ⟨rfl, rfl⟩ := Prod.mk.inj (Prod.mk.inj (Option.some.inj h)).1
      intro m hm
      cases hm
    · obtain ⟨k, -, h⟩ := Option.bind_eq_some_iff.mp h
      split at h
      · split at h
        · rename_i hle
          obtain ⟨rfl, rfl⟩ := Prod.mk.inj (Prod.mk.inj (Option.some.inj h)).1
          intro m hm
          exact Option.some.inj hm ▸ hle
        · cases h
      · cases h
  · cases h

namespace State.IsBounded

variable {st st' : State} {rest cs : List Char}

theorem push (h : st.IsBounded) (he : e.IsBounded) (height : Nat) :
    (st.push e height).IsBounded where
  level := {
    branches := h.level.branches
    items := List.forall_mem_cons.mpr ⟨fun _ he' => Option.some.inj he' ▸ he, h.level.items⟩ }
  outer := h.outer

theorem pushSet (h : st.IsBounded) (s : CharSet) (height : Nat) :
    (st.push (.set s) height).IsBounded := h.push (e := .set s) trivial height

theorem pushLook (h : st.IsBounded) (l : Look) (height : Nat) :
    (st.push (.look l) height).IsBounded := h.push (e := .look l) trivial height

theorem bar (h : st.IsBounded) : st.bar.IsBounded where
  level := {
    branches := List.forall_mem_cons.mpr ⟨sequenceItem_isBounded h.level.items, h.level.branches⟩
    items := List.forall_mem_nil _ }
  outer := h.outer

theorem openGroup (h : st.IsBounded) (capturing : Bool) (flags : Flags) :
    (st.openGroup capturing flags).IsBounded where
  level := ⟨List.forall_mem_nil _, List.forall_mem_nil _⟩
  outer := List.forall_mem_cons.mpr ⟨h.level, h.outer⟩

theorem closeGroup (h : st.IsBounded) (hst : st.closeGroup = some st') : st'.IsBounded := by
  unfold State.closeGroup at hst
  have houter := h.outer
  cases ho : st.outer with
  | nil =>
    rw [ho] at hst
    cases hst
  | cons o os =>
    rw [ho] at hst houter
    obtain rfl := Option.some.inj hst
    obtain ⟨hlevel, houter⟩ := List.forall_mem_cons.mp houter
    have hback : IsBounded { st with outer := os, level := o, flags := st.level.flagsBefore } :=
      ⟨hlevel, houter⟩
    have hinner : (st.level.item.expr?.getD .empty).IsBounded := by
      cases he : st.level.item.expr? with
      | none => trivial
      | some e => exact h.level.item e he
    refine hback.push ?_ _
    split
    · exact hinner
    · exact hinner

theorem repeatLast (h : st.IsBounded) {min : Nat} {max : Option Nat}
    (hmax : ∀ m, max = some m → min ≤ m) (hst : st.repeatLast min max = some st') :
    st'.IsBounded := by
  unfold State.repeatLast at hst
  have hitems := h.level.items
  split at hst
  · rename_i e height items heq
    obtain rfl := Option.some.inj hst
    rw [heq] at hitems
    obtain ⟨he, hitems⟩ := List.forall_mem_cons.mp hitems
    have hback : IsBounded { st with level := { st.level with items := items } } :=
      ⟨⟨h.level.branches, hitems⟩, h.outer⟩
    exact hback.push (e := .loop e min max) ⟨he e rfl, hmax⟩ _
  · cases hst

theorem repeatOpen (h : st.IsBounded) {min : Nat} (hst : st.repeatLast min none = some st') :
    st'.IsBounded := by
  refine h.repeatLast ?_ hst
  intro m hm
  cases hm

theorem addName (h : st.IsBounded) {name : List Char} (hst : st.addName name = some st') :
    st'.IsBounded := by
  unfold State.addName at hst
  split at hst
  · cases hst
  · obtain rfl := Option.some.inj hst
    exact ⟨h.level, h.outer⟩

theorem openNamed (h : st.IsBounded)
    (hst : ((groupName cs).bind fun (name, rest) =>
      (st.addName name).bind fun st => some (st.openGroup true st.flags, rest)) = some (st', rest)) :
    st'.IsBounded := by
  obtain ⟨⟨name, rest'⟩, -, hst⟩ := Option.bind_eq_some_iff.mp hst
  obtain ⟨st₁, hname, hst⟩ := Option.bind_eq_some_iff.mp hst
  obtain ⟨rfl, rfl⟩ := Prod.mk.inj (Option.some.inj hst)
  exact (h.addName hname).openGroup true st₁.flags

theorem group (h : st.IsBounded) (hst : st.group cs = some (st', rest)) : st'.IsBounded := by
  unfold State.group at hst
  split at hst
  · cases hst
  · cases hst
  · cases hst
  · cases hst
  · split at hst
    · exact h.openNamed hst
    · exact h.openNamed hst
    · obtain ⟨⟨flags, seen, rest'⟩, -, hst⟩ := Option.bind_eq_some_iff.mp hst
      dsimp only at hst
      split at hst
      · split at hst
        · cases hst
        · obtain ⟨rfl, rfl⟩ := Prod.mk.inj (Option.some.inj hst)
          have hflags : Item.IsBounded ⟨none, 0⟩ := fun _ he => nomatch he
          exact ⟨⟨h.level.branches, List.forall_mem_cons.mpr ⟨hflags, h.level.items⟩⟩, h.outer⟩
      · obtain ⟨rfl, rfl⟩ := Prod.mk.inj (Option.some.inj hst)
        exact h.openGroup false flags
    · obtain ⟨rfl, rfl⟩ := Prod.mk.inj (Option.some.inj hst)
      exact h.openGroup true st.flags

theorem next {c : Char} (h : st.IsBounded) (hst : st.next c cs = some (st', rest)) :
    st'.IsBounded := by
  unfold State.next at hst
  by_cases hc : c = '('
  · rw [if_pos hc] at hst
    exact h.group hst
  rw [if_neg hc] at hst
  clear hc
  by_cases hc : c = ')'
  · rw [if_pos hc] at hst
    obtain ⟨st₁, hclose, heq⟩ := Option.map_eq_some_iff.mp hst
    obtain ⟨rfl, -⟩ := Prod.mk.inj heq
    exact h.closeGroup hclose
  rw [if_neg hc] at hst
  clear hc
  by_cases hc : c = '|'
  · rw [if_pos hc] at hst
    obtain ⟨rfl, -⟩ := Prod.mk.inj (Option.some.inj hst)
    exact h.bar
  rw [if_neg hc] at hst
  clear hc
  by_cases hc : c = '['
  · rw [if_pos hc] at hst
    obtain ⟨⟨l, rest₁⟩, -, hst⟩ := Option.bind_eq_some_iff.mp hst
    obtain ⟨⟨⟨s, height⟩, rest₂⟩, -, hst⟩ := Option.bind_eq_some_iff.mp hst
    dsimp only at hst
    split at hst
    · cases hst
    · obtain ⟨rfl, -⟩ := Prod.mk.inj (Option.some.inj hst)
      exact h.pushSet s height
  rw [if_neg hc] at hst
  clear hc
  by_cases hc : c = '?'
  · rw [if_pos hc] at hst
    obtain ⟨st₁, hrepeat, heq⟩ := Option.map_eq_some_iff.mp hst
    obtain ⟨rfl, -⟩ := Prod.mk.inj heq
    exact h.repeatLast (fun m _ => Nat.zero_le m) hrepeat
  rw [if_neg hc] at hst
  clear hc
  by_cases hc : c = '*'
  · rw [if_pos hc] at hst
    obtain ⟨st₁, hrepeat, heq⟩ := Option.map_eq_some_iff.mp hst
    obtain ⟨rfl, -⟩ := Prod.mk.inj heq
    exact h.repeatOpen hrepeat
  rw [if_neg hc] at hst
  clear hc
  by_cases hc : c = '+'
  · rw [if_pos hc] at hst
    obtain ⟨st₁, hrepeat, heq⟩ := Option.map_eq_some_iff.mp hst
    obtain ⟨rfl, -⟩ := Prod.mk.inj heq
    exact h.repeatOpen hrepeat
  rw [if_neg hc] at hst
  clear hc
  by_cases hc : c = '\x7b'
  · rw [if_pos hc] at hst
    obtain ⟨⟨⟨min, max⟩, rest₁⟩, hbounds, hst⟩ := Option.bind_eq_some_iff.mp hst
    obtain ⟨st₁, hrepeat, hst⟩ := Option.bind_eq_some_iff.mp hst
    obtain ⟨rfl, -⟩ := Prod.mk.inj (Option.some.inj hst)
    exact h.repeatLast (le_of_bounds hbounds) hrepeat
  rw [if_neg hc] at hst
  clear hc
  by_cases hc : c = '\\'
  · rw [if_pos hc] at hst
    obtain ⟨⟨p, rest₁⟩, -, hst⟩ := Option.bind_eq_some_iff.mp hst
    obtain ⟨e, he, hst⟩ := Option.bind_eq_some_iff.mp hst
    obtain ⟨rfl, -⟩ := Prod.mk.inj (Option.some.inj hst)
    exact h.push (primitiveExpr_isBounded he) 0
  rw [if_neg hc] at hst
  clear hc
  by_cases hc : c = '.'
  · rw [if_pos hc] at hst
    split at hst
    · obtain ⟨rfl, -⟩ := Prod.mk.inj (Option.some.inj hst)
      exact h.pushSet _ 0
    · cases hst
  rw [if_neg hc] at hst
  clear hc
  by_cases hc : c = '^'
  · rw [if_pos hc] at hst
    obtain ⟨rfl, -⟩ := Prod.mk.inj (Option.some.inj hst)
    exact h.pushLook _ 0
  rw [if_neg hc] at hst
  clear hc
  by_cases hc : c = '$'
  · rw [if_pos hc] at hst
    obtain ⟨rfl, -⟩ := Prod.mk.inj (Option.some.inj hst)
    exact h.pushLook _ 0
  rw [if_neg hc] at hst
  clear hc
  obtain ⟨rfl, -⟩ := Prod.mk.inj (Option.some.inj hst)
  exact h.pushSet _ 0

theorem run {steps : Nat} {level : Level} (h : st.IsBounded)
    (hrun : st.run steps cs = some level) : level.IsBounded := by
  induction steps generalizing st cs with
  | zero =>
    unfold State.run at hrun
    split at hrun
    · split at hrun
      · exact Option.some.inj hrun ▸ h.level
      · cases hrun
    · cases hrun
  | succ steps ih =>
    unfold State.run at hrun
    split at hrun
    · split at hrun
      · exact Option.some.inj hrun ▸ h.level
      · cases hrun
    · rename_i c rest hskip
      cases hnext : st.next c rest with
      | none =>
        simp only [hnext] at hrun
        cases hrun
      | some r =>
        simp only [hnext] at hrun
        exact ih (h.next hnext) hrun

end State.IsBounded

theorem isBounded_of_parse {cs : List Char} (h : parse cs = some e) : e.IsBounded := by
  have hstart : State.start.IsBounded :=
    ⟨⟨List.forall_mem_nil _, List.forall_mem_nil _⟩, List.forall_mem_nil _⟩
  unfold parse at h
  split at h
  · cases h
  · rename_i level hrun
    split at h
    · exact (hstart.run hrun).item e h
    · cases h

end Regex

end RecordIntake
