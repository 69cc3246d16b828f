import RecordIntake.Regex.CharSet

/-!
Regular expressions and what they match.  `Spans` says, for a text, which stretches an expression
matches; whether repetitions are greedy does not show in it, as only the existence of matches is
ever asked.
-/
namespace RecordIntake.Regex

/-- Conditions on a place between two characters. -/
inductive Look where
  | textStart
  | textEnd
  | lineStart
  | lineEnd
  | lineStartCrlf
  | lineEndCrlf
  | boundary (ascii : Bool)
  | notBoundary (ascii : Bool)
  | wordStart (ascii : Bool)
  | wordEnd (ascii : Bool)
  | wordStartHalf (ascii : Bool)
  | wordEndHalf (ascii : Bool)
  deriving DecidableEq, Repr

inductive Expr where
  | empty
  | set (s : CharSet)
  | look (l : Look)
  | cat (a b : Expr)
  | alt (a b : Expr)
  /-- At least `min` times, and at most `max` times if there is a bound. -/
  | loop (a : Expr) (min : Nat) (max : Option Nat)
  | capture (a : Expr)
  deriving DecidableEq, Repr

namespace Look

def wordAt (ascii : Bool) (c : Option Char) : Bool :=
  match c with
  | none => false
  | some c => if ascii then isAsciiWord c.toNat else isWord c.toNat

/-- Whether the condition holds between two neighbours; `none` is an end of the text. -/
def holdsBetween (l : Look) (before after : Option Char) : Bool :=
  match l with
  | .textStart => before.isNone
  | .textEnd => after.isNone
  | .lineStart => before.isNone || before == some '\n'
  | .lineEnd => after.isNone || after == some '\n'
  | .lineStartCrlf =>
    before.isNone || before == some '\n' || (before == some '\r' && after != some '\n')
  | .lineEndCrlf =>
    after.isNone || after == some '\r' || (after == some '\n' && before != some '\r')
  | .boundary a => wordAt a before != wordAt a after
  | .notBoundary a => wordAt a before == wordAt a after
  | .wordStart a => !wordAt a before && wordAt a after
  | .wordEnd a => wordAt a before && !wordAt a after
  | .wordStartHalf a => !wordAt a before
  | .wordEndHalf a => !wordAt a after

/-- Whether the condition holds before the character with index `i`. -/
def holds (l : Look) (text : Array Char) (i : Nat) : Bool :=
  l.holdsBetween (if i = 0 then none else text[i - 1]?) text[i]?

end Look

/-- `Spans text e i j`: the expression `e` matches the stretch of `text` from `i` to `j`. -/
inductive Spans (text : Array Char) : Expr → Nat → Nat → Prop where
  | empty (i : Nat) : i ≤ text.size → Spans text .empty i i
  | set {s : CharSet} {i : Nat} {c : Char} :
      text[i]? = some c → s.contains c = true → Spans text (.set s) i (i + 1)
  | look {l : Look} {i : Nat} :
      i ≤ text.size → l.holds text i = true → Spans text (.look l) i i
  | cat {a b : Expr} {i j k : Nat} :
      Spans text a i j → Spans text b j k → Spans text (.cat a b) i k
  | altLeft {a b : Expr} {i j : Nat} : Spans text a i j → Spans text (.alt a b) i j
  | altRight {a b : Expr} {i j : Nat} : Spans text b i j → Spans text (.alt a b) i j
  | loopDone {a : Expr} {max : Option Nat} {i : Nat} :
      i ≤ text.size → Spans text (.loop a 0 max) i i
  | loopMore {a : Expr} {min : Nat} {max : Option Nat} {i j k : Nat} :
      max ≠ some 0 → Spans text a i j → Spans text (.loop a (min - 1) (max.map (· - 1))) j k →
      Spans text (.loop a min max) i k
  | capture {a : Expr} {i j : Nat} : Spans text a i j → Spans text (.capture a) i j

end RecordIntake.Regex
