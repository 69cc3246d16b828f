import RecordIntake.Regex.Syntax

/-!
A bound on the size of expressions.  Repetition counts multiply sizes, so a short text can ask for
an automaton that fills the memory; such expressions are refused.  Sizes are estimates, in octets of
an automaton with one state per character of the expression, so near the bound another engine may
decide otherwise.
-/
namespace RecordIntake.Regex

def sizeLimit : Nat := 10 * .pow 2 20

def stateSize : Nat := 32

def edgeSize : Nat := 8

def CharSet.automatonSize (s : CharSet) : Nat :=
  if s.isNarrow then stateSize + (if s.rangeCount ≤ 1 then 0 else edgeSize * s.rangeCount)
  else stateSize + 2 * stateSize * s.rangeCount

def Expr.automatonSize : Expr → Nat
  | .empty => stateSize
  | .set s => s.automatonSize
  | .look _ => stateSize
  | .cat a b => a.automatonSize + b.automatonSize
  | .alt a b => a.automatonSize + b.automatonSize + 2 * stateSize + edgeSize
  | .loop a min none => (min + 1) * a.automatonSize + 2 * stateSize + edgeSize
  | .loop a min (some max) =>
    min * a.automatonSize + (max - min) * (a.automatonSize + stateSize + edgeSize) + stateSize
  | .capture a => a.automatonSize + 2 * stateSize

end RecordIntake.Regex
