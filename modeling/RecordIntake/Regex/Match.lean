import RecordIntake.Regex.Syntax

/-!
Matching by sets of places.  From every place an expression leads to a finite set of places, kept
in ascending order without repeats, so matching takes time polynomial in expression and text.
-/
namespace RecordIntake.Regex

def insertPlace (n : Nat) : List Nat → List Nat
  | [] => [n]
  | m :: ms =>
    if n < m then n :: m :: ms
    else if n = m then m :: ms
    else m :: insertPlace n ms

def joinPlaces (a b : List Nat) : List Nat := b.foldl (fun acc n => insertPlace n acc) a

/-- Where `step` leads from some of the places. -/
def stepAll (step : Nat → List Nat) (places : List Nat) : List Nat :=
  places.foldl (fun acc n => joinPlaces acc (step n)) []

/-- `n` steps from some of the places. -/
def stepTimes (step : Nat → List Nat) : Nat → List Nat → List Nat
  | 0, places => places
  | n + 1, places =>
    match places with
    | [] => []
    | places => stepTimes step n (stepAll step places)

/-- At most `n` steps. -/
def stepUpTo (step : Nat → List Nat) : Nat → List Nat → List Nat
  | 0, places => places
  | n + 1, places =>
    let next := joinPlaces places (stepAll step places)
    if next = places then places else stepUpTo step n next

/-- The places to which an expression leads from one.  Repetitions beyond the least number are
followed until they add no place, for which as many steps as the text has places suffice. -/
def places (text : Array Char) : Expr → Nat → List Nat
  | .empty, i => [i]
  | .set s, i =>
    match text[i]? with
    | some c => if s.contains c then [i + 1] else []
    | none => []
  | .look l, i => if l.holds text i then [i] else []
  | .cat a b, i => stepAll (places text b) (places text a i)
  | .alt a b, i => joinPlaces (places text a i) (places text b i)
  | .loop a min max, i =>
    let more :=
      match max with
      | none => text.size + 1
      | some m => Nat.min (m - min) (text.size + 1)
    stepUpTo (places text a) more (stepTimes (places text a) min [i])
  | .capture a, i => places text a i

def Expr.matchesFrom (e : Expr) (text : Array Char) (i : Nat) : Bool := !(places text e i).isEmpty

/-- The leftmost place from which there is a match. -/
def Expr.find? (e : Expr) (text : Array Char) : Option Nat :=
  (List.range (text.size + 1)).find? (e.matchesFrom text)

end RecordIntake.Regex
