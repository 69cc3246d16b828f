/-!
Finite maps and sets as lists in strictly ascending order of their keys.  Two maps with the same
entries are the same list, so what a map holds never depends on the order of its insertions.
-/
namespace RecordIntake

/-- Entries in strictly ascending order of their keys. -/
abbrev SortedMap (κ α : Type) := List (κ × α)

namespace SortedMap

variable {κ α β : Type} [Ord κ]

def find? (k : κ) : SortedMap κ α → Option α
  | [] => none
  | (k', a) :: rest =>
    match compare k k' with
    | .eq => some a
    | .lt => none
    | .gt => find? k rest

def contains (k : κ) (m : SortedMap κ α) : Bool := (find? k m).isSome

def insert (k : κ) (a : α) : SortedMap κ α → SortedMap κ α
  | [] => [(k, a)]
  | (k', a') :: rest =>
    match compare k k' with
    | .lt => (k, a) :: (k', a') :: rest
    | .eq => (k, a) :: rest
    | .gt => (k', a') :: insert k a rest

def erase (k : κ) : SortedMap κ α → SortedMap κ α
  | [] => []
  | (k', a') :: rest =>
    match compare k k' with
    | .lt => (k', a') :: rest
    | .eq => rest
    | .gt => (k', a') :: erase k rest

/-- Replaces the value of a key by a function of the value it has, if it has one. -/
def upsert (k : κ) (f : Option α → α) (m : SortedMap κ α) : SortedMap κ α :=
  insert k (f (find? k m)) m

/-- All entries of both maps; those of the second one win. -/
def union (m n : SortedMap κ α) : SortedMap κ α := n.foldl (fun acc (k, a) => insert k a acc) m

def ofList (entries : List (κ × α)) : SortedMap κ α :=
  entries.foldl (fun acc (k, a) => insert k a acc) []

def keys (m : SortedMap κ α) : List κ := m.map (·.1)

def values (m : SortedMap κ α) : List α := m.map (·.2)

def mapValues (f : α → β) (m : SortedMap κ α) : SortedMap κ β := m.map fun (k, a) => (k, f a)

end SortedMap

/-- Members in strictly ascending order. -/
abbrev SortedSet (κ : Type) := List κ

namespace SortedSet

variable {κ : Type} [Ord κ]

def contains (k : κ) : SortedSet κ → Bool
  | [] => false
  | k' :: rest =>
    match compare k k' with
    | .eq => true
    | .lt => false
    | .gt => contains k rest

def insert (k : κ) : SortedSet κ → SortedSet κ
  | [] => [k]
  | k' :: rest =>
    match compare k k' with
    | .lt => k :: k' :: rest
    | .eq => k :: rest
    | .gt => k' :: insert k rest

def ofList (ks : List κ) : SortedSet κ := ks.foldl (fun acc k => insert k acc) []

end SortedSet
end RecordIntake
