/-!
Patterns over names of topics and headers.  Making a pattern of a text and finding its matches is
the business of a library of regular expressions, which everything here takes as it is given.
-/
namespace RecordIntake

structure Pattern where
  /-- What the pattern was made of. -/
  text : String
  /-- The number of characters before the leftmost match in a name, if there is a match. -/
  find? : String → Option Nat

instance : Repr Pattern where
  reprPrec p := reprPrec p.text

namespace Pattern

/-- A library that makes patterns of texts, or explains what is wrong with them. -/
abbrev Compiler := String → Except String Pattern

/-- Whether the pattern matches anywhere in the name. -/
def isMatch (p : Pattern) (name : String) : Bool := (p.find? name).isSome

/-- Whether the leftmost match in the name is at its start. -/
def matchesStart (p : Pattern) (name : String) : Bool := p.find? name == some 0

/-- The text of a pattern that the cluster takes for an expression, which has to start with `^`. -/
def anchored (text : List Char) : List Char :=
  match text with
  | '^' :: _ => text
  | _ => '^' :: text

end Pattern
end RecordIntake
