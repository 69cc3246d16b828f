import RecordIntake.Regex.Category
import RecordIntake.Regex.CaseFold
import RecordIntake.Text.Blank

/-!
Sets of characters as expressions.  Only membership is ever asked, so a set stays the expression it
was written as and complements cost nothing.
-/
namespace RecordIntake.Regex

/-- Properties that have no short list of ranges. -/
inductive Property where
  | category (g : Category)
  | word
  | blank
  | assigned
  deriving DecidableEq, Repr

/-- Circled letters, which are alphabetic without being letters. -/
def isCircledLetter (n : Nat) : Bool :=
  (0x24B6 ≤ n && n ≤ 0x24E9) || (0x1F130 ≤ n && n ≤ 0x1F149) || (0x1F150 ≤ n && n ≤ 0x1F169) ||
  (0x1F170 ≤ n && n ≤ 0x1F189)

/-- Letters, marks, decimal digits, connecting punctuation and the two joiners. -/
def isWord (n : Nat) : Bool :=
  let g := categoryOf n
  g.isLetter || g.isMark || g == .letterNumber || g == .decimalNumber ||
  g == .connectorPunctuation || n == 0x200C || n == 0x200D || isCircledLetter n

def isAsciiWord (n : Nat) : Bool :=
  (48 ≤ n && n ≤ 57) || (65 ≤ n && n ≤ 90) || n == 95 || (97 ≤ n && n ≤ 122)

/-- Letters and numbers, as they may stand in the name of a group. -/
def isAlphabetic (n : Nat) : Bool :=
  let g := categoryOf n
  g.isLetter || g == .letterNumber || isCircledLetter n

def isNumeric (n : Nat) : Bool :=
  let g := categoryOf n
  g == .decimalNumber || g == .letterNumber || g == .otherNumber

def Property.holds : Property → Nat → Bool
  | .category g, n => categoryOf n == g
  | .word, n => isWord n
  | .blank, n => Text.isBlank (Char.ofNat n)
  | .assigned, n => categoryOf n != .unassigned

inductive CharSet where
  | none
  | range (least greatest : Nat)
  | property (p : Property)
  | union (a b : CharSet)
  | inter (a b : CharSet)
  | diff (a b : CharSet)
  | compl (a : CharSet)
  /-- The set with all letters that differ from its members only in case. -/
  | fold (a : CharSet)
  /-- The same for ASCII letters alone. -/
  | foldAscii (a : CharSet)
  deriving DecidableEq, Repr

namespace CharSet

def has : CharSet → Nat → Bool
  | .none, _ => false
  | .range lo hi, n => lo ≤ n && n ≤ hi
  | .property p, n => p.holds n
  | .union a b, n => a.has n || b.has n
  | .inter a b, n => a.has n && b.has n
  | .diff a b, n => a.has n && !b.has n
  | .compl a, n => !a.has n
  | .fold a, n => a.has n || (caseEquivalents n).any a.has
  | .foldAscii a, n => a.has n || (asciiCaseEquivalents n).any a.has

def contains (s : CharSet) (c : Char) : Bool := s.has c.toNat

def single (n : Nat) : CharSet := .range n n

def ofRanges : List (Nat × Nat) → CharSet
  | [] => .none
  | [(lo, hi)] => .range lo hi
  | (lo, hi) :: rest => .union (.range lo hi) (ofRanges rest)

def any : CharSet := .range 0 0x10FFFF

def asciiDigit : CharSet := .range 48 57

def asciiWord : CharSet := ofRanges [(48, 57), (65, 90), (95, 95), (97, 122)]

def asciiBlank : CharSet := ofRanges [(9, 13), (32, 32)]

/-- Members among the octets that are no ASCII characters. -/
def hasHighOctet (s : CharSet) : Bool := (List.range 128).any fun n => s.has (n + 128)

/-- Roughly, into how many ranges the set falls. -/
def rangeCount : CharSet → Nat
  | .none => 0
  | .range _ _ => 1
  | .property .word => 750
  | .property .blank => 10
  | .property .assigned => 700
  | .property (.category g) => categoryTable.foldl (fun n (_, h) => if h = g then n + 1 else n) 0
  | .union a b => a.rangeCount + b.rangeCount
  | .inter a b => a.rangeCount + b.rangeCount
  | .diff a b => a.rangeCount + b.rangeCount
  | .compl a => a.rangeCount + 1
  | .fold a => 3 * a.rangeCount
  | .foldAscii a => 2 * a.rangeCount

/-- Whether all members are ASCII characters, judged from the expression. -/
def isNarrow : CharSet → Bool
  | .none => true
  | .range _ hi => hi < 128
  | .property _ => false
  | .union a b => a.isNarrow && b.isNarrow
  | .inter a b => a.isNarrow || b.isNarrow
  | .diff a _ => a.isNarrow
  | .compl _ => false
  | .fold a => a.isNarrow
  | .foldAscii a => a.isNarrow

end CharSet
end RecordIntake.Regex
