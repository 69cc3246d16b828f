/-!
White space, trimming and cutting.  Every reader of configuration text in this library trims with
`trim` and cuts with `pieces` and `cutAt`, so what holds of these three holds of all of them.
-/
namespace RecordIntake.Text

/-- The characters with the Unicode property White_Space.  U+200B and U+FEFF are not among them. -/
def isBlank (c : Char) : Bool :=
  let n := c.toNat
  (9 ≤ n && n ≤ 13) || n == 0x20 || n == 0x85 || n == 0xA0 || n == 0x1680 ||
  (0x2000 ≤ n && n ≤ 0x200A) || n == 0x2028 || n == 0x2029 || n == 0x202F || n == 0x205F ||
  n == 0x3000

/-- Drops blanks from both ends. -/
def trim (cs : List Char) : List Char :=
  ((cs.dropWhile isBlank).reverse.dropWhile isBlank).reverse

/-- The parts between the separators; one part more than there are separators. -/
def pieces (sep : Char) : List Char → List (List Char)
  | [] => [[]]
  | c :: cs =>
    if c = sep then [] :: pieces sep cs
    else
      match pieces sep cs with
      | [] => [[c]]
      | p :: ps => (c :: p) :: ps

/-- What stands before and after the first separator. -/
def cutAt (sep : Char) : List Char → Option (List Char × List Char)
  | [] => none
  | c :: cs =>
    if c = sep then some ([], cs)
    else (cutAt sep cs).map fun (before, after) => (c :: before, after)

/-- The trimmed parts between the separators, blank ones left out. -/
def entries (sep : Char) (cs : List Char) : List (List Char) :=
  ((pieces sep cs).map trim).filter (! ·.isEmpty)

def lowerAscii (cs : List Char) : List Char := cs.map Char.toLower

def upperAscii (cs : List Char) : List Char := cs.map Char.toUpper

end RecordIntake.Text
