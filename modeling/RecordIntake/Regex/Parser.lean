import RecordIntake.Regex.Property
import RecordIntake.Regex.Syntax

/-!
Reading regular expressions.  The reader keeps a stack of open groups and takes one item at a time:
an opening or closing parenthesis, a bar, a repetition sign, a class or a single character.  So an
expression with a character in front is read as the expression is, with one more item at the bottom
of the stack.  Look-around, back-references and anything that could match half a character are
refused.
-/
namespace RecordIntake.Regex

structure Flags where
  caseless : Bool
  multiLine : Bool
  dotAll : Bool
  swapGreed : Bool
  unicode : Bool
  crlf : Bool
  verbose : Bool
  deriving DecidableEq, Repr

def Flags.start : Flags := ⟨false, false, false, false, true, false, false⟩

/-- An item of a sequence with the height of the tree it was written as; a change of flags is an
item without an expression. -/
structure Item where
  expr? : Option Expr
  height : Nat
  deriving DecidableEq, Repr

/-- An open group, or the whole expression: the finished alternatives and the items of the current
one, both last first. -/
structure Level where
  capturing : Bool
  flagsBefore : Flags
  branches : List Item
  items : List Item
  deriving DecidableEq, Repr

structure State where
  outer : List Level
  level : Level
  flags : Flags
  names : List (List Char)
  deriving DecidableEq, Repr

def State.start : State := ⟨[], ⟨false, .start, [], []⟩, .start, []⟩

def State.push (st : State) (e : Expr) (height : Nat) : State :=
  { st with level := { st.level with items := ⟨some e, height⟩ :: st.level.items } }

/-! ## Blanks and comments, which count for nothing in verbose expressions -/

def skipLine (cs : List Char) : List Char := (cs.dropWhile (· != '\n')).drop 1

theorem length_skipLine_le (cs : List Char) : (skipLine cs).length ≤ cs.length := by
  unfold skipLine
  have h := (List.dropWhile_sublist (l := cs) (· != '\n')).length_le
  simp only [List.length_drop]
  omega

def skipVerbose : List Char → List Char
  | [] => []
  | c :: cs =>
    if Text.isBlank c then skipVerbose cs
    else if c = '#' then skipVerbose (skipLine cs)
    else c :: cs
  termination_by cs => cs.length
  decreasing_by
    · simp
    · have := length_skipLine_le cs
      simp only [List.length_cons]
      omega

def skip (flags : Flags) (cs : List Char) : List Char :=
  if flags.verbose then skipVerbose cs else cs

/-! ## Escapes -/

/-- What a single character or an escape stands for. -/
inductive Primitive where
  /-- `octet` is set where the character was written as an octet in hexadecimal. -/
  | literal (n : Nat) (octet : Bool)
  | set (s : CharSet)
  | look (l : Look)
  deriving DecidableEq, Repr

def isMeta (c : Char) : Bool := "\\.+*?()|[]\x7b\x7d^$#&-~".toList.contains c

/-- Characters that may stand behind a backslash for themselves. -/
def isEscapable (c : Char) : Bool :=
  c.toNat < 128 && !(c.isAlphanum || c == '<' || c == '>')

def isScalar (n : Nat) : Bool := n < 0xD800 || (0xDFFF < n && n < 0x110000)

def hexDigit? (c : Char) : Option Nat :=
  let n := c.toNat
  if 48 ≤ n && n ≤ 57 then some (n - 48)
  else if 97 ≤ n && n ≤ 102 then some (n - 87)
  else if 65 ≤ n && n ≤ 70 then some (n - 55)
  else none

/-- Exactly `count` hexadecimal digits. -/
def fixedHex (flags : Flags) (value : Nat) : Nat → List Char → Option (Nat × List Char)
  | 0, cs => if isScalar value then some (value, cs) else none
  | count + 1, cs =>
    match cs with
    | [] => none
    | c :: cs => do
      let d ← hexDigit? c
      fixedHex flags (16 * value + d) count (skip flags cs)

/-- Hexadecimal digits up to a closing brace. -/
def bracedHex (flags : Flags) (digits value : Nat) : Nat → List Char → Option (Nat × List Char)
  | 0, _ => none
  | steps + 1, cs =>
    match cs with
    | [] => none
    | '\x7d' :: cs => if digits ≠ 0 && isScalar value then some (value, skip flags cs) else none
    | c :: cs => do
      let d ← hexDigit? c
      bracedHex flags (digits + 1) (16 * value + d) steps (skip flags cs)

def hexEscape (flags : Flags) (width : Nat) (cs : List Char) : Option (Primitive × List Char) :=
  match skip flags cs with
  | '\x7b' :: cs => do
    let (n, cs) ← bracedHex flags 0 0 (cs.length + 1) (skip flags cs)
    pure (.literal n false, cs)
  | cs => do
    let (n, cs) ← fixedHex flags 0 width cs
    pure (.literal n (width == 2), cs)

/-- Splits the text between the braces of a property at its relation sign. -/
def namedSet? (text : List Char) : Option (Bool × CharSet) :=
  let relation : Option (Bool × List Char × List Char) :=
    match Text.cutAt '!' text with
    | some (before, '=' :: after) => some (true, before, after)
    | _ =>
      match Text.cutAt ':' text with
      | some (before, after) => some (false, before, after)
      | none => (Text.cutAt '=' text).map fun (before, after) => (false, before, after)
  match relation with
  | some (negated, before, after) => (propertyValue? before after).map fun s => (negated, s)
  | none => (propertyNamed? text).map fun s => (false, s)

/-- A property class behind `\p` or `\P`. -/
def propertyEscape (flags : Flags) (negated : Bool) (cs : List Char) :
    Option (Primitive × List Char) :=
  if !flags.unicode then none
  else
    let found : Option ((Bool × CharSet) × List Char) :=
      match skip flags cs with
      | [] => none
      | '\x7b' :: cs => do
        let (text, rest) ← Text.cutAt '\x7d' cs
        let s ← namedSet? (if flags.verbose then text.filter (! Text.isBlank ·) else text)
        pure (s, rest)
      | '\\' :: _ => none
      | c :: cs => do
        let s ← propertyNamed? [c]
        pure ((false, s), cs)
    found.map fun ((inverted, s), rest) =>
      let s := if flags.caseless then .fold s else s
      (.set (if negated != inverted then .compl s else s), rest)

/-- The classes `\d`, `\s` and `\w`. -/
def letterClass (flags : Flags) (c : Char) : CharSet :=
  match c.toLower with
  | 'd' => if flags.unicode then .property (.category .decimalNumber) else .asciiDigit
  | 's' => if flags.unicode then .property .blank else .asciiBlank
  | _ => if flags.unicode then .property .word else .asciiWord

/-- The name in braces behind `\b`, if what stands there is one. -/
def boundaryName (flags : Flags) (cs : List Char) : Option (Option Look × List Char) :=
  match cs with
  | '\x7b' :: cs' =>
    match skip flags cs' with
    | [] => none
    | c :: _ =>
      let isNameChar (c : Char) : Bool := c.isAlpha || c == '-'
      if !isNameChar c then some (none, cs)
      else
        let cs' := if flags.verbose then cs'.filter (! Text.isBlank ·) else cs'
        let name := cs'.takeWhile isNameChar
        match cs'.dropWhile isNameChar with
        | '\x7d' :: rest =>
          match String.ofList name with
          | "start" => some (some (.wordStart (!flags.unicode)), rest)
          | "end" => some (some (.wordEnd (!flags.unicode)), rest)
          | "start-half" => some (some (.wordStartHalf (!flags.unicode)), rest)
          | "end-half" => some (some (.wordEndHalf (!flags.unicode)), rest)
          | _ => none
        | _ => none
  | _ => some (none, cs)

/-- An escape behind its backslash. -/
def escape (flags : Flags) : List Char → Option (Primitive × List Char)
  | [] => none
  | c :: cs =>
    if c = 'x' then hexEscape flags 2 cs
    else if c = 'u' then hexEscape flags 4 cs
    else if c = 'U' then hexEscape flags 8 cs
    else if c = 'p' then propertyEscape flags false cs
    else if c = 'P' then propertyEscape flags true cs
    else if c = 'd' || c = 's' || c = 'w' then some (.set (letterClass flags c), cs)
    else if c = 'D' || c = 'S' || c = 'W' then
      if flags.unicode then some (.set (.compl (letterClass flags c)), cs) else none
    else if isMeta c || isEscapable c then some (.literal c.toNat false, cs)
    else
      match c with
      | 'a' => some (.literal 7 false, cs)
      | 'f' => some (.literal 12 false, cs)
      | 't' => some (.literal 9 false, cs)
      | 'n' => some (.literal 10 false, cs)
      | 'r' => some (.literal 13 false, cs)
      | 'v' => some (.literal 11 false, cs)
      | 'A' => some (.look .textStart, cs)
      | 'z' => some (.look .textEnd, cs)
      | 'B' => some (.look (.notBoundary (!flags.unicode)), cs)
      | '<' => some (.look (.wordStart (!flags.unicode)), cs)
      | '>' => some (.look (.wordEnd (!flags.unicode)), cs)
      | 'b' => do
        let (special, rest) ← boundaryName flags cs
        pure (.look (special.getD (.boundary (!flags.unicode))), rest)
      | _ => none

/-- A set with the letters that differ only in case, where the flags ask for them. -/
def foldCase (flags : Flags) (s : CharSet) : CharSet :=
  if flags.caseless then (if flags.unicode then .fold s else .foldAscii s) else s

/-- The expression of a primitive.  Outside Unicode an octet above 127 is no character. -/
def primitiveExpr (flags : Flags) : Primitive → Option Expr
  | .literal n octet =>
    if !flags.unicode && octet && 127 < n then none
    else some (.set (foldCase flags (.single n)))
  | .set s => some (.set s)
  | .look l => some (.look l)

/-! ## Bracketed classes -/

inductive SetOperator where
  | inter
  | diff
  | symmetric
  deriving DecidableEq, Repr

/-- The class read so far: the left side of a pending operator, and the union behind it. -/
structure ClassLevel where
  negated : Bool
  pending : Option (SetOperator × CharSet)
  union : CharSet
  height : Nat
  deriving DecidableEq, Repr

def ClassLevel.add (l : ClassLevel) (s : CharSet) : ClassLevel :=
  { l with union := .union l.union s }

/-- The value of the pending operator and the union behind it. -/
def ClassLevel.combined (flags : Flags) (l : ClassLevel) : CharSet :=
  match l.pending with
  | none => l.union
  | some (op, left) =>
    let a := foldCase flags left
    let b := foldCase flags l.union
    match op with
    | .inter => .inter a b
    | .diff => .diff a b
    | .symmetric => .union (.diff a b) (.diff b a)

def ClassLevel.withOperator (flags : Flags) (l : ClassLevel) (op : SetOperator) : ClassLevel :=
  { l with pending := some (op, l.combined flags), union := .none, height := l.height + 1 }

/-- The class when its bracket closes.  Outside Unicode a complement is taken among octets. -/
def ClassLevel.closed (flags : Flags) (l : ClassLevel) : CharSet :=
  let s := foldCase flags (l.combined flags)
  if !l.negated then s
  else if flags.unicode then .compl s
  else .inter (.range 0 255) (.compl s)

/-- A class behind its bracket, with its complement sign, the hyphens and the closing bracket that
stand for themselves at its start. -/
def openClass (flags : Flags) (cs : List Char) : Option (ClassLevel × List Char) :=
  let cs := skip flags cs
  let (negated, cs) : Bool × List Char :=
    match cs with
    | '^' :: cs => (true, skip flags cs)
    | cs => (false, cs)
  let hyphens := cs.takeWhile (· == '-')
  let cs := skip flags (cs.dropWhile (· == '-'))
  let l : ClassLevel := ⟨negated, none, if hyphens.isEmpty then .none else .single 45, 1⟩
  match cs with
  | [] => none
  | ']' :: rest =>
    if hyphens.isEmpty then
      match skip flags rest with
      | [] => none
      | rest => some (l.add (.single 93), rest)
    else some (l, cs)
  | cs => some (l, cs)

/-- An ASCII class behind `[:`, if what stands there is one. -/
def bracketedName? (cs : List Char) : Option (CharSet × List Char) :=
  let (negated, cs) : Bool × List Char :=
    match cs with
    | '^' :: cs => (true, cs)
    | cs => (false, cs)
  match Text.cutAt ':' cs with
  | some (name, ']' :: rest) =>
    (asciiClass? (String.ofList name)).map fun s => (if negated then .compl s else s, rest)
  | _ => none

/-- One end of a range, or a single item of a class. -/
def classItem (flags : Flags) : List Char → Option (Primitive × List Char)
  | [] => none
  | '\\' :: cs => escape flags cs
  | c :: cs => some (.literal c.toNat false, cs)

/-- The number of a literal in a class.  Outside Unicode it has to be an octet. -/
def classLiteral? (flags : Flags) : Primitive → Option Nat
  | .literal n octet =>
    if flags.unicode || n < 128 || (octet && n < 256) then some n else none
  | _ => none

def classItemSet? (flags : Flags) : Primitive → Option CharSet
  | .set s => some s
  | p => (classLiteral? flags p).map .single

/-- A single item or a range. -/
def classRange (flags : Flags) (cs : List Char) : Option (CharSet × List Char) := do
  let (first, cs) ← classItem flags cs
  match skip flags cs with
  | [] => none
  | '-' :: rest =>
    match skip flags rest with
    | [] => none
    | ']' :: _ => pure (← classItemSet? flags first, '-' :: rest)
    | '-' :: _ => pure (← classItemSet? flags first, '-' :: rest)
    | rest => do
      let (last, rest) ← classItem flags rest
      let lo ← classLiteral? flags first
      let hi ← classLiteral? flags last
      if lo ≤ hi then pure (.range lo hi, rest) else none
  | cs => pure (← classItemSet? flags first, cs)

/-- A class from behind its opening bracket to behind its closing one, with its height. -/
def bracketedClass (flags : Flags) (outer : List ClassLevel) (l : ClassLevel) :
    Nat → List Char → Option ((CharSet × Nat) × List Char)
  | 0, _ => none
  | steps + 1, cs =>
    match skip flags cs with
    | [] => none
    | ']' :: cs =>
      match outer with
      | [] => some ((l.closed flags, l.height), cs)
      | o :: outer =>
        bracketedClass flags outer
          { o.add (l.closed flags) with height := max o.height (l.height + 1) } steps cs
    | '[' :: ':' :: cs =>
      match bracketedName? cs with
      | some (s, rest) => bracketedClass flags outer (l.add s) steps rest
      | none =>
        match openClass flags (':' :: cs) with
        | none => none
        | some (inner, rest) => bracketedClass flags (l :: outer) inner steps rest
    | '[' :: cs =>
      match openClass flags cs with
      | none => none
      | some (inner, rest) => bracketedClass flags (l :: outer) inner steps rest
    | '&' :: '&' :: cs => bracketedClass flags outer (l.withOperator flags .inter) steps cs
    | '-' :: '-' :: cs => bracketedClass flags outer (l.withOperator flags .diff) steps cs
    | '~' :: '~' :: cs => bracketedClass flags outer (l.withOperator flags .symmetric) steps cs
    | cs =>
      match classRange flags cs with
      | none => none
      | some (s, rest) => bracketedClass flags outer (l.add s) steps rest

/-! ## Groups, alternatives and repetitions -/

def heightLimit : Nat := 250

/-- Several expressions as one; none match nothing but the empty stretch. -/
def joined (f : Expr → Expr → Expr) : List Expr → Expr
  | [] => .empty
  | e :: es => es.foldl f e

/-- The expression of a sequence whose items are given last first.  A sequence of one item is no
node of its own. -/
def sequenceItem (items : List Item) : Item :=
  let h := items.foldl (fun n i => max n i.height) 0
  ⟨some (joined .cat (items.reverse.filterMap (·.expr?))), if 2 ≤ items.length then h + 1 else h⟩

def alternativesItem (branches : List Item) : Item :=
  let h := branches.foldl (fun n i => max n i.height) 0
  ⟨some (joined .alt (branches.reverse.filterMap (·.expr?))),
    if 2 ≤ branches.length then h + 1 else h⟩

def Level.item (l : Level) : Item := alternativesItem (sequenceItem l.items :: l.branches)

def State.bar (st : State) : State :=
  { st with level := { st.level with
      branches := sequenceItem st.level.items :: st.level.branches, items := [] } }

def State.openGroup (st : State) (capturing : Bool) (flags : Flags) : State :=
  { st with outer := st.level :: st.outer, level := ⟨capturing, st.flags, [], []⟩, flags := flags }

def State.closeGroup (st : State) : Option State :=
  match st.outer with
  | [] => none
  | o :: outer =>
    let inner := st.level.item
    let e := inner.expr?.getD .empty
    let e := if st.level.capturing then .capture e else e
    some ({ st with outer := outer, level := o, flags := st.level.flagsBefore }.push e
      (inner.height + 1))

/-- Repeats the last item of the sequence; there has to be one, and it must not be a change of
flags. -/
def State.repeatLast (st : State) (min : Nat) (max : Option Nat) : Option State :=
  match st.level.items with
  | ⟨some e, h⟩ :: items =>
    some ({ st with level := { st.level with items := items } }.push (.loop e min max) (h + 1))
  | _ => none

/-- A question mark behind a repetition only makes it lazy. -/
def dropLazy : List Char → List Char
  | '?' :: cs => cs
  | cs => cs

def isNameStart (c : Char) : Bool := c == '_' || isAlphabetic c.toNat

def isNameMore (c : Char) : Bool :=
  c == '_' || c == '.' || c == '[' || c == ']' || isAlphabetic c.toNat || isNumeric c.toNat

/-- The name of a group up to its closing angle. -/
def groupName (cs : List Char) : Option (List Char × List Char) := do
  let (name, rest) ← Text.cutAt '>' cs
  match name with
  | [] => none
  | c :: more => if isNameStart c && more.all isNameMore then pure (name, rest) else none

def setFlag (flags : Flags) (on : Bool) : Char → Option Flags
  | 'i' => some { flags with caseless := on }
  | 'm' => some { flags with multiLine := on }
  | 's' => some { flags with dotAll := on }
  | 'U' => some { flags with swapGreed := on }
  | 'u' => some { flags with unicode := on }
  | 'R' => some { flags with crlf := on }
  | 'x' => some { flags with verbose := on }
  | _ => none

/-- The flags up to a colon or a closing parenthesis, which is left; no flag may be named twice. -/
def readFlags (seen : List Char) (on : Bool) (flags : Flags) :
    List Char → Option (Flags × List Char × List Char)
  | [] => none
  | c :: cs =>
    if c = ':' || c = ')' then
      if seen.head? = some '-' then none else some (flags, seen, c :: cs)
    else if seen.contains c then none
    else if c = '-' then readFlags (c :: seen) false flags cs
    else
      match setFlag flags on c with
      | none => none
      | some flags => readFlags (c :: seen) on flags cs

def State.addName (st : State) (name : List Char) : Option State :=
  if st.names.contains name then none else some { st with names := name :: st.names }

/-- What stands behind an opening parenthesis. -/
def State.group (st : State) (cs : List Char) : Option (State × List Char) :=
  match cs with
  | '?' :: '=' :: _ => none
  | '?' :: '!' :: _ => none
  | '?' :: '<' :: '=' :: _ => none
  | '?' :: '<' :: '!' :: _ => none
  | cs =>
    match skip st.flags cs with
    | '?' :: 'P' :: '<' :: cs => do
      let (name, rest) ← groupName cs
      let st ← st.addName name
      pure (st.openGroup true st.flags, rest)
    | '?' :: '<' :: cs => do
      let (name, rest) ← groupName cs
      let st ← st.addName name
      pure (st.openGroup true st.flags, rest)
    | '?' :: cs => do
      let (flags, seen, rest) ← readFlags [] true st.flags cs
      match rest with
      | ')' :: rest =>
        if seen.isEmpty then none
        else
          pure ({ st with
            flags := flags, level := { st.level with items := ⟨none, 0⟩ :: st.level.items } }, rest)
      | rest => pure (st.openGroup false flags, rest.drop 1)
    | cs => some (st.openGroup true st.flags, cs)

/-- A decimal count with blanks around it. -/
def count (cs : List Char) : Option Nat × List Char :=
  let cs := cs.dropWhile Text.isBlank
  let digits := cs.takeWhile Char.isDigit
  let rest := (cs.dropWhile Char.isDigit).dropWhile Text.isBlank
  let value := digits.foldl (fun n c => 10 * n + (c.toNat - 48)) 0
  (if digits.isEmpty || Nat.pow 2 32 ≤ value then none else some value, rest)

/-- The bounds of a repetition behind its opening brace. -/
def bounds (flags : Flags) (cs : List Char) : Option ((Nat × Option Nat) × List Char) := do
  let (first, cs) := count (skip flags cs)
  let min ← first
  match skip flags cs with
  | '\x7d' :: rest => pure ((min, some min), rest)
  | ',' :: rest =>
    match skip flags rest with
    | '\x7d' :: rest => pure ((min, none), rest)
    | rest =>
      let (second, rest) := count rest
      let max ← second
      match skip flags rest with
      | '\x7d' :: rest => if min ≤ max then pure ((min, some max), rest) else none
      | _ => none
  | _ => none

/-- What a dot stands for. -/
def dotSet (flags : Flags) : CharSet :=
  if flags.dotAll then .any
  else if flags.crlf then .diff .any (.union (.single 10) (.single 13))
  else .diff .any (.single 10)

def lineStartLook (flags : Flags) : Look :=
  if !flags.multiLine then .textStart else if flags.crlf then .lineStartCrlf else .lineStart

def lineEndLook (flags : Flags) : Look :=
  if !flags.multiLine then .textEnd else if flags.crlf then .lineEndCrlf else .lineEnd

/-- Takes the next item, whose first character is `c`. -/
def State.next (st : State) (c : Char) (cs : List Char) : Option (State × List Char) :=
  if c = '(' then st.group cs
  else if c = ')' then st.closeGroup.map (·, cs)
  else if c = '|' then some (st.bar, cs)
  else if c = '[' then do
    let (l, rest) ← openClass st.flags cs
    let ((s, h), rest) ← bracketedClass st.flags [] l (cs.length + 1) rest
    if !st.flags.unicode && s.hasHighOctet then none else pure (st.push (.set s) h, rest)
  else if c = '?' then (st.repeatLast 0 (some 1)).map (·, dropLazy cs)
  else if c = '*' then (st.repeatLast 0 none).map (·, dropLazy cs)
  else if c = '+' then (st.repeatLast 1 none).map (·, dropLazy cs)
  else if c = '\x7b' then do
    let ((min, max), rest) ← bounds st.flags cs
    let st ← st.repeatLast min max
    pure (st, dropLazy rest)
  else if c = '\\' then do
    let (p, rest) ← escape st.flags cs
    let e ← primitiveExpr st.flags p
    pure (st.push e 0, rest)
  else if c = '.' then
    if st.flags.unicode then some (st.push (.set (dotSet st.flags)) 0, cs) else none
  else if c = '^' then some (st.push (.look (lineStartLook st.flags)) 0, cs)
  else if c = '$' then some (st.push (.look (lineEndLook st.flags)) 0, cs)
  else some (st.push (.set (foldCase st.flags (.single c.toNat))) 0, cs)

/-- Takes items to the end of the text, at which no group may be open.  Every item takes at least
one character, so as many steps as there are characters suffice. -/
def State.run (st : State) : Nat → List Char → Option Level
  | steps, cs =>
    match skip st.flags cs with
    | [] => if st.outer.isEmpty then some st.level else none
    | c :: cs =>
      match steps with
      | 0 => none
      | steps + 1 =>
        match st.next c cs with
        | none => none
        | some (st, rest) => st.run steps rest

/-- The expression that a text stands for. -/
def parse (cs : List Char) : Option Expr :=
  match State.start.run cs.length cs with
  | none => none
  | some level => if level.item.height ≤ heightLimit then level.item.expr? else none

end RecordIntake.Regex
