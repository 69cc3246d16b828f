import RecordIntake.Regex.CharSet

/-!
The names under which an expression may ask for a property.  Case, blanks, hyphens, underscores and
a leading `is` do not matter in a name.  All general categories are known, but of the scripts and
the binary properties only a few, and an expression that asks for another one is not read.
-/
namespace RecordIntake.Regex

/-- The form in which names are compared. -/
def looseName (cs : List Char) : List Char :=
  let kept := (cs.filter fun c => !(c == ' ' || c == '_' || c == '-')).map Char.toLower
  match kept with
  | 'i' :: 's' :: rest => if rest = ['c'] then kept else rest
  | _ => kept

def categoriesNamed (name : String) : List Category :=
  match name with
  | "lu" | "uppercaseletter" => [.upperLetter]
  | "ll" | "lowercaseletter" => [.lowerLetter]
  | "lt" | "titlecaseletter" => [.titleLetter]
  | "lc" | "casedletter" => [.upperLetter, .lowerLetter, .titleLetter]
  | "lm" | "modifierletter" => [.modifierLetter]
  | "lo" | "otherletter" => [.otherLetter]
  | "l" | "letter" => [.upperLetter, .lowerLetter, .titleLetter, .modifierLetter, .otherLetter]
  | "mn" | "nonspacingmark" => [.nonspacingMark]
  | "mc" | "spacingmark" => [.spacingMark]
  | "me" | "enclosingmark" => [.enclosingMark]
  | "m" | "mark" | "combiningmark" => [.nonspacingMark, .spacingMark, .enclosingMark]
  | "nd" | "decimalnumber" | "digit" => [.decimalNumber]
  | "nl" | "letternumber" => [.letterNumber]
  | "no" | "othernumber" => [.otherNumber]
  | "n" | "number" => [.decimalNumber, .letterNumber, .otherNumber]
  | "pc" | "connectorpunctuation" => [.connectorPunctuation]
  | "pd" | "dashpunctuation" => [.dashPunctuation]
  | "ps" | "openpunctuation" => [.openPunctuation]
  | "pe" | "closepunctuation" => [.closePunctuation]
  | "pi" | "initialpunctuation" => [.initialPunctuation]
  | "pf" | "finalpunctuation" => [.finalPunctuation]
  | "po" | "otherpunctuation" => [.otherPunctuation]
  | "p" | "punctuation" | "punct" =>
    [.connectorPunctuation, .dashPunctuation, .openPunctuation, .closePunctuation,
      .initialPunctuation, .finalPunctuation, .otherPunctuation]
  | "sm" | "mathsymbol" => [.mathSymbol]
  | "sc" | "currencysymbol" => [.currencySymbol]
  | "sk" | "modifiersymbol" => [.modifierSymbol]
  | "so" | "othersymbol" => [.otherSymbol]
  | "s" | "symbol" => [.mathSymbol, .currencySymbol, .modifierSymbol, .otherSymbol]
  | "zs" | "spaceseparator" => [.spaceSeparator]
  | "zl" | "lineseparator" => [.lineSeparator]
  | "zp" | "paragraphseparator" => [.paragraphSeparator]
  | "z" | "separator" => [.spaceSeparator, .lineSeparator, .paragraphSeparator]
  | "cc" | "control" | "cntrl" => [.control]
  | "cf" | "format" => [.format]
  | "cs" | "surrogate" => [.surrogate]
  | "co" | "privateuse" => [.privateUse]
  | "cn" | "unassigned" => [.unassigned]
  | "c" | "other" => [.control, .format, .surrogate, .privateUse, .unassigned]
  | _ => []

def ofCategories : List Category → CharSet
  | [] => .none
  | [g] => .property (.category g)
  | g :: gs => .union (.property (.category g)) (ofCategories gs)

def generalCategory? (name : String) : Option CharSet :=
  match name with
  | "any" => some .any
  | "ascii" => some (.range 0 127)
  | "assigned" => some (.property .assigned)
  | _ =>
    match categoriesNamed name with
    | [] => none
    | gs => some (ofCategories gs)

def script? (name : String) : Option CharSet :=
  match name with
  | "greek" | "grek" =>
    some (.ofRanges [(0x370, 0x373), (0x375, 0x377), (0x37A, 0x37D), (0x37F, 0x37F), (0x384, 0x384),
      (0x386, 0x386), (0x388, 0x38A), (0x38C, 0x38C), (0x38E, 0x3A1), (0x3A3, 0x3E1),
      (0x3F0, 0x3FF), (0x1D26, 0x1D2A), (0x1D5D, 0x1D61), (0x1D66, 0x1D6A), (0x1DBF, 0x1DBF),
      (0x1F00, 0x1FFE), (0x2126, 0x2126), (0xAB65, 0xAB65), (0x10140, 0x1018E),
      (0x101A0, 0x101A0), (0x1D200, 0x1D245)])
  | "cyrillic" | "cyrl" =>
    some (.ofRanges [(0x400, 0x484), (0x487, 0x52F), (0x1C80, 0x1C88), (0x1D2B, 0x1D2B),
      (0x1D78, 0x1D78), (0x2DE0, 0x2DFF), (0xA640, 0xA69F), (0xFE2E, 0xFE2F)])
  | "latin" | "latn" =>
    some (.ofRanges [(0x41, 0x5A), (0x61, 0x7A), (0xAA, 0xAA), (0xBA, 0xBA), (0xC0, 0xD6),
      (0xD8, 0xF6), (0xF8, 0x2B8), (0x2E0, 0x2E4), (0x1D00, 0x1D25), (0x1D2C, 0x1D5C),
      (0x1D62, 0x1D65), (0x1D6B, 0x1D77), (0x1D79, 0x1DBE), (0x1E00, 0x1EFF), (0x2071, 0x2071),
      (0x207F, 0x207F), (0x2090, 0x209C), (0x212A, 0x212B), (0x2132, 0x2132), (0x214E, 0x214E),
      (0x2160, 0x2188), (0x2C60, 0x2C7F), (0xA722, 0xA787), (0xA78B, 0xA7CA), (0xA7F2, 0xA7FF),
      (0xAB30, 0xAB5A), (0xAB5C, 0xAB64), (0xAB66, 0xAB69), (0xFB00, 0xFB06), (0xFF21, 0xFF3A),
      (0xFF41, 0xFF5A)])
  | "han" | "hani" =>
    some (.ofRanges [(0x2E80, 0x2E99), (0x2E9B, 0x2EF3), (0x2F00, 0x2FD5), (0x3005, 0x3005),
      (0x3007, 0x3007), (0x3021, 0x3029), (0x3038, 0x303B), (0x3400, 0x4DBF), (0x4E00, 0x9FFF),
      (0xF900, 0xFA6D), (0xFA70, 0xFAD9), (0x20000, 0x2A6DF), (0x2A700, 0x2EBE0),
      (0x2F800, 0x2FA1D), (0x30000, 0x323AF)])
  | _ => none

def binaryProperty? (name : String) : Option CharSet :=
  match name with
  | "whitespace" | "wspace" | "space" => some (.property .blank)
  | "alphabetic" | "alpha" =>
    some (.diff (.property .word)
      (ofCategories [.nonspacingMark, .spacingMark, .enclosingMark, .decimalNumber,
        .connectorPunctuation, .format]))
  | "uppercase" | "upper" => some (.property (.category .upperLetter))
  | "lowercase" | "lower" => some (.property (.category .lowerLetter))
  | _ => none

/-- The set asked for by one name. -/
def propertyNamed? (name : List Char) : Option CharSet :=
  let n := String.ofList (looseName name)
  match generalCategory? n with
  | some s => some s
  | none =>
    match script? n with
    | some s => some s
    | none => binaryProperty? n

/-- The set asked for by a property and a value. -/
def propertyValue? (property value : List Char) : Option CharSet :=
  let v := String.ofList (looseName value)
  match String.ofList (looseName property) with
  | "generalcategory" | "gc" => generalCategory? v
  | "script" | "sc" | "scriptextensions" | "scx" => script? v
  | _ => none

/-- The names of the bracketed ASCII classes. -/
def asciiClass? (name : String) : Option CharSet :=
  match name with
  | "alnum" => some (.ofRanges [(48, 57), (65, 90), (97, 122)])
  | "alpha" => some (.ofRanges [(65, 90), (97, 122)])
  | "ascii" => some (.range 0 127)
  | "blank" => some (.ofRanges [(9, 9), (32, 32)])
  | "cntrl" => some (.ofRanges [(0, 31), (127, 127)])
  | "digit" => some .asciiDigit
  | "graph" => some (.range 33 126)
  | "lower" => some (.range 97 122)
  | "print" => some (.range 32 126)
  | "punct" => some (.ofRanges [(33, 47), (58, 64), (91, 96), (123, 126)])
  | "space" => some .asciiBlank
  | "upper" => some (.range 65 90)
  | "word" => some .asciiWord
  | "xdigit" => some (.ofRanges [(48, 57), (65, 70), (97, 102)])
  | _ => none

end RecordIntake.Regex
