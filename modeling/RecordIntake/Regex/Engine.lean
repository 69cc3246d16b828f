import RecordIntake.Pattern
import RecordIntake.Regex.Match
import RecordIntake.Regex.Parser
import RecordIntake.Regex.Size

/-!
An engine for patterns.  It reads a text, bounds the size of the expression, and looks for the
leftmost place of a name from which the expression matches.  It is one library among others that
patterns can be made with: it knows fewer properties of characters than there are, and the sizes are
estimates.
-/
namespace RecordIntake.Regex

def compile : Pattern.Compiler := fun text =>
  match parse text.toList with
  | none => .error "regex parse error"
  | some e =>
    if e.automatonSize ≤ sizeLimit then .ok ⟨text, fun name => e.find? name.toList.toArray⟩
    else .error s!"Compiled regex exceeds size limit of {sizeLimit} bytes."

end RecordIntake.Regex
