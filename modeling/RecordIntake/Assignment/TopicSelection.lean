import RecordIntake.Error
import RecordIntake.Subscription
import RecordIntake.Text.Blank

/-!
How the topics are chosen: by a list of names or by a pattern.
-/
namespace RecordIntake

inductive TopicSelection where
  | names (topics : SortedSet String)
  | pattern (p : Pattern)
  deriving Repr

namespace TopicSelection

def ofNames (text : List Char) : Except IntakeError TopicSelection :=
  match Text.entries ',' text with
  | [] => .error (.configuration "at least one topic name is required")
  | ts => .ok (.names (SortedSet.ofList (ts.map String.ofList)))

/-- The pattern is made of the text with an anchor in front. -/
def ofPattern (compile : Pattern.Compiler) (text : List Char) : Except IntakeError TopicSelection :=
  match compile (String.ofList (Pattern.anchored (Text.trim text))) with
  | .ok p => .ok (.pattern p)
  | .error explanation => .error (.configuration ("invalid topic pattern: " ++ explanation))

def parse (compile : Pattern.Compiler) (kind topics : String) : Except IntakeError TopicSelection :=
  let plain := String.ofList (Text.lowerAscii (Text.trim kind.toList))
  if plain = "names" then ofNames topics.toList
  else if plain = "pattern" then ofPattern compile topics.toList
  else
    .error (.configuration
      ("unknown topic type '" ++ plain ++ "', expected 'names' or 'pattern'"))

end TopicSelection
end RecordIntake
