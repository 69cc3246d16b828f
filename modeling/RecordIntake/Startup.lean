import RecordIntake.Configuration.Checks

/-!
What keeps the consumer from starting, and how that is reported.
-/
namespace RecordIntake

inductive StartupError where
  | unreadable (v : UnreadableVariable)
  | invalid (topic group : String) (cause : IntakeError)
  deriving DecidableEq, Repr

/-- The fault of the service alone, with its cause after it. -/
def serviceFault (topic group : String) (cause : IntakeError) : List String :=
  ["Configuration validation failed for service with consumer topic '" ++ topic ++
      "' and group '" ++ group ++ "'",
    cause.message?.getD ""]

namespace StartupError

/-- What failed, and then each cause of what stands before it. -/
def chain : StartupError → List String
  | .unreadable v =>
    ["Failed to load configuration from environment variables. " ++
      "Please check your environment setup.", v.message]
  | .invalid topic group cause =>
    "Failed to create Kafka record consumer service" :: serviceFault topic group cause

/-- Further lines of a cause stand below its first one. -/
def indent (margin : String) (text : String) : String :=
  String.intercalate ("\n" ++ margin) ((Text.pieces '\n' text.toList).map String.ofList)

def numberedCauses : Nat → List String → String
  | _, [] => ""
  | n, c :: cs => s!"\n{pad (toString n)}: " ++ indent "       " c ++ numberedCauses (n + 1) cs
where
  pad (n : String) : String := String.ofList (List.replicate (5 - n.length) ' ') ++ n

/-- A report of several causes numbers them. -/
def reportOf : List String → String
  | [] => ""
  | [fault] => fault
  | [fault, cause] => fault ++ "\n\nCaused by:\n    " ++ indent "    " cause
  | fault :: causes => fault ++ "\n\nCaused by:" ++ numberedCauses 0 causes

def report (e : StartupError) : String := reportOf e.chain

end StartupError

namespace Configuration

/-- The fault for which a service is not created, if there is one. -/
def startupError? (c : Configuration) (compile : Pattern.Compiler) : Option StartupError :=
  match c.validate compile with
  | .ok () => none
  | .error cause => some (.invalid c.topic c.group cause)

/-- The configuration of a consumer that may start. -/
def load (compile : Pattern.Compiler) (vars : Variables) : Except StartupError Configuration :=
  match read vars with
  | .error v => .error (.unreadable v)
  | .ok c =>
    match c.startupError? compile with
    | some e => .error e
    | none => .ok c

end Configuration
end RecordIntake
