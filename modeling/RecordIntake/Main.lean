import RecordIntake.Regex.Engine
import RecordIntake.Startup

/-!
The command: checks the configuration in the environment.  It says nothing if the consumer may
start, and otherwise reports why it may not.
-/
namespace RecordIntake

/-- The variables of this process that a configuration is read from. -/
def environmentVariables : IO (List (String × String)) :=
  Configuration.variableNames.filterMapM fun name => do
    let value ← IO.getEnv name
    return value.map fun text => (name, text)

def checkStartup : IO UInt32 := do
  let vars ← environmentVariables
  match Configuration.load Regex.compile fun name => vars.lookup name with
  | .ok _ => return 0
  | .error e =>
    IO.eprintln ("Error: " ++ e.report)
    return 1

end RecordIntake

def main : IO UInt32 := RecordIntake.checkStartup
