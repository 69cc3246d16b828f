import RecordIntake.Batch.Emission
import RecordIntake.Json.Printer
import RecordIntake.Text.Utf8

/-!
A sink that writes each unit as one line of JSON.  The writer behind it may run out of room in the
middle of a line, and then holds the part that fitted.
-/
namespace RecordIntake

/-- The line of a unit, without its end. -/
def Emission.line (e : Emission) : String := e.value.text

inductive WriteError where
  | full
  | flushRefused
  deriving DecidableEq, Repr

def WriteError.message : WriteError → String
  | .full => "writer is full"
  | .flushRefused => "flush refused"

/-- A destination of octets. -/
structure Writer where
  written : List UInt8
  /-- The number of octets it still takes, if that is limited. -/
  room : Option Nat
  refusesFlush : Bool
  deriving DecidableEq, Repr

namespace Writer

/-- Takes the octets as far as there is room. -/
def write (w : Writer) (octets : List UInt8) : Writer × Option WriteError :=
  match w.room with
  | none => ({ w with written := w.written ++ octets }, none)
  | some room =>
    ({ w with written := w.written ++ octets.take room, room := some (room - octets.length) },
      if octets.length ≤ room then none else some .full)

def flush (w : Writer) : Option WriteError := if w.refusesFlush then some .flushRefused else none

end Writer

/-- The step of writing a line that failed. -/
inductive LineError where
  | unserialized (e : WriteError)
  | unwritten (e : WriteError)
  deriving DecidableEq, Repr

def LineError.message : LineError → String
  | .unserialized e => "Failed to serialize output unit: " ++ e.message
  | .unwritten e => "Failed to write output unit: " ++ e.message

/-- Writes the line of a unit, ends it and flushes the writer; the first failure ends the attempt.
What was written by then stays. -/
def Writer.writeUnit (w : Writer) (e : Emission) : Writer × Option LineError :=
  match w.write (Text.Utf8.octets e.line) with
  | (w, some fault) => (w, some (.unserialized fault))
  | (w, none) =>
    match w.write [10] with
    | (w, some fault) => (w, some (.unwritten fault))
    | (w, none) => (w, w.flush.map .unwritten)

/-- Writes one unit after the other, going on after a failure. -/
def Writer.writeUnits (w : Writer) : List Emission → Writer × List (Option LineError)
  | [] => (w, [])
  | e :: es =>
    let (w, outcome) := w.writeUnit e
    let (w, outcomes) := w.writeUnits es
    (w, outcome :: outcomes)

end RecordIntake
