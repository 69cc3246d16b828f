import RecordIntake.Error
import RecordIntake.Partition
import RecordIntake.Text.Blank
import RecordIntake.Text.Literal

/-!
The declaration of which host owns which partitions, as `host-a=0,1;host-b=2,3`.  Every partition
from 0 up to their number has one owner, and the same numbers hold for each topic.
-/
namespace RecordIntake

structure StaticAssignment where
  hosts : SortedMap String (SortedSet Int)
  deriving DecidableEq, Repr

namespace StaticAssignment

def total (a : StaticAssignment) : Nat :=
  (a.hosts.map fun (_, numbers) => numbers.length).foldl (· + ·) 0

def ownedBy? (a : StaticAssignment) (host : String) : Option (SortedSet Int) :=
  SortedMap.find? host a.hosts

def owns (a : StaticAssignment) (n : Int) : Bool :=
  a.hosts.any fun (_, numbers) => SortedSet.contains n numbers

/-- The hosts declared so far, and the owner of each number seen. -/
structure Draft where
  hosts : SortedMap String (SortedSet Int)
  owners : SortedMap Int String

def quote (cs : List Char) : String := "'" ++ String.ofList cs ++ "'"

/-- Gives one number to a host. -/
def Draft.give (d : Draft) (host : String) (id : List Char) : Except IntakeError Draft :=
  match (Text.readInteger .int32 id).filter (0 ≤ ·) with
  | none =>
    .error (.configuration
      ("partition " ++ quote id ++ " assigned to host " ++ host ++ " is not a non-negative integer"))
  | some n =>
    match SortedMap.find? n d.owners with
    | some other =>
      .error (.configuration
        (s!"partition {n} is assigned to more than one host ({other} and {host})"))
    | none =>
      .ok ⟨SortedMap.upsert host (fun ns => SortedSet.insert n (ns.getD [])) d.hosts,
        SortedMap.insert n host d.owners⟩

def Draft.giveAll (d : Draft) (host : String) : List (List Char) → Except IntakeError Draft
  | [] => .ok d
  | id :: ids =>
    match d.give host id with
    | .error e => .error e
    | .ok d => d.giveAll host ids

/-- Reads one entry, which is trimmed and not blank. -/
def Draft.entry (d : Draft) (entry : List Char) : Except IntakeError Draft :=
  match Text.cutAt '=' entry with
  | none =>
    .error (.configuration
      ("partition assignment " ++ quote entry ++ " must look like host=0,1,2"))
  | some (host, ids) =>
    match Text.trim host with
    | [] => .error (.configuration ("partition assignment " ++ quote entry ++ " has no host name"))
    | name =>
      let host := String.ofList name
      let d := { d with hosts := SortedMap.upsert host (·.getD []) d.hosts }
      d.giveAll host (Text.entries ',' ids)

def Draft.allEntries (d : Draft) : List (List Char) → Except IntakeError Draft
  | [] => .ok d
  | e :: es =>
    match d.entry e with
    | .error f => .error f
    | .ok d => d.allEntries es

/-- The first number below the total that nobody owns. -/
def gap? (a : StaticAssignment) : Option Nat := (List.range a.total).find? fun n => !a.owns n

/-- A declaration without entries is no assignment. -/
def parse (declaration : String) : Except IntakeError (Option StaticAssignment) :=
  match Draft.allEntries ⟨[], []⟩ (Text.entries ';' declaration.toList) with
  | .error e => .error e
  | .ok d =>
    if d.hosts.isEmpty then .ok none
    else
      let a : StaticAssignment := ⟨d.hosts⟩
      match a.gap? with
      | some n => .error (.configuration (s!"no host is assigned partition {n}"))
      | none => .ok (some a)

end StaticAssignment
end RecordIntake
