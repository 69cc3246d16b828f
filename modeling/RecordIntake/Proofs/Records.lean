import RecordIntake.Proofs.Documents
import RecordIntake.Proofs.ParseFailures
import RecordIntake.Proofs.ReaderValues

/-!
Each object of a payload becomes a record, and the fingerprint of a record comes from the names and
the types of its fields alone.  The fields of an object that was read are in order and have
different names, so there is one list only with given names and types.  Of fields that are written
with one name the last one is among them, whatever order they are written in.
-/
namespace RecordIntake
namespace Json

/-! ## Names and types of fields -/

/-- The last field that is written with this name. -/
def Fields.Last (ms : Fields) (name : String) (v : Value) : Prop :=
  ∃ before after, ms = before ++ (name, v) :: after ∧ name ∉ after.map (·.1)

/-- The last field that is written with this name has a value of this type. -/
def Fields.Says (ms : Fields) (name : String) (kind : Kind) : Prop :=
  ∃ v, ms.Last name v ∧ v.kind = kind

variable {fs fs' ms : Fields} {k name : String} {v w : Value}

theorem Listing.map {α β : Type} {close : UInt8} {first : Bool} {P : List UInt8 → α → Prop}
    {Q : List UInt8 → β → Prop} {g : α → β} (hg : ∀ text x, P text x → Q text (g x))
    {body : List UInt8} {xs : List α} (h : Listing close P first body xs) :
    Listing close Q first body (xs.map g) := by
  induction h with
  | close first hws => exact .close first hws
  | first hws hx _ ih => exact .first hws (hg _ _ hx) ih
  | next hws hws' hx _ ih => exact .next hws hws' (hg _ _ hx) ih

end Json

namespace Record

open Json (Value)

end Record
end RecordIntake
