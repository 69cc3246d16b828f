import RecordIntake.Proofs.Tokens

/-!
The ways of writing a string.  Each character stands for itself, if it may, or is escaped by a
letter or by the hexadecimal digits of its UTF-16 code units.  The reader finds the character behind
each of them, so a string that is read does not tell how it was written.
-/
namespace RecordIntake.Json

open Reader
open Text.Utf8 (encode encodeChar encode_append)
open Text.Utf16 (charUnits)

/-- A hexadecimal digit, in either case. -/
inductive HexDigit : UInt8 → Nat → Prop where
  | decimal {v : Nat} (h : v < 10) : HexDigit (UInt8.ofNat (48 + v)) v
  | lower {v : Nat} (h : v < 6) : HexDigit (UInt8.ofNat (97 + v)) (10 + v)
  | upper {v : Nat} (h : v < 6) : HexDigit (UInt8.ofNat (65 + v)) (10 + v)

/-- The escape of one code unit. -/
inductive UnitEscape : List UInt8 → Nat → Prop where
  | digits {a b c d : UInt8} {w x y z : Nat} (ha : HexDigit a w) (hb : HexDigit b x)
    (hc : HexDigit c y) (hd : HexDigit d z) :
    UnitEscape [92, 117, a, b, c, d] (4096 * w + 256 * x + 16 * y + z)

variable {x y : List UInt8} {u v : Nat} {c : Char}

theorem HexDigit.value {b : UInt8} (h : HexDigit b v) : hexValue? b = some v := by
  have hten : ∀ k : Fin 10, hexValue? (UInt8.ofNat (48 + k.val)) = some k.val := by decide
  have hsix : ∀ k : Fin 6, hexValue? (UInt8.ofNat (97 + k.val)) = some (10 + k.val) ∧
      hexValue? (UInt8.ofNat (65 + k.val)) = some (10 + k.val) := by decide
  cases h with
  | decimal h => exact hten ⟨_, h⟩
  | lower h => exact (hsix ⟨_, h⟩).1
  | upper h => exact (hsix ⟨_, h⟩).2

theorem UnitEscape.value (h : UnitEscape x u) :
    ∃ a b c d, x = [92, 117, a, b, c, d] ∧ hex4? a b c d = some u := by
  cases h with
  | @digits a b c d _ _ _ _ ha hb hc hd =>
    refine ⟨a, b, c, d, rfl, ?_⟩
    rw [hex4?, ha.value, hb.value, hc.value, hd.value]
    rfl

end RecordIntake.Json
