import RecordIntake.Proofs.Encoding
import RecordIntake.Text.Hex

/-!
What was encoded can be decoded, and gives back what was encoded: characters from their UTF-8
octets, and octets from their hexadecimal digits.

For UTF-8 the scan is followed from the first octet of a character on.  That octet tells how many
are owed and in which range the next one lies, and each of the octets owed adds its six bits.
-/
namespace RecordIntake

/-! ## UTF-8 -/

namespace Text.Utf8

variable {p : Partial} {v k : Nat}

theorem toNat_octet {n : Nat} (h : n < 256) : (UInt8.ofNat n).toNat = n :=
  UInt8.toNat_ofNat_of_lt h

theorem toNat_tail (v k : Nat) :
    (UInt8.ofNat (0x80 + v / 64 ^ k % 64)).toNat = 0x80 + v / 64 ^ k % 64 := by
  have hsix : v / 64 ^ k % 64 < 64 := Nat.mod_lt _ (by decide)
  exact toNat_octet (by omega)

/-- An octet that is owed adds its bits. -/
theorem bits_take_tail (hbits : v / 64 ^ (k + 1) = p.bits) :
    (p.take (UInt8.ofNat (0x80 + v / 64 ^ k % 64))).bits = v / 64 ^ k := by
  rw [Nat.pow_succ, ← Nat.div_div_eq_div_mul] at hbits
  show 64 * p.bits + (_ - 0x80) = _
  rw [toNat_tail, ← hbits]
  omega

/-- The octets that a begun character is owed end it. -/
theorem scan_tails (howed : p.owed = k + 1) (hbits : v / 64 ^ (k + 1) = p.bits)
    (hleast : p.least ≤ 0x80 + v / 64 ^ k % 64) (hgreatest : 0x80 + v / 64 ^ k % 64 ≤ p.greatest)
    (bs : List UInt8) :
    scan (some p) (tails (k + 1) v ++ bs) =
      ⟨some (Char.ofNat v), p.seen + (k + 1)⟩ :: scan none bs := by
  induction k generalizing p with
  | zero =>
    have hadmits : p.admits (UInt8.ofNat (0x80 + v / 64 ^ 0 % 64)) = true := by
      simp only [Partial.admits, toNat_tail, hleast, hgreatest, decide_true, Bool.and_self]
    rw [tails, tails, List.cons_append, List.nil_append, scan, if_pos hadmits, if_pos howed,
      bits_take_tail hbits, Nat.pow_zero, Nat.div_one]
  | succ k ih =>
    have hadmits : p.admits (UInt8.ofNat (0x80 + v / 64 ^ (k + 1) % 64)) = true := by
      simp only [Partial.admits, toNat_tail, hleast, hgreatest, decide_true, Bool.and_self]
    have hsix : v / 64 ^ k % 64 < 64 := Nat.mod_lt _ (by decide)
    have hrest := ih (p := p.take (UInt8.ofNat (0x80 + v / 64 ^ (k + 1) % 64)))
      (by simp only [Partial.take]; omega) (bits_take_tail hbits).symm (Nat.le_add_right ..)
      (by simp only [Partial.take]; omega)
    have hseen : p.seen + 1 + (k + 1) = p.seen + (k + 1 + 1) := by omega
    rw [tails, List.cons_append, scan, if_pos hadmits, if_neg (by omega), hrest]
    simp only [Partial.take, hseen]

/-- The first octet of a character that has several. -/
structure Begins (b : UInt8) (p : Partial) (v k : Nat) : Prop where
  lead : lead b = .begun p
  owed : p.owed = k + 1
  bits : v / 64 ^ (k + 1) = p.bits
  least : p.least ≤ 0x80 + v / 64 ^ k % 64
  greatest : 0x80 + v / 64 ^ k % 64 ≤ p.greatest

theorem Begins.scan {b : UInt8} {c : Char} (h : Begins b p c.toNat k) (bs : List UInt8) :
    ∃ n, scan none (b :: tails (k + 1) c.toNat ++ bs) = ⟨some c, n⟩ :: scan none bs := by
  have htails := scan_tails h.owed h.bits h.least h.greatest bs
  rw [Char.ofNat_toNat] at htails
  refine ⟨p.seen + (k + 1), ?_⟩
  rw [List.cons_append, Utf8.scan, h.lead]
  exact htails

theorem begins_two (hleast : 0x80 ≤ v) (hgreatest : v < 0x800) :
    Begins (UInt8.ofNat (0xC0 + v / 64)) ⟨1, 1, v / 64, 0x80, 0xBF⟩ v 0 := by
  have hoctet : (UInt8.ofNat (0xC0 + v / 64)).toNat = 0xC0 + v / 64 :=
    toNat_octet (by omega)
  refine ⟨?_, rfl, rfl, Nat.le_add_right .., by dsimp only; omega⟩
  simp only [lead, hoctet]
  rw [if_neg (by omega), if_neg (by omega), if_pos (by omega), Nat.add_sub_cancel_left]

theorem begins_three (hleast : 0x800 ≤ v) (hgreatest : v < 0x10000)
    (hsurrogate : v < 0xD800 ∨ 0xDFFF < v) :
    ∃ p, Begins (UInt8.ofNat (0xE0 + v / 4096)) p v 1 := by
  have hoctet : (UInt8.ofNat (0xE0 + v / 4096)).toNat = 0xE0 + v / 4096 :=
    toNat_octet (by omega)
  by_cases hfirst : v / 4096 = 0
  · refine ⟨⟨1, 2, 0, 0xA0, 0xBF⟩, ?_, rfl, by omega, by dsimp only; omega, by dsimp only; omega⟩
    simp only [lead, hoctet]
    rw [if_neg (by omega), if_neg (by omega), if_neg (by omega), if_pos (by omega)]
  by_cases hlast : v / 4096 = 0xD
  · refine ⟨⟨1, 2, 0xD, 0x80, 0x9F⟩, ?_, rfl, by omega, by dsimp only; omega, by dsimp only; omega⟩
    simp only [lead, hoctet]
    rw [if_neg (by omega), if_neg (by omega), if_neg (by omega), if_neg (by omega),
      if_pos (by omega)]
  · refine ⟨⟨1, 2, v / 4096, 0x80, 0xBF⟩, ?_, rfl, rfl, by dsimp only; omega,
      by dsimp only; omega⟩
    simp only [lead, hoctet]
    rw [if_neg (by omega), if_neg (by omega), if_neg (by omega), if_neg (by omega),
      if_neg (by omega), if_pos (by omega), Nat.add_sub_cancel_left]

theorem begins_four (hleast : 0x10000 ≤ v) (hgreatest : v < 0x110000) :
    ∃ p, Begins (UInt8.ofNat (0xF0 + v / 262144)) p v 2 := by
  have hoctet : (UInt8.ofNat (0xF0 + v / 262144)).toNat = 0xF0 + v / 262144 :=
    toNat_octet (by omega)
  by_cases hfirst : v / 262144 = 0
  · refine ⟨⟨1, 3, 0, 0x90, 0xBF⟩, ?_, rfl, by omega, by dsimp only; omega, by dsimp only; omega⟩
    simp only [lead, hoctet]
    rw [if_neg (by omega), if_neg (by omega), if_neg (by omega), if_neg (by omega),
      if_neg (by omega), if_neg (by omega), if_pos (by omega)]
  by_cases hlast : v / 262144 = 4
  · refine ⟨⟨1, 3, 4, 0x80, 0x8F⟩, ?_, rfl, by omega, by dsimp only; omega, by dsimp only; omega⟩
    simp only [lead, hoctet]
    rw [if_neg (by omega), if_neg (by omega), if_neg (by omega), if_neg (by omega),
      if_neg (by omega), if_neg (by omega), if_neg (by omega), if_neg (by omega),
      if_pos (by omega)]
  · refine ⟨⟨1, 3, v / 262144, 0x80, 0xBF⟩, ?_, rfl, rfl, by dsimp only; omega,
      by dsimp only; omega⟩
    simp only [lead, hoctet]
    rw [if_neg (by omega), if_neg (by omega), if_neg (by omega), if_neg (by omega),
      if_neg (by omega), if_neg (by omega), if_neg (by omega), if_pos (by omega),
      Nat.add_sub_cancel_left]

/-- The scan finds each character where it was written. -/
theorem scan_encodeChar (c : Char) (bs : List UInt8) :
    ∃ n, scan none (encodeChar c ++ bs) = ⟨some c, n⟩ :: scan none bs := by
  have hvalid : c.toNat < 0xD800 ∨ 0xDFFF < c.toNat ∧ c.toNat < 0x110000 := c.valid
  unfold encodeChar
  dsimp only
  by_cases hone : c.toNat < 0x80
  · have hlead : lead (UInt8.ofNat c.toNat) = .whole c := by
      simp only [lead, toNat_octet (show c.toNat < 256 by omega)]
      rw [if_pos hone, Char.ofNat_toNat]
    refine ⟨1, ?_⟩
    rw [if_pos hone, List.cons_append, List.nil_append, scan, hlead]
  rw [if_neg hone]
  by_cases htwo : c.toNat < 0x800
  · have hscan := (begins_two (v := c.toNat) (by omega) htwo).scan bs
    rw [if_pos htwo]
    simpa only [tails, Nat.pow_zero, Nat.div_one] using hscan
  rw [if_neg htwo]
  by_cases hthree : c.toNat < 0x10000
  · obtain ⟨p, hbegins⟩ := begins_three (v := c.toNat) (by omega) hthree (by omega)
    rw [if_pos hthree]
    simpa only [tails, Nat.pow_zero, Nat.pow_one, Nat.div_one] using hbegins.scan bs
  · obtain ⟨p, hbegins⟩ := begins_four (v := c.toNat) (by omega) (by omega)
    rw [if_neg hthree]
    simpa only [tails, Nat.pow_zero, Nat.pow_one, Nat.reducePow, Nat.div_one] using hbegins.scan bs

/-- An octet below 128 is a character of its own, and no part of another one. -/
theorem toNat_of_mem_encodeChar {b : UInt8} {c : Char} (h : b ∈ encodeChar c) :
    b.toNat = c.toNat ∨ 0x80 ≤ b.toNat ∧ 0x80 ≤ c.toNat := by
  have hvalid : c.toNat < 0xD800 ∨ 0xDFFF < c.toNat ∧ c.toNat < 0x110000 := c.valid
  unfold encodeChar at h
  dsimp only at h
  by_cases hone : c.toNat < 0x80
  · rw [if_pos hone, List.mem_singleton] at h
    left
    rw [h, toNat_octet (by omega)]
  have hhigh : ∀ n, 0x80 ≤ n → n < 256 → 0x80 ≤ (UInt8.ofNat n).toNat := by
    intro n hleast hgreatest
    rw [toNat_octet hgreatest]
    exact hleast
  refine .inr ⟨?_, by omega⟩
  rw [if_neg hone] at h
  split at h
  · simp only [List.mem_cons, List.not_mem_nil, or_false] at h
    rcases h with rfl | rfl <;> exact hhigh _ (by omega) (by omega)
  split at h
  · simp only [List.mem_cons, List.not_mem_nil, or_false] at h
    rcases h with rfl | rfl | rfl <;> exact hhigh _ (by omega) (by omega)
  · simp only [List.mem_cons, List.not_mem_nil, or_false] at h
    rcases h with rfl | rfl | rfl | rfl <;> exact hhigh _ (by omega) (by omega)

theorem decode_encode (cs : List Char) : decode (encode cs) = some cs := by
  induction cs with
  | nil => rfl
  | cons c cs ih =>
    obtain ⟨n, hscan⟩ := scan_encodeChar c (encode cs)
    rw [decode] at ih
    rw [decode, encode, List.flatMap_cons, ← encode, hscan, List.mapM_cons, ih]
    rfl

theorem text_octets (s : String) : text (octets s) = some s := by
  rw [text, octets, decode_encode, Option.map_some, String.ofList_toList]

end Text.Utf8

/-! ## Hexadecimal digits -/

namespace Text.Hex

theorem digitValue?_digit {n : Nat} (h : n < 16) : digitValue? (digit n) = some n := by
  have hall : ∀ m : Fin 16, digitValue? (digit m) = some m.val := by decide
  exact hall ⟨n, h⟩

theorem decode_encode (bs : List UInt8) : decode (encode bs) = some bs := by
  induction bs with
  | nil => rfl
  | cons b bs ih =>
    have hlt := b.toNat_lt
    show decode (digit (b.toNat / 16) :: digit (b.toNat % 16) :: encode bs) = _
    rw [decode, digitValue?_digit (by omega), digitValue?_digit (by omega), ih]
    show some (UInt8.ofNat (16 * (b.toNat / 16) + b.toNat % 16) :: bs) = _
    rw [Nat.div_add_mod, UInt8.ofNat_toNat]

end Text.Hex
end RecordIntake
