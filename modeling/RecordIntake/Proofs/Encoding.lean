import Mathlib.Algebra.Group.Nat.Defs
import RecordIntake.Encoding.Header

/-!
Text that was decoded can be encoded again, and gives the octets it was decoded from.  So under each
encoding different octets have different texts.  UTF-16 with an optional byte order mark is the one
exception: with the mark, without it and in the other byte order the same text has different octets.

For UTF-8 the argument follows the scan: a character begun knows which octets it has seen, as those
are what stands before the octets owed in the encoding of every character that it can become.
-/
namespace RecordIntake

theorem Text.toNat_ofNat {n : Nat} (h : n.isValidChar) : (Char.ofNat n).toNat = n := by
  rw [Char.ofNat, dif_pos h]
  rfl

/-! ## UTF-8 -/

namespace Text.Utf8

/-- The last octets of a character, each of which holds six bits of it. -/
def tails : Nat → Nat → List UInt8
  | 0, _ => []
  | k + 1, v => UInt8.ofNat (0x80 + v / 64 ^ k % 64) :: tails k v

/-- The character is begun by these octets: whatever scalar value it turns out to have, these and
the octets owed are what that value is written with. -/
def Partial.BegunBy (p : Partial) (front : List UInt8) : Prop :=
  ∀ v, v / 64 ^ p.owed = p.bits → p.least ≤ 0x80 + v / 64 ^ (p.owed - 1) % 64 →
    0x80 + v / 64 ^ (p.owed - 1) % 64 ≤ p.greatest →
    encodeChar (Char.ofNat v) = front ++ tails p.owed v

theorem encodeChar_ofNat {v : Nat} (h : v.isValidChar) :
    encodeChar (Char.ofNat v) =
      if v < 0x80 then [UInt8.ofNat v]
      else if v < 0x800 then [UInt8.ofNat (0xC0 + v / 64), UInt8.ofNat (0x80 + v % 64)]
      else if v < 0x10000 then
        [UInt8.ofNat (0xE0 + v / 4096), UInt8.ofNat (0x80 + v / 64 % 64), UInt8.ofNat (0x80 + v % 64)]
      else
        [UInt8.ofNat (0xF0 + v / 262144), UInt8.ofNat (0x80 + v / 4096 % 64),
          UInt8.ofNat (0x80 + v / 64 % 64), UInt8.ofNat (0x80 + v % 64)] := by
  simp only [encodeChar, toNat_ofNat h]

section

variable {b : UInt8} {bits least greatest : Nat}

theorem begunBy_two (hb : b.toNat = 0xC0 + bits) (hleast : 2 ≤ bits) (hgreatest : bits < 32) :
    (⟨1, 1, bits, least, greatest⟩ : Partial).BegunBy [b] := by
  intro v hv _ _
  have hv : v / 64 = bits := hv
  rw [encodeChar_ofNat (Or.inl (by omega)), if_neg (by omega), if_pos (by omega), hv, ← hb,
    UInt8.ofNat_toNat]
  simp only [tails, Nat.pow_zero, Nat.div_one, List.cons_append, List.nil_append]

theorem begunBy_three (hb : b.toNat = 0xE0 + bits) (hbits : bits < 16)
    (hlong : bits = 0 → 0xA0 ≤ least) (hsurrogate : bits = 0xD → greatest ≤ 0x9F) :
    (⟨1, 2, bits, least, greatest⟩ : Partial).BegunBy [b] := by
  intro v hv hle hge
  have hv : v / 4096 = bits := hv
  have hle : least ≤ 0x80 + v / 64 % 64 := hle
  have hge : 0x80 + v / 64 % 64 ≤ greatest := hge
  have hvalid : v.isValidChar := by
    show v < 0xD800 ∨ 0xDFFF < v ∧ v < 0x110000
    omega
  rw [encodeChar_ofNat hvalid, if_neg (by omega), if_neg (by omega), if_pos (by omega), hv, ← hb,
    UInt8.ofNat_toNat]
  simp only [tails, Nat.pow_zero, Nat.pow_one, Nat.div_one, List.cons_append, List.nil_append]

theorem begunBy_four (hb : b.toNat = 0xF0 + bits) (hbits : bits ≤ 4)
    (hlong : bits = 0 → 0x90 ≤ least) (hlast : bits = 4 → greatest ≤ 0x8F) :
    (⟨1, 3, bits, least, greatest⟩ : Partial).BegunBy [b] := by
  intro v hv hle hge
  have hv : v / 262144 = bits := hv
  have hle : least ≤ 0x80 + v / 4096 % 64 := hle
  have hge : 0x80 + v / 4096 % 64 ≤ greatest := hge
  have hvalid : v.isValidChar := by
    show v < 0xD800 ∨ 0xDFFF < v ∧ v < 0x110000
    omega
  rw [encodeChar_ofNat hvalid, if_neg (by omega), if_neg (by omega), if_neg (by omega), hv, ← hb,
    UInt8.ofNat_toNat]
  simp only [tails, Nat.pow_zero, Nat.pow_one, Nat.reducePow, Nat.div_one, List.cons_append,
    List.nil_append]

end

theorem encodeChar_of_lead {b : UInt8} {c : Char} (h : lead b = .whole c) : encodeChar c = [b] := by
  simp only [lead] at h
  split at h
  · rename_i hb
    obtain rfl := Lead.whole.inj h
    rw [encodeChar_ofNat (Or.inl (by omega)), if_pos hb, UInt8.ofNat_toNat]
  · repeat' split at h
    all_goals cases h

theorem begunBy_of_lead {b : UInt8} {p : Partial} (h : lead b = .begun p) : p.BegunBy [b] := by
  simp only [lead] at h
  have hlt := b.toNat_lt
  split at h
  · cases h
  split at h
  · cases h
  split at h
  · obtain rfl := Lead.begun.inj h
    exact begunBy_two (by omega) (by omega) (by omega)
  split at h
  · obtain rfl := Lead.begun.inj h
    exact begunBy_three (by omega) (by omega) (fun _ => Nat.le_refl _) (by omega)
  split at h
  · obtain rfl := Lead.begun.inj h
    exact begunBy_three (by omega) (by omega) (by omega) (fun _ => Nat.le_refl _)
  split at h
  · obtain rfl := Lead.begun.inj h
    exact begunBy_three (by omega) (by omega) (by omega) (by omega)
  split at h
  · obtain rfl := Lead.begun.inj h
    exact begunBy_four (by omega) (by omega) (fun _ => Nat.le_refl _) (by omega)
  split at h
  · obtain rfl := Lead.begun.inj h
    exact begunBy_four (by omega) (by omega) (by omega) (by omega)
  split at h
  · obtain rfl := Lead.begun.inj h
    exact begunBy_four (by omega) (by omega) (by omega) (fun _ => Nat.le_refl _)
  · cases h

/-- One more octet of the character. -/
theorem Partial.BegunBy.take {p : Partial} {front : List UInt8} {b : UInt8} (h : p.BegunBy front)
    (howed : 0 < p.owed) (hleast : 0x80 ≤ p.least) (hgreatest : p.greatest ≤ 0xBF)
    (hadmits : p.admits b = true) : (p.take b).BegunBy (front ++ [b]) := by
  obtain ⟨hle, hge⟩ := Bool.and_eq_true_iff.mp hadmits
  have hle := of_decide_eq_true hle
  have hge := of_decide_eq_true hge
  obtain ⟨k, hk⟩ : ∃ k, p.owed = k + 1 := ⟨p.owed - 1, by omega⟩
  have howed' : (p.take b).owed = k := by rw [Partial.take, hk, Nat.add_sub_cancel]
  intro v hv _ _
  rw [howed'] at hv ⊢
  have hv : v / 64 ^ k = 64 * p.bits + (b.toNat - 0x80) := hv
  have hsix : 0x80 + v / 64 ^ k % 64 = b.toNat := by omega
  have hbits : v / 64 ^ p.owed = p.bits := by
    rw [hk, Nat.pow_succ, ← Nat.div_div_eq_div_mul]
    omega
  have hwhole := h v hbits
  rw [hk, Nat.add_sub_cancel, hsix] at hwhole
  rw [hwhole hle hge, tails, hsix, UInt8.ofNat_toNat, List.append_assoc]
  rfl

/-- What the scan has read of the character it is in: nothing, or the octets that begin it. -/
inductive HasRead : Option Partial → List UInt8 → Prop where
  | nothing : HasRead none []
  | begun {p : Partial} {front : List UInt8} (hp : p.BegunBy front) (howed : 0 < p.owed)
    (hleast : 0x80 ≤ p.least) (hgreatest : p.greatest ≤ 0xBF) : HasRead (some p) front

theorem hasRead_of_lead {b : UInt8} {p : Partial} (h : lead b = .begun p) : HasRead (some p) [b] := by
  have hp := begunBy_of_lead h
  unfold lead at h
  refine .begun hp ?_ ?_ ?_ <;> grind

theorem mapM_char?_cons {x : Piece} {xs : List Piece} {cs : List Char}
    (h : (x :: xs).mapM Piece.char? = some cs) :
    ∃ c ds, x.char? = some c ∧ xs.mapM Piece.char? = some ds ∧ cs = c :: ds := by
  rw [List.mapM_cons] at h
  obtain ⟨c, hc, h⟩ := Option.bind_eq_some_iff.mp h
  obtain ⟨ds, hds, h⟩ := Option.bind_eq_some_iff.mp h
  exact ⟨c, ds, hc, hds, (Option.some.inj h).symm⟩

/-- The characters that the scan finds are written with the octets it has read and those it
reads. -/
theorem encode_of_scan {p : Option Partial} {front bs : List UInt8} {cs : List Char}
    (hp : HasRead p front) (h : (scan p bs).mapM Piece.char? = some cs) : encode cs = front ++ bs := by
  induction p, bs using scan.induct generalizing front cs with
  | case1 =>
    cases hp
    obtain rfl := Option.some.inj h
    rfl
  | case2 p =>
    obtain ⟨c, -, hc, -⟩ := mapM_char?_cons h
    cases hc
  | case3 b bs c hb ih =>
    cases hp
    simp only [scan, hb] at h
    obtain ⟨_, ds, hc, hds, rfl⟩ := mapM_char?_cons h
    obtain rfl := Option.some.inj hc
    rw [encode, List.flatMap_cons, encodeChar_of_lead hb]
    exact congrArg (b :: ·) (ih .nothing hds)
  | case4 b bs p hb ih =>
    cases hp
    simp only [scan, hb] at h
    exact ih (hasRead_of_lead hb) h
  | case5 b bs hb ih =>
    simp only [scan, hb] at h
    obtain ⟨c, -, hc, -⟩ := mapM_char?_cons h
    cases hc
  | case6 p b bs hadmits howed ih =>
    obtain ⟨-⟩ | ⟨hp, howed', hleast, hgreatest⟩ := hp
    simp only [scan, hadmits, howed, if_true] at h
    obtain ⟨_, ds, hc, hds, rfl⟩ := mapM_char?_cons h
    obtain rfl := Option.some.inj hc
    have hlast : (p.take b).owed = 0 := by rw [Partial.take, howed]
    have hchar : encodeChar (Char.ofNat (p.take b).bits) = front ++ [b] := by
      have hwhole := hp.take howed' hleast hgreatest hadmits (p.take b).bits
      rw [hlast] at hwhole
      refine (hwhole (Nat.div_one _) (Nat.le_add_right _ _) ?_).trans (List.append_nil _)
      have hsix := Nat.mod_lt ((p.take b).bits / 64 ^ (0 - 1)) (by decide : 0 < 64)
      show _ ≤ 0xBF
      omega
    rw [encode, List.flatMap_cons, hchar, List.append_assoc]
    exact congrArg (front ++ b :: ·) (ih .nothing hds)
  | case7 p b bs hadmits howed ih =>
    obtain ⟨-⟩ | ⟨hp, howed', hleast, hgreatest⟩ := hp
    simp only [scan, hadmits, howed, if_true, if_false] at h
    have hp' : HasRead (some (p.take b)) (front ++ [b]) :=
      .begun (hp.take howed' hleast hgreatest hadmits) (by simp only [Partial.take]; omega)
        (Nat.le_refl _) (Nat.le_refl _)
    rw [ih hp' h, List.append_assoc]
    rfl
  | case8 p b bs hadmits =>
    simp only [scan, hadmits] at h
    obtain ⟨c, -, hc, -⟩ := mapM_char?_cons h
    cases hc

theorem encode_of_decode {bs : List UInt8} {cs : List Char} (h : decode bs = some cs) :
    encode cs = bs :=
  encode_of_scan .nothing h

end Text.Utf8

/-! ## UTF-16 -/

namespace Text.Utf16

theorem unit_lt (order : ByteOrder) (a b : UInt8) : unit order a b < 0x10000 := by
  have ha := a.toNat_lt
  have hb := b.toNat_lt
  cases order <;> simp only [unit] <;> omega

theorem unitOctets_unit (order : ByteOrder) (a b : UInt8) :
    unitOctets order (unit order a b) = [a, b] := by
  have ha := a.toNat_lt
  have hb := b.toNat_lt
  cases order with
  | big =>
    have hhigh : (256 * a.toNat + b.toNat) / 256 = a.toNat := by omega
    have hlow : (256 * a.toNat + b.toNat) % 256 = b.toNat := by omega
    simp only [unitOctets, unit, hhigh, hlow, UInt8.ofNat_toNat]
  | little =>
    have hhigh : (a.toNat + 256 * b.toNat) / 256 = b.toNat := by omega
    have hlow : (a.toNat + 256 * b.toNat) % 256 = a.toNat := by omega
    simp only [unitOctets, unit, hhigh, hlow, UInt8.ofNat_toNat]

theorem octets_of_units {order : ByteOrder} {bs : List UInt8} {us : List Nat}
    (h : units order bs = some us) : us.flatMap (unitOctets order) = bs ∧ ∀ u ∈ us, u < 0x10000 := by
  induction bs using units.induct generalizing us with
  | case1 =>
    obtain rfl := Option.some.inj h
    exact ⟨rfl, fun u hu => by cases hu⟩
  | case2 b => cases h
  | case3 a b bs ih =>
    obtain ⟨us, hus, rfl⟩ := Option.map_eq_some_iff.mp h
    obtain ⟨hoctets, hlt⟩ := ih hus
    refine ⟨?_, fun u hu => ?_⟩
    · rw [List.flatMap_cons, unitOctets_unit, hoctets]
      rfl
    · obtain rfl | hu := List.mem_cons.mp hu
      · exact unit_lt order a b
      · exact hlt u hu

theorem charUnits_ofNat {u : Nat} (hlt : u < 0x10000) (hleading : ¬ isLeading u = true)
    (htrailing : ¬ isTrailing u = true) : charUnits (Char.ofNat u) = [u] := by
  simp only [isLeading, isTrailing, Bool.and_eq_true, decide_eq_true_eq] at hleading htrailing
  have hvalid : u.isValidChar := by
    show u < 0xD800 ∨ 0xDFFF < u ∧ u < 0x110000
    omega
  simp only [charUnits, toNat_ofNat hvalid, if_pos hlt]

theorem charUnits_surrogates {u v : Nat} (hu : isLeading u = true) (hv : isTrailing v = true) :
    charUnits (Char.ofNat (0x10000 + 1024 * (u - 0xD800) + (v - 0xDC00))) = [u, v] := by
  simp only [isLeading, isTrailing, Bool.and_eq_true, decide_eq_true_eq] at hu hv
  have hvalid : (0x10000 + 1024 * (u - 0xD800) + (v - 0xDC00)).isValidChar := by
    show _ < 0xD800 ∨ 0xDFFF < _ ∧ _ < 0x110000
    omega
  have hhigh : 0xD800 + (0x10000 + 1024 * (u - 0xD800) + (v - 0xDC00) - 0x10000) / 1024 = u := by
    omega
  have hlow : 0xDC00 + (0x10000 + 1024 * (u - 0xD800) + (v - 0xDC00) - 0x10000) % 1024 = v := by
    omega
  simp only [charUnits, toNat_ofNat hvalid]
  rw [if_neg (by omega), hhigh, hlow]

theorem units_of_decodeUnits {us : List Nat} {cs : List Char} (hlt : ∀ u ∈ us, u < 0x10000)
    (h : decodeUnits us = some cs) : cs.flatMap charUnits = us := by
  induction us using decodeUnits.induct generalizing cs with
  | case1 =>
    obtain rfl := Option.some.inj h
    rfl
  | case2 u hsurrogate =>
    rw [decodeUnits, if_pos hsurrogate] at h
    cases h
  | case3 u hplain =>
    rw [decodeUnits, if_neg hplain] at h
    obtain rfl := Option.some.inj h
    rw [Bool.or_eq_true, not_or] at hplain
    exact (List.append_nil _).trans
      (charUnits_ofNat (hlt u List.mem_cons_self) hplain.1 hplain.2)
  | case4 u v us hu hv ih =>
    rw [decodeUnits, if_pos hu, if_pos hv] at h
    obtain ⟨cs, hcs, rfl⟩ := Option.map_eq_some_iff.mp h
    rw [List.flatMap_cons, charUnits_surrogates hu hv,
      ih (fun w hw => hlt w (List.mem_cons_of_mem _ (List.mem_cons_of_mem _ hw))) hcs]
    rfl
  | case5 u v us hu hv =>
    rw [decodeUnits, if_pos hu, if_neg hv] at h
    cases h
  | case6 u v us hu htrailing =>
    rw [decodeUnits, if_neg hu, if_pos htrailing] at h
    cases h
  | case7 u v us hu htrailing ih =>
    rw [decodeUnits, if_neg hu, if_neg htrailing] at h
    obtain ⟨cs, hcs, rfl⟩ := Option.map_eq_some_iff.mp h
    rw [List.flatMap_cons, charUnits_ofNat (hlt u List.mem_cons_self) hu htrailing,
      ih (fun w hw => hlt w (List.mem_cons_of_mem _ hw)) hcs]
    rfl

theorem encode_of_decode {order : ByteOrder} {bs : List UInt8} {cs : List Char}
    (h : decode order bs = some cs) : encode order cs = bs := by
  obtain ⟨us, hus, hcs⟩ := Option.bind_eq_some_iff.mp h
  obtain ⟨hoctets, hlt⟩ := octets_of_units hus
  rw [encode, units_of_decodeUnits hlt hcs, hoctets]

end Text.Utf16

/-! ## Header values -/

namespace HeaderEncoding

theorem octetChar_toNat (b : UInt8) : (octetChar b).toNat = b.toNat := by
  have hlt := b.toNat_lt
  exact Text.toNat_ofNat (Or.inl (by omega))

theorem map_octetChar (bs : List UInt8) :
    (bs.map octetChar).map (fun c => UInt8.ofNat c.toNat) = bs := by
  rw [List.map_map]
  refine (List.map_congr_left fun b _ => ?_).trans (List.map_id bs)
  show UInt8.ofNat (octetChar b).toNat = b
  rw [octetChar_toNat, UInt8.ofNat_toNat]

/-- Text that was decoded has the octets it was decoded from. -/
theorem encode?_of_decodeChars {e : HeaderEncoding} (he : e ≠ .utf16) {bs : List UInt8}
    {cs : List Char} (h : e.decodeChars bs = some cs) : e.encode? cs = some bs := by
  cases e with
  | utf8 => exact congrArg some (Text.Utf8.encode_of_decode h)
  | utf16Big => exact congrArg some (Text.Utf16.encode_of_decode h)
  | utf16Little => exact congrArg some (Text.Utf16.encode_of_decode h)
  | utf16 => exact absurd rfl he
  | latin1 =>
    obtain rfl := Option.some.inj h
    rw [encode?, if_pos, map_octetChar]
    refine List.all_eq_true.mpr fun c hc => ?_
    obtain ⟨b, -, rfl⟩ := List.mem_map.mp hc
    rw [octetChar_toNat]
    exact decide_eq_true b.toNat_lt
  | ascii =>
    simp only [decodeChars] at h
    split at h
    · rename_i hall
      obtain rfl := Option.some.inj h
      rw [encode?, if_pos, map_octetChar]
      refine List.all_eq_true.mpr fun c hc => ?_
      obtain ⟨b, hb, rfl⟩ := List.mem_map.mp hc
      rw [octetChar_toNat]
      exact List.all_eq_true.mp hall b hb
    · cases h

/-- No two values have the same text. -/
theorem eq_of_decodeChars {e : HeaderEncoding} (he : e ≠ .utf16) {bs bs' : List UInt8}
    {cs : List Char} (h : e.decodeChars bs = some cs) (h' : e.decodeChars bs' = some cs) : bs = bs' :=
  Option.some.inj ((encode?_of_decodeChars he h).symm.trans (encode?_of_decodeChars he h'))

theorem decodeChars_nil (e : HeaderEncoding) : e.decodeChars [] = some [] := by
  cases e <;> rfl

end HeaderEncoding
end RecordIntake
