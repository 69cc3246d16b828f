import RecordIntake.Json.Printer
import RecordIntake.Json.Reader
import RecordIntake.Proofs.Decoding
import RecordIntake.Proofs.Schema

/-!
The strings and the integers of a JSON text are read as they were written.  A string is followed
character by character, each of which the reader finds again behind its escape, and an integer digit
by digit.  An integer has no end of its own, so it is read in front of what may follow a value.
-/
namespace RecordIntake.Json

open Reader
open Text.Utf8 (encode encodeChar encode_append toNat_of_mem_encodeChar)

/-! ## Strings -/

/-- An octet that stands for itself in a string. -/
structure IsPlain (b : UInt8) : Prop where
  quote : b ≠ 34
  backslash : b ≠ 92
  control : ¬ b < 32

theorem stringOctets_plain {b : UInt8} (h : IsPlain b) (acc s : List UInt8) :
    stringOctets acc (b :: s) = stringOctets (b :: acc) s := by
  rw [stringOctets]
  · exact if_neg h.control
  all_goals simp [h.quote, h.backslash]

theorem stringOctets_append {bs : List UInt8} (h : ∀ b ∈ bs, IsPlain b) (acc s : List UInt8) :
    stringOctets acc (bs ++ s) = stringOctets (bs.reverse ++ acc) s := by
  induction bs generalizing acc with
  | nil => rfl
  | cons b bs ih =>
    rw [List.cons_append, stringOctets_plain (h b List.mem_cons_self),
      ih (fun b' hb' => h b' (List.mem_cons_of_mem b hb')), List.reverse_cons, List.append_assoc]
    rfl

/-- A character that needs no escape is written as it is. -/
theorem isPlain_of_mem_encodeChar {c : Char} (hquote : c ≠ '"') (hbackslash : c ≠ '\\')
    (hcontrol : 32 ≤ c.toNat) {b : UInt8} (hb : b ∈ encodeChar c) : IsPlain b := by
  have hcode : ∀ d : Char, c ≠ d → c.toNat ≠ d.toNat := fun d hd heq => hd (Char.toNat_inj.mp heq)
  have hquote : c.toNat ≠ 34 := hcode '"' hquote
  have hbackslash : c.toNat ≠ 92 := hcode '\\' hbackslash
  have hoctet := toNat_of_mem_encodeChar hb
  refine ⟨?_, ?_, ?_⟩
  · rintro rfl
    have : (34 : UInt8).toNat = 34 := rfl
    omega
  · rintro rfl
    have : (92 : UInt8).toNat = 92 := rfl
    omega
  · intro hlt
    have : b.toNat < 32 := UInt8.lt_iff_toNat_lt.mp hlt
    omega

/-- The hexadecimal escape of a control character. -/
theorem stringOctets_hex {n : Nat} (h : n < 32) (acc s : List UInt8) :
    stringOctets acc
        (encode ['\\', 'u', '0', '0', Text.Hex.digit (n / 16), Text.Hex.digit (n % 16)] ++ s) =
      stringOctets ((encodeChar (Char.ofNat n)).reverse ++ acc) s := by
  have hdigits : ∀ m : Fin 32,
      encode ['\\', 'u', '0', '0', Text.Hex.digit (m / 16), Text.Hex.digit (m % 16)] =
        [92, 117, 48, 48, UInt8.ofNat (Text.Hex.digit (m / 16)).toNat,
          UInt8.ofNat (Text.Hex.digit (m % 16)).toNat] ∧
      hex4? 48 48 (UInt8.ofNat (Text.Hex.digit (m / 16)).toNat)
        (UInt8.ofNat (Text.Hex.digit (m % 16)).toNat) = some m.val := by decide
  obtain ⟨hoctets, hvalue⟩ := hdigits ⟨n, h⟩
  have htrailing : isTrailingSurrogate n = false := by
    simp only [isTrailingSurrogate, Bool.and_eq_false_iff, decide_eq_false_iff_not]
    omega
  have hleading : isLeadingSurrogate n = false := by
    simp only [isLeadingSurrogate, Bool.and_eq_false_iff, decide_eq_false_iff_not]
    omega
  rw [hoctets]
  simp only [List.cons_append, List.nil_append]
  rw [stringOctets, hvalue]
  simp only [htrailing, hleading, Bool.false_eq_true, if_false]

/-- Each character is read as it was written. -/
theorem stringOctets_escapeChar (c : Char) (acc s : List UInt8) :
    stringOctets acc (encode (escapeChar c) ++ s) =
      stringOctets ((encodeChar c).reverse ++ acc) s := by
  unfold escapeChar
  have hofNat : ∀ n, c.toNat = n → c = Char.ofNat n := by
    rintro n rfl
    exact (Char.ofNat_toNat c).symm
  split
  · rename_i hc
    rw [hc]
    rfl
  split
  · rename_i hc
    rw [hc]
    rfl
  rename_i hquote hbackslash
  dsimp only
  split
  · rename_i hc
    rw [hofNat 8 hc]
    rfl
  split
  · rename_i hc
    rw [hofNat 9 hc]
    rfl
  split
  · rename_i hc
    rw [hofNat 10 hc]
    rfl
  split
  · rename_i hc
    rw [hofNat 12 hc]
    rfl
  split
  · rename_i hc
    rw [hofNat 13 hc]
    rfl
  split
  · rename_i hc
    rw [stringOctets_hex hc, Char.ofNat_toNat]
  · rename_i hc
    rw [encode, List.flatMap_singleton]
    exact stringOctets_append
      (fun b hb => isPlain_of_mem_encodeChar hquote hbackslash (by omega) hb) acc s

theorem stringOctets_escaped (cs : List Char) (acc rest : List UInt8) :
    stringOctets acc (encode (cs.flatMap escapeChar) ++ 34 :: rest) =
      .ok (acc.reverse ++ encode cs, rest) := by
  induction cs generalizing acc with
  | nil =>
    rw [show encode ([].flatMap escapeChar) = [] from rfl, show encode [] = [] from rfl,
      List.append_nil]
    rfl
  | cons c cs ih =>
    rw [List.flatMap_cons, encode_append, List.append_assoc, stringOctets_escapeChar, ih,
      List.reverse_append, List.reverse_reverse, List.append_assoc]
    rfl

/-- A string is read as it was written. -/
theorem string_stringChars (s : String) (rest : List UInt8) :
    ∃ body, encode (stringChars s) ++ rest = 34 :: body ∧ Reader.string body = .ok (s, rest) := by
  refine ⟨encode (s.toList.flatMap escapeChar) ++ 34 :: rest, ?_, ?_⟩
  · rw [stringChars, encode_append]
    show 34 :: (encode (s.toList.flatMap escapeChar) ++ [34]) ++ rest = _
    simp
  · have htext : Text.Utf8.text (encode s.toList) = some s := Text.Utf8.text_octets s
    rw [Reader.string, stringOctets_escaped]
    dsimp only
    rw [List.reverse_nil, List.nil_append, htext]

/-! ## Numbers -/

/-- Of a text after a value: it ends there, or goes on with what may follow a value in a
container. -/
def Ends : List UInt8 → Prop
  | [] => True
  | b :: _ => b = 44 ∨ b = 93 ∨ b = 125

/-- The number that some digits make when they are put behind a number. -/
def digitsValue (m : Nat) (ds : List UInt8) : Nat := ds.foldl (fun m b => 10 * m + digitValue b) m

theorem le_digitsValue (m : Nat) (ds : List UInt8) : m ≤ digitsValue m ds := by
  induction ds generalizing m with
  | nil => exact Nat.le_refl m
  | cons b ds ih =>
    have hfirst := ih (10 * m + digitValue b)
    show m ≤ digitsValue (10 * m + digitValue b) ds
    omega

/-- Digits are gathered one after the other as long as they fit. -/
theorem integerDigits_append (negative : Bool) {ds : List UInt8}
    (hds : ∀ b ∈ ds, isDigit b = true) {m : Nat} (hm : digitsValue m ds < significandLimit)
    (s : List UInt8) :
    integerDigits negative m (ds ++ s) = integerDigits negative (digitsValue m ds) s := by
  induction ds generalizing m with
  | nil => rfl
  | cons b ds ih =>
    have hfits : 10 * m + digitValue b < significandLimit :=
      Nat.lt_of_le_of_lt (le_digitsValue _ ds) hm
    rw [List.cons_append, integerDigits, if_pos (hds b List.mem_cons_self)]
    dsimp only
    rw [if_pos hfits]
    exact ih (fun b' hb' => hds b' (List.mem_cons_of_mem b hb')) hm

theorem integerDigits_ends (negative : Bool) (m : Nat) {rest : List UInt8} (hrest : Ends rest) :
    integerDigits negative m rest = afterInteger negative m rest := by
  cases rest with
  | nil => rfl
  | cons b rest =>
    rw [integerDigits]
    rcases hrest with rfl | rfl | rfl <;> rfl

/-- What a number comes to that ends after its integer digits. -/
theorem afterInteger_ends (negative : Bool) (m : Nat) {rest : List UInt8} (hrest : Ends rest) :
    afterInteger negative m rest =
      if negative then
        if 0 < m && m ≤ .pow 2 63 then .ok (.integer (-(m : Int)), rest)
        else .ok (.double ((Binary64.ofNat m).withSign true), rest)
      else .ok (.integer m, rest) := by
  cases rest with
  | nil => rfl
  | cons b rest => rcases hrest with rfl | rfl | rfl <;> rfl

theorem encode_digitChar {d : Nat} (h : d < 10) :
    encode [Nat.digitChar d] = [UInt8.ofNat (48 + d)] := by
  have hall : ∀ k : Fin 10, encode [Nat.digitChar k] = [UInt8.ofNat (48 + k.val)] := by decide
  exact hall ⟨d, h⟩

theorem isDigit_octet {d : Nat} (h : d < 10) :
    isDigit (UInt8.ofNat (48 + d)) = true ∧ digitValue (UInt8.ofNat (48 + d)) = d := by
  have hall : ∀ k : Fin 10, isDigit (UInt8.ofNat (48 + k.val)) = true ∧
    digitValue (UInt8.ofNat (48 + k.val)) = k.val := by decide
  exact hall ⟨d, h⟩

/-- Digits that make a number, and do not begin with a zero unless that is all of it. -/
structure Spells (ds : List UInt8) (n : Nat) : Prop where
  digits : ∀ b ∈ ds, isDigit b = true
  value : digitsValue 0 ds = n
  first : ∃ b bs, ds = b :: bs ∧ (0 < n → b ≠ 48)

theorem spells_digit {d : Nat} (h : d < 10) : Spells [UInt8.ofNat (48 + d)] d := by
  obtain ⟨hdigit, hvalue⟩ := isDigit_octet h
  refine ⟨?_, ?_, _, [], rfl, ?_⟩
  · intro b hb
    rw [List.mem_singleton.mp hb]
    exact hdigit
  · show 10 * 0 + digitValue _ = d
    omega
  · intro hpos hzero
    rw [hzero] at hvalue
    have : digitValue 48 = 0 := rfl
    omega

theorem Spells.append {ds : List UInt8} {n d : Nat} (h : Spells ds n) (hn : 0 < n) (hd : d < 10) :
    Spells (ds ++ [UInt8.ofNat (48 + d)]) (10 * n + d) := by
  obtain ⟨hdigit, hvalue⟩ := isDigit_octet hd
  obtain ⟨b, bs, rfl, hb⟩ := h.first
  refine ⟨?_, ?_, b, bs ++ _, rfl, fun _ => hb hn⟩
  · intro b' hb'
    rcases List.mem_append.mp hb' with hb' | hb'
    · exact h.digits b' hb'
    · rw [List.mem_singleton.mp hb']
      exact hdigit
  · rw [digitsValue, List.foldl_append]
    show 10 * digitsValue 0 (b :: bs) + digitValue _ = _
    rw [h.value, hvalue]

theorem spells_toDigits (n : Nat) : Spells (encode (Nat.toDigits 10 n)) n := by
  induction n using Nat.strongRecOn with
  | ind n ih =>
    by_cases hsmall : n < 10
    · rw [Nat.toDigits_of_lt_base hsmall, encode_digitChar hsmall]
      exact spells_digit hsmall
    · have hlast : n % 10 < 10 := Nat.mod_lt n (by decide)
      have hall := (ih (n / 10) (by omega)).append (by omega) hlast
      rw [Nat.div_add_mod] at hall
      rw [Nat.toDigits_of_base_le (by decide) (by omega), encode_append, encode_digitChar hlast]
      exact hall

theorem Spells.nonempty {ds : List UInt8} {n : Nat} (h : Spells ds n) :
    ∃ b bs, ds = b :: bs ∧ isDigit b = true := by
  obtain ⟨b, bs, rfl, -⟩ := h.first
  exact ⟨b, bs, rfl, h.digits b List.mem_cons_self⟩

theorem number_digit {negative : Bool} {b : UInt8} (hdigit : isDigit b = true) (hb : b ≠ 48)
    (s : List UInt8) : number negative (b :: s) = integerDigits negative 0 (b :: s) := by
  have hfits : 10 * 0 + digitValue b < significandLimit := by
    have hlt := b.toNat_lt
    show 10 * 0 + (b.toNat - 48) < 2 ^ 64
    omega
  rw [integerDigits, if_pos hdigit]
  dsimp only
  rw [if_pos hfits, number]
  · rw [if_pos hdigit, Nat.mul_zero, Nat.zero_add]
  · simpa using hb

/-- A number is read as it was written, if it fits. -/
theorem number_toDigits (negative : Bool) {n : Nat} (hn : n < significandLimit) {rest : List UInt8}
    (hrest : Ends rest) :
    number negative (encode (Nat.toDigits 10 n) ++ rest) = afterInteger negative n rest := by
  by_cases hzero : n = 0
  · subst hzero
    show number negative (48 :: rest) = _
    cases rest with
    | nil => rfl
    | cons b rest => rcases hrest with rfl | rfl | rfl <;> rfl
  · have hspells := spells_toDigits n
    obtain ⟨b, bs, hbs, hb⟩ := hspells.first
    have hdigit : isDigit b = true := hspells.digits b (by rw [hbs]; exact List.mem_cons_self)
    have hfits : digitsValue 0 (encode (Nat.toDigits 10 n)) < significandLimit := by
      rw [hspells.value]
      exact hn
    have hwhole := integerDigits_append negative hspells.digits hfits rest
    rw [hspells.value, integerDigits_ends negative n hrest] at hwhole
    rw [← hwhole, hbs, List.cons_append, number_digit hdigit (hb (by omega))]

end RecordIntake.Json
