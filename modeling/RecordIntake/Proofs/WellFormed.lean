import RecordIntake.Proofs.Decoding

/-!
Which octets are header values of an encoding, and what is read from them.  Whether octets are well
formed is said piece by piece, without the decoder: a sequence is put together of the forms that
single characters have.  Each character has one form and each form is that of one character, so the
well-formed sequences are those that some text is encoded as; and of these the decoder gives the
text back.
-/
namespace RecordIntake

/-- A sequence that is put together of pieces of one kind. -/
def PutTogether {α : Type} (kind : List α → Prop) (xs : List α) : Prop :=
  ∃ pieces : List (List α), (∀ x ∈ pieces, kind x) ∧ pieces.flatten = xs

/-- If the pieces are the forms of characters, what is put together of them is the form of a
text. -/
theorem putTogether_iff {α : Type} {kind : List α → Prop} {form : Char → List α}
    (hform : ∀ c, kind (form c)) (hkind : ∀ x, kind x → ∃ c, form c = x) {xs : List α} :
    PutTogether kind xs ↔ ∃ cs : List Char, cs.flatMap form = xs := by
  constructor
  · rintro ⟨pieces, hpieces, rfl⟩
    induction pieces with
    | nil => exact ⟨[], rfl⟩
    | cons x pieces ih =>
      obtain ⟨hx, hpieces⟩ := List.forall_mem_cons.mp hpieces
      obtain ⟨c, hc⟩ := hkind x hx
      obtain ⟨cs, hcs⟩ := ih hpieces
      exact ⟨c :: cs, by rw [List.flatMap_cons, hc, hcs, List.flatten_cons]⟩
  · rintro ⟨cs, rfl⟩
    refine ⟨cs.map form, ?_, List.flatMap_def.symm⟩
    intro x hx
    obtain ⟨c, -, rfl⟩ := List.mem_map.mp hx
    exact hform c

/-! ## UTF-8 -/

namespace Text.Utf8

/-- An octet that goes on with a character. -/
def IsTail (b : UInt8) : Prop := 0x80 ≤ b.toNat ∧ b.toNat ≤ 0xBF

/-- The octets of one character.  Behind some first octets the second one has a narrower range: a
lesser one would make the form longer than it need be, or a greater one would be that of a
surrogate or of no scalar value at all. -/
inductive IsForm : List UInt8 → Prop where
  | one {a : UInt8} (ha : a.toNat < 0x80) : IsForm [a]
  | two {a b : UInt8} (hleast : 0xC2 ≤ a.toNat) (hgreatest : a.toNat ≤ 0xDF) (hb : IsTail b) :
    IsForm [a, b]
  | three {a b c : UInt8} (hleast : 0xE0 ≤ a.toNat) (hgreatest : a.toNat ≤ 0xEF) (hb : IsTail b)
    (hc : IsTail c) (hshort : a.toNat = 0xE0 → 0xA0 ≤ b.toNat)
    (hscalar : a.toNat = 0xED → b.toNat ≤ 0x9F) : IsForm [a, b, c]
  | four {a b c d : UInt8} (hleast : 0xF0 ≤ a.toNat) (hgreatest : a.toNat ≤ 0xF4) (hb : IsTail b)
    (hc : IsTail c) (hd : IsTail d) (hshort : a.toNat = 0xF0 → 0x90 ≤ b.toNat)
    (hlast : a.toNat = 0xF4 → b.toNat ≤ 0x8F) : IsForm [a, b, c, d]

def WellFormed (bs : List UInt8) : Prop := PutTogether IsForm bs

theorem isTail_octet (n : Nat) : IsTail (UInt8.ofNat (0x80 + n % 64)) := by
  have hsix : n % 64 < 64 := Nat.mod_lt _ (by decide)
  rw [IsTail, toNat_octet (by omega)]
  omega

theorem isForm_encodeChar (c : Char) : IsForm (encodeChar c) := by
  have hvalid : c.toNat < 0xD800 ∨ 0xDFFF < c.toNat ∧ c.toNat < 0x110000 := c.valid
  unfold encodeChar
  dsimp only
  by_cases hone : c.toNat < 0x80
  · rw [if_pos hone]
    exact .one (by rwa [toNat_octet (by omega)])
  rw [if_neg hone]
  by_cases htwo : c.toNat < 0x800
  · have hfirst := toNat_octet (n := 0xC0 + c.toNat / 64) (by omega)
    rw [if_pos htwo]
    exact .two (by omega) (by omega) (isTail_octet _)
  rw [if_neg htwo]
  by_cases hthree : c.toNat < 0x10000
  · have hfirst := toNat_octet (n := 0xE0 + c.toNat / 4096) (by omega)
    have hsecond := toNat_octet (n := 0x80 + c.toNat / 64 % 64) (by omega)
    rw [if_pos hthree]
    exact .three (by omega) (by omega) (isTail_octet _) (isTail_octet _) (by omega) (by omega)
  · have hfirst := toNat_octet (n := 0xF0 + c.toNat / 262144) (by omega)
    have hsecond := toNat_octet (n := 0x80 + c.toNat / 4096 % 64) (by omega)
    rw [if_neg hthree]
    exact .four (by omega) (by omega) (isTail_octet _) (isTail_octet _) (isTail_octet _) (by omega)
      (by omega)

theorem ofNat_eq {b : UInt8} {n : Nat} (h : n = b.toNat) : UInt8.ofNat n = b := by
  rw [h, UInt8.ofNat_toNat]

/-- Each form is that of a character, whose bits are spread over the octets. -/
theorem exists_encodeChar {x : List UInt8} (h : IsForm x) : ∃ c, encodeChar c = x := by
  cases h with
  | @one a ha =>
    refine ⟨Char.ofNat a.toNat, ?_⟩
    rw [encodeChar_ofNat (Or.inl (by omega)), if_pos ha, UInt8.ofNat_toNat]
  | @two a b hleast hgreatest hb =>
    obtain ⟨hb, hb'⟩ := hb
    generalize hv : 64 * (a.toNat - 0xC0) + (b.toNat - 0x80) = v
    refine ⟨Char.ofNat v, ?_⟩
    rw [encodeChar_ofNat (Or.inl (by omega)), if_neg (by omega), if_pos (by omega),
      ofNat_eq (b := a) (by omega), ofNat_eq (b := b) (by omega)]
  | @three a b c hleast hgreatest hb hc hshort hscalar =>
    obtain ⟨hb, hb'⟩ := hb
    obtain ⟨hc, hc'⟩ := hc
    generalize hv : 4096 * (a.toNat - 0xE0) + 64 * (b.toNat - 0x80) + (c.toNat - 0x80) = v
    have hvalid : v.isValidChar := by
      show v < 0xD800 ∨ 0xDFFF < v ∧ v < 0x110000
      omega
    refine ⟨Char.ofNat v, ?_⟩
    rw [encodeChar_ofNat hvalid, if_neg (by omega), if_neg (by omega), if_pos (by omega),
      ofNat_eq (b := a) (by omega), ofNat_eq (b := b) (by omega), ofNat_eq (b := c) (by omega)]
  | @four a b c d hleast hgreatest hb hc hd hshort hlast =>
    obtain ⟨hb, hb'⟩ := hb
    obtain ⟨hc, hc'⟩ := hc
    obtain ⟨hd, hd'⟩ := hd
    generalize hv : 262144 * (a.toNat - 0xF0) + 4096 * (b.toNat - 0x80) + 64 * (c.toNat - 0x80) +
      (d.toNat - 0x80) = v
    have hvalid : v.isValidChar := by
      show v < 0xD800 ∨ 0xDFFF < v ∧ v < 0x110000
      omega
    refine ⟨Char.ofNat v, ?_⟩
    rw [encodeChar_ofNat hvalid, if_neg (by omega), if_neg (by omega), if_neg (by omega),
      ofNat_eq (b := a) (by omega), ofNat_eq (b := b) (by omega), ofNat_eq (b := c) (by omega),
      ofNat_eq (b := d) (by omega)]

theorem wellFormed_iff {bs : List UInt8} : WellFormed bs ↔ ∃ cs, encode cs = bs :=
  putTogether_iff isForm_encodeChar fun _ => exists_encodeChar

theorem decode_eq_some_iff {bs : List UInt8} {cs : List Char} :
    decode bs = some cs ↔ encode cs = bs :=
  ⟨encode_of_decode, fun h => h ▸ decode_encode cs⟩

end Text.Utf8

/-! ## UTF-16 -/

namespace Text.Utf16

variable {order : ByteOrder}

/-- The code units of one character: one that is no surrogate, or two surrogates, first a leading
and then a trailing one. -/
inductive IsForm : List Nat → Prop where
  | one {u : Nat} (hu : u < 0x10000) (hleading : ¬ isLeading u = true)
    (htrailing : ¬ isTrailing u = true) : IsForm [u]
  | two {u v : Nat} (hu : isLeading u = true) (hv : isTrailing v = true) : IsForm [u, v]

/-- Whole code units, two octets each, that are put together of characters. -/
def WellFormed (order : ByteOrder) (bs : List UInt8) : Prop :=
  ∃ us, PutTogether IsForm us ∧ us.flatMap (unitOctets order) = bs

theorem isForm_charUnits (c : Char) : IsForm (charUnits c) := by
  have hvalid : c.toNat < 0xD800 ∨ 0xDFFF < c.toNat ∧ c.toNat < 0x110000 := c.valid
  unfold charUnits
  dsimp only
  by_cases hone : c.toNat < 0x10000
  · rw [if_pos hone]
    refine .one hone ?_ ?_
    · simp only [isLeading, Bool.and_eq_true, decide_eq_true_eq]
      omega
    · simp only [isTrailing, Bool.and_eq_true, decide_eq_true_eq]
      omega
  · rw [if_neg hone]
    refine .two ?_ ?_
    · simp only [isLeading, Bool.and_eq_true, decide_eq_true_eq]
      omega
    · simp only [isTrailing, Bool.and_eq_true, decide_eq_true_eq]
      omega

theorem exists_charUnits {x : List Nat} (h : IsForm x) : ∃ c, charUnits c = x := by
  cases h with
  | one hu hleading htrailing => exact ⟨_, charUnits_ofNat hu hleading htrailing⟩
  | two hu hv => exact ⟨_, charUnits_surrogates hu hv⟩

theorem wellFormed_iff {bs : List UInt8} : WellFormed order bs ↔ ∃ cs, encode order cs = bs := by
  constructor
  · rintro ⟨us, hus, hbs⟩
    obtain ⟨cs, rfl⟩ := (putTogether_iff isForm_charUnits fun _ => exists_charUnits).mp hus
    exact ⟨cs, hbs⟩
  · rintro ⟨cs, hbs⟩
    exact ⟨_, (putTogether_iff isForm_charUnits fun _ => exists_charUnits).mpr ⟨cs, rfl⟩, hbs⟩

theorem lt_of_isForm {x : List Nat} (h : IsForm x) : ∀ u ∈ x, u < 0x10000 := by
  cases h with
  | one hu => exact List.forall_mem_singleton.mpr hu
  | two hu hv =>
    simp only [isLeading, isTrailing, Bool.and_eq_true, decide_eq_true_eq] at hu hv
    refine List.forall_mem_cons.mpr ⟨by omega, List.forall_mem_singleton.mpr (by omega)⟩

theorem unit_unitOctets (order : ByteOrder) {u : Nat} (hu : u < 0x10000) (bs : List UInt8) :
    units order (unitOctets order u ++ bs) = (units order bs).map (u :: ·) := by
  have hhigh := Text.Utf8.toNat_octet (n := u / 256) (by omega)
  have hlow := Text.Utf8.toNat_octet (n := u % 256) (by omega)
  cases order with
  | big =>
    simp only [unitOctets, List.cons_append, List.nil_append, units, unit, hhigh, hlow]
    rw [Nat.div_add_mod]
  | little =>
    simp only [unitOctets, List.cons_append, List.nil_append, units, unit, hhigh, hlow]
    rw [Nat.mod_add_div]

theorem units_flatMap (order : ByteOrder) {us : List Nat} (hus : ∀ u ∈ us, u < 0x10000) :
    units order (us.flatMap (unitOctets order)) = some us := by
  induction us with
  | nil => rfl
  | cons u us ih =>
    obtain ⟨hu, hus⟩ := List.forall_mem_cons.mp hus
    rw [List.flatMap_cons, unit_unitOctets order hu, ih hus, Option.map_some]

/-- The code units of a character are read as that character, whatever follows them. -/
theorem decodeUnits_charUnits (c : Char) (us : List Nat) :
    decodeUnits (charUnits c ++ us) = (decodeUnits us).map (c :: ·) := by
  have hvalid : c.toNat < 0xD800 ∨ 0xDFFF < c.toNat ∧ c.toNat < 0x110000 := c.valid
  unfold charUnits
  dsimp only
  by_cases hone : c.toNat < 0x10000
  · have hleading : ¬ isLeading c.toNat = true := by
      simp only [isLeading, Bool.and_eq_true, decide_eq_true_eq]
      omega
    have htrailing : ¬ isTrailing c.toNat = true := by
      simp only [isTrailing, Bool.and_eq_true, decide_eq_true_eq]
      omega
    rw [if_pos hone, List.singleton_append]
    cases us with
    | nil =>
      show decodeUnits [c.toNat] = some [c]
      rw [decodeUnits, if_neg (by simp [hleading, htrailing]), Char.ofNat_toNat]
    | cons u us => rw [decodeUnits, if_neg hleading, if_neg htrailing, Char.ofNat_toNat]
  · have hleading : isLeading (0xD800 + (c.toNat - 0x10000) / 1024) = true := by
      simp only [isLeading, Bool.and_eq_true, decide_eq_true_eq]
      omega
    have htrailing : isTrailing (0xDC00 + (c.toNat - 0x10000) % 1024) = true := by
      simp only [isTrailing, Bool.and_eq_true, decide_eq_true_eq]
      omega
    have hvalue : 0x10000 + 1024 * (0xD800 + (c.toNat - 0x10000) / 1024 - 0xD800) +
        (0xDC00 + (c.toNat - 0x10000) % 1024 - 0xDC00) = c.toNat := by
      omega
    rw [if_neg hone, List.cons_append, List.singleton_append, decodeUnits, if_pos hleading,
      if_pos htrailing, hvalue, Char.ofNat_toNat]

theorem decodeUnits_flatMap (cs : List Char) : decodeUnits (cs.flatMap charUnits) = some cs := by
  induction cs with
  | nil => rfl
  | cons c cs ih => rw [List.flatMap_cons, decodeUnits_charUnits, ih, Option.map_some]

theorem decode_encode (order : ByteOrder) (cs : List Char) :
    decode order (encode order cs) = some cs := by
  have hlt : ∀ u ∈ cs.flatMap charUnits, u < 0x10000 := by
    intro u hu
    obtain ⟨c, -, hc⟩ := List.mem_flatMap.mp hu
    exact lt_of_isForm (isForm_charUnits c) u hc
  rw [decode, encode, units_flatMap order hlt, Option.bind_some, decodeUnits_flatMap]

theorem decode_eq_some_iff {bs : List UInt8} {cs : List Char} :
    decode order bs = some cs ↔ encode order cs = bs :=
  ⟨encode_of_decode, fun h => h ▸ decode_encode order cs⟩

end Text.Utf16

/-! ## Header values -/

namespace HeaderEncoding

/-- The byte order that a mark in front of the octets gives, and the octets behind the mark. -/
def marked : List UInt8 → Text.Utf16.ByteOrder × List UInt8
  | 0xFE :: 0xFF :: bs => (.big, bs)
  | 0xFF :: 0xFE :: bs => (.little, bs)
  | bs => (.big, bs)

def WellFormed : HeaderEncoding → List UInt8 → Prop
  | .utf8, bs => Text.Utf8.WellFormed bs
  | .utf16Big, bs => Text.Utf16.WellFormed .big bs
  | .utf16Little, bs => Text.Utf16.WellFormed .little bs
  | .utf16, bs => Text.Utf16.WellFormed (marked bs).1 (marked bs).2
  | .latin1, _ => True
  | .ascii, bs => ∀ b ∈ bs, b.toNat < 0x80

/-- Whether the encoding has octets for a character. -/
def Represents : HeaderEncoding → Char → Prop
  | .latin1, c => c.toNat < 0x100
  | .ascii, c => c.toNat < 0x80
  | _, _ => True

variable {e : HeaderEncoding} {bs : List UInt8} {cs : List Char}

theorem decodeChars_utf16 (bs : List UInt8) :
    utf16.decodeChars bs = Text.Utf16.decode (marked bs).1 (marked bs).2 := by
  unfold marked
  split
  · rfl
  · rfl
  · rename_i hbig hlittle
    rw [decodeChars]
    · exact hbig
    · exact hlittle

theorem decode_eq_ok_iff {s : String} : e.decode bs = .ok s ↔ e.decodeChars bs = some s.toList := by
  unfold decode
  cases e.decodeChars bs with
  | none => exact ⟨fun h => (nomatch h), fun h => (nomatch h)⟩
  | some cs =>
    show Except.ok (String.ofList cs) = Except.ok s ↔ _
    constructor
    · intro h
      rw [← Except.ok.inj h, String.toList_ofList]
    · intro h
      rw [Option.some.inj h, String.ofList_toList]

theorem decode_eq_error (h : e.decodeChars bs = none) : e.decode bs = .error (.malformed e.name) := by
  rw [decode, h]

theorem toOption_decode (e : HeaderEncoding) (bs : List UInt8) :
    (e.decode bs).toOption = (e.decodeChars bs).map String.ofList := by
  unfold decode
  cases e.decodeChars bs <;> rfl

theorem exists_encode?_iff : (∃ bs, e.encode? cs = some bs) ↔ ∀ c ∈ cs, e.Represents c := by
  have hsome : ∀ (p : Char → Bool) (bs : List UInt8),
      (∃ bs', (if cs.all p then some bs else none) = some bs') ↔ ∀ c ∈ cs, p c = true := by
    intro p bs
    rw [← List.all_eq_true]
    by_cases hall : cs.all p = true
    · simp [hall]
    · simp [hall]
  cases e with
  | latin1 => exact (hsome _ _).trans (forall₂_congr fun c _ => decide_eq_true_iff)
  | ascii => exact (hsome _ _).trans (forall₂_congr fun c _ => decide_eq_true_iff)
  | utf8 => exact ⟨fun _ _ _ => trivial, fun _ => ⟨_, rfl⟩⟩
  | utf16Big => exact ⟨fun _ _ _ => trivial, fun _ => ⟨_, rfl⟩⟩
  | utf16Little => exact ⟨fun _ _ _ => trivial, fun _ => ⟨_, rfl⟩⟩
  | utf16 => exact ⟨fun _ _ _ => trivial, fun _ => ⟨_, rfl⟩⟩

theorem map_toNat_octetChar (h : ∀ c ∈ cs, c.toNat < 0x100) :
    (cs.map fun c => UInt8.ofNat c.toNat).map octetChar = cs := by
  rw [List.map_map]
  refine (List.map_congr_left fun c hc => ?_).trans (List.map_id cs)
  show Char.ofNat (UInt8.ofNat c.toNat).toNat = c
  rw [Text.Utf8.toNat_octet (h c hc), Char.ofNat_toNat]

/-- Text that was encoded is read from its octets. -/
theorem decodeChars_of_encode? (h : e.encode? cs = some bs) : e.decodeChars bs = some cs := by
  have hrepresents := exists_encode?_iff.mp ⟨bs, h⟩
  cases e with
  | utf8 =>
    obtain rfl := Option.some.inj h
    exact Text.Utf8.decode_encode cs
  | utf16Big =>
    obtain rfl := Option.some.inj h
    exact Text.Utf16.decode_encode .big cs
  | utf16Little =>
    obtain rfl := Option.some.inj h
    exact Text.Utf16.decode_encode .little cs
  | utf16 =>
    obtain rfl := Option.some.inj h
    exact Text.Utf16.decode_encode .big cs
  | latin1 =>
    simp only [encode?] at h
    split at h
    · obtain rfl := Option.some.inj h
      exact congrArg some (map_toNat_octetChar hrepresents)
    · cases h
  | ascii =>
    simp only [encode?] at h
    split at h
    · obtain rfl := Option.some.inj h
      have hlow : ∀ c ∈ cs, c.toNat < 0x80 := hrepresents
      rw [decodeChars, if_pos, map_toNat_octetChar fun c hc => by have := hlow c hc; omega]
      refine List.all_eq_true.mpr fun b hb => ?_
      obtain ⟨c, hc, rfl⟩ := List.mem_map.mp hb
      have hc := hlow c hc
      refine decide_eq_true (UInt8.lt_iff_toNat_lt.mpr ?_)
      rw [Text.Utf8.toNat_octet (by omega)]
      exact hc
    · cases h

/-- Octets can be read if and only if they are well formed. -/
theorem exists_decodeChars_iff : (∃ cs, e.decodeChars bs = some cs) ↔ e.WellFormed bs := by
  cases e with
  | utf8 =>
    exact (exists_congr fun _ => Text.Utf8.decode_eq_some_iff).trans Text.Utf8.wellFormed_iff.symm
  | utf16Big =>
    exact (exists_congr fun _ => Text.Utf16.decode_eq_some_iff).trans
      Text.Utf16.wellFormed_iff.symm
  | utf16Little =>
    exact (exists_congr fun _ => Text.Utf16.decode_eq_some_iff).trans
      Text.Utf16.wellFormed_iff.symm
  | utf16 =>
    rw [decodeChars_utf16]
    exact (exists_congr fun _ => Text.Utf16.decode_eq_some_iff).trans
      Text.Utf16.wellFormed_iff.symm
  | latin1 => exact ⟨fun _ => trivial, fun _ => ⟨_, rfl⟩⟩
  | ascii =>
    have hlow : bs.all (· < 128) = true ↔ ∀ b ∈ bs, b.toNat < 0x80 := by
      rw [List.all_eq_true]
      exact forall₂_congr fun b _ => decide_eq_true_iff.trans UInt8.lt_iff_toNat_lt
    show (∃ cs, (if bs.all (· < 128) then _ else _) = some cs) ↔ ∀ b ∈ bs, b.toNat < 0x80
    rw [← hlow]
    by_cases hall : bs.all (· < 128) = true
    · rw [if_pos hall]
      exact ⟨fun _ => hall, fun _ => ⟨_, rfl⟩⟩
    · rw [if_neg hall]
      exact ⟨fun ⟨_, h⟩ => (nomatch h), fun h => absurd h hall⟩

theorem decode_of_not_wellFormed (h : ¬ e.WellFormed bs) :
    e.decode bs = .error (.malformed e.name) := by
  cases hread : e.decodeChars bs with
  | none => exact decode_eq_error hread
  | some cs => exact absurd (exists_decodeChars_iff.mp ⟨cs, hread⟩) h

/-- What reading header values loses and what it refuses.  Text that an encoding has octets for
is read back from them.  Octets are read if and only if they are well formed, and all others are
malformed.  Under every encoding but UTF-16 with its optional byte order mark, the text that was
read has the octets it was read from, so different octets have different texts.  Under UTF-16 a
mark gives the byte order of the octets behind it, and without one they are big-endian. -/
theorem header_values_read_back :
    (∀ e : HeaderEncoding,
      (∀ s : String, (∃ bs, e.encode? s.toList = some bs) ↔ ∀ c ∈ s.toList, e.Represents c) ∧
      (∀ (s : String) bs, e.encode? s.toList = some bs → e.decode bs = .ok s) ∧
      (∀ bs, (∃ s, e.decode bs = .ok s) ↔ e.WellFormed bs) ∧
      (∀ bs, ¬ e.WellFormed bs → e.decode bs = .error (.malformed e.name)) ∧
      (e ≠ .utf16 → ∀ bs s, e.decode bs = .ok s → e.encode? s.toList = some bs) ∧
      (e ≠ .utf16 → ∀ bs bs' s, e.decode bs = .ok s → e.decode bs' = .ok s → bs = bs')) ∧
    ∀ bs : List UInt8,
      (utf16.decode (0xFE :: 0xFF :: bs)).toOption = (utf16Big.decode bs).toOption ∧
      (utf16.decode (0xFF :: 0xFE :: bs)).toOption = (utf16Little.decode bs).toOption ∧
      (¬ [0xFE, 0xFF] <+: bs → ¬ [0xFF, 0xFE] <+: bs →
        (utf16.decode bs).toOption = (utf16Big.decode bs).toOption) := by
  refine ⟨fun e => ⟨fun s => exists_encode?_iff, fun s bs h => ?_, fun bs => ?_,
    fun bs => decode_of_not_wellFormed, fun he bs s h => ?_, fun he bs bs' s h h' => ?_⟩,
    fun bs => ⟨?_, ?_, fun hbig hlittle => ?_⟩⟩
  · exact decode_eq_ok_iff.mpr (decodeChars_of_encode? h)
  · rw [← exists_decodeChars_iff]
    constructor
    · rintro ⟨s, hs⟩
      exact ⟨s.toList, decode_eq_ok_iff.mp hs⟩
    · rintro ⟨cs, hcs⟩
      refine ⟨String.ofList cs, decode_eq_ok_iff.mpr ?_⟩
      rw [hcs, String.toList_ofList]
  · exact encode?_of_decodeChars he (decode_eq_ok_iff.mp h)
  · exact eq_of_decodeChars he (decode_eq_ok_iff.mp h) (decode_eq_ok_iff.mp h')
  · rw [toOption_decode, toOption_decode]
    rfl
  · rw [toOption_decode, toOption_decode]
    rfl
  · have hmark : marked bs = (.big, bs) := by
      unfold marked
      split
      · exact absurd ⟨_, rfl⟩ hbig
      · exact absurd ⟨_, rfl⟩ hlittle
      · rfl
    rw [toOption_decode, toOption_decode, decodeChars_utf16, hmark]
    rfl

/-- Half a code unit, a leading surrogate with a letter behind it, a form that is too long, one that
breaks off, that of a surrogate, and an octet that is not ASCII. -/
def malformedValues : List (HeaderEncoding × List UInt8) :=
  [(.utf16Big, [0x00, 0x68, 0x00]), (.utf16Little, [0x3D, 0xD8, 0x61, 0x00]), (.utf8, [0xC0, 0x80]),
    (.utf8, [0xE2, 0x82]), (.utf8, [0xED, 0xA0, 0x80]), (.ascii, [0x63, 0xE9])]

theorem header_values_read_back_awkward :
    utf8.decode [0xC3, 0xA9, 0xE2, 0x82, 0xAC, 0xF0, 0x9F, 0x98, 0x80] = .ok "é€😀" ∧
      utf8.encode? "é€😀".toList = some [0xC3, 0xA9, 0xE2, 0x82, 0xAC, 0xF0, 0x9F, 0x98, 0x80] ∧
      (∀ x ∈ malformedValues,
        ¬ x.1.WellFormed x.2 ∧ x.1.decode x.2 = .error (.malformed x.1.name)) ∧
      (utf16.decode [0x00, 0x68]).toOption = (utf16Big.decode [0x00, 0x68]).toOption := by
  have hencode : utf8.encode? "é€😀".toList =
      some [0xC3, 0xA9, 0xE2, 0x82, 0xAC, 0xF0, 0x9F, 0x98, 0x80] := by decide +kernel
  have hnone : ∀ x ∈ malformedValues, x.1.decodeChars x.2 = none := by decide +kernel
  have hdecode := (header_values_read_back.1 utf8).2.1 _ _ hencode
  refine ⟨hdecode, (header_values_read_back.1 utf8).2.2.2.2.1 (by decide) _ _ hdecode, ?_, ?_⟩
  · intro x hx
    have hnot : ¬ x.1.WellFormed x.2 := by
      intro hx'
      obtain ⟨cs, hcs⟩ := exists_decodeChars_iff.mpr hx'
      rw [hnone x hx] at hcs
      exact nomatch hcs
    exact ⟨hnot, (header_values_read_back.1 x.1).2.2.2.1 x.2 hnot⟩
  · exact (header_values_read_back.2 _).2.2 (by decide) (by decide)

end HeaderEncoding
end RecordIntake
