import Mathlib.Algebra.Group.Int.Defs
import Mathlib.Data.List.DropRight
import RecordIntake.Proofs.Tokens

/-!
A JSON value that is written is read back.  Arrays and objects are put together from their parts:
where the reader finds each part in front of what follows it, it finds the whole.  The fields of an
object come back in the order of their names, whatever order they were written in.
-/
namespace RecordIntake.Json

open Reader
open Text.Utf8 (encode encode_append)

/-! ## Values -/

theorem skipSpace_cons {b : UInt8} (h : isSpace b = false) (s : List UInt8) :
    skipSpace (b :: s) = b :: s :=
  List.dropWhile_cons_of_neg (by rw [h]; exact Bool.false_ne_true)

theorem value_skipSpace (d : Nat) (s : List UInt8) : value d (skipSpace s) = value d s := by
  have htwice : skipSpace (skipSpace s) = skipSpace s := List.dropWhile_idempotent isSpace s
  rw [value, htwice, ← value]

/-- What is read as a value begins with something that does not end an array. -/
theorem skipSpace_of_value {d : Nat} {s : List UInt8} {x : Value × List UInt8}
    (h : value d s = .ok x) :
    ∃ b s', skipSpace s = b :: s' ∧ b ≠ 93 ∧ value d (b :: s') = .ok x := by
  rw [← value_skipSpace] at h
  cases hs : skipSpace s with
  | nil =>
    rw [hs, value] at h
    cases h
  | cons b s' =>
    rw [hs] at h
    refine ⟨b, s', rfl, ?_, h⟩
    rintro rfl
    rw [value] at h
    cases h

theorem value_digit (d : Nat) {b : UInt8} (hb : isDigit b = true) (s : List UInt8) :
    value d (b :: s) = number false (b :: s) := by
  have hspace : isSpace b = false := by
    by_contra hspace
    have hspace := eq_true_of_ne_false hspace
    simp only [isSpace, Bool.or_eq_true, beq_iff_eq] at hspace
    rcases hspace with ((rfl | rfl) | rfl) | rfl <;> cases hb
  rw [value, skipSpace_cons hspace]
  split
  all_goals rename_i heq
  · cases heq
  all_goals try (obtain ⟨rfl, -⟩ := List.cons.inj heq; cases hb)
  obtain ⟨rfl, rfl⟩ := List.cons.inj heq
  exact if_pos hb

theorem value_quote (d : Nat) (s : List UInt8) :
    value d (34 :: s) =
      match Reader.string s with
      | .error f => .error f
      | .ok (t, s) => .ok (.string t, s) := by
  rw [value]
  rfl

theorem value_bracket (d : Nat) (s : List UInt8) :
    value (d + 1) (91 :: s) =
      match items (value d) [] (s.length + 1) true s with
      | .error f => .error f
      | .ok (vs, s) => .ok (.array vs, s) := by
  rw [value]
  rfl

theorem value_brace (d : Nat) (s : List UInt8) :
    value (d + 1) (123 :: s) =
      match members (value d) [] (s.length + 1) true s with
      | .error f => .error f
      | .ok (fs, s) => .ok (.object fs, s) := by
  rw [value]
  rfl

/-- A written value is read as another one, whatever follows it. -/
def Reads (d : Nat) (v v' : Value) : Prop :=
  ∀ rest, Ends rest → value d (encode v.chars ++ rest) = .ok (v', rest)

theorem Reads.length_pos {d : Nat} {v v' : Value} (h : Reads d v v') :
    0 < (encode v.chars).length := by
  have hread := h [] trivial
  rw [List.append_nil] at hread
  cases hchars : encode v.chars with
  | nil =>
    rw [hchars, value] at hread
    cases hread
  | cons b bs => exact Nat.succ_pos _

theorem reads_null (d : Nat) : Reads d .null .null := by
  intro rest _
  show value d (110 :: 117 :: 108 :: 108 :: rest) = _
  rw [value]
  rfl

theorem reads_boolean (d : Nat) (b : Bool) : Reads d (.boolean b) (.boolean b) := by
  intro rest _
  cases b with
  | true =>
    show value d (116 :: 114 :: 117 :: 101 :: rest) = _
    rw [value]
    rfl
  | false =>
    show value d (102 :: 97 :: 108 :: 115 :: 101 :: rest) = _
    rw [value]
    rfl

theorem reads_string (d : Nat) (s : String) : Reads d (.string s) (.string s) := by
  intro rest _
  obtain ⟨body, hbody, hstring⟩ := string_stringChars s rest
  rw [Value.chars, hbody, value_quote, hstring]

/-- The integers that are written and read as such. -/
structure IsInteger (n : Int) : Prop where
  least : -2 ^ 63 ≤ n
  greatest : n < 2 ^ 64

theorem reads_integer (d : Nat) {n : Int} (h : IsInteger n) :
    Reads d (.integer n) (.integer n) := by
  intro rest hrest
  have hleast := h.least
  have hgreatest := h.greatest
  have hlimit : n.natAbs < significandLimit := by
    show n.natAbs < 2 ^ 64
    omega
  by_cases hneg : n < 0
  · have hfits : (0 < n.natAbs && n.natAbs ≤ .pow 2 63) = true := by
      rw [Bool.and_eq_true, decide_eq_true_eq, decide_eq_true_eq]
      show 0 < n.natAbs ∧ n.natAbs ≤ 2 ^ 63
      omega
    rw [Value.chars, integerChars, if_pos hneg]
    show value d (45 :: (encode (Nat.toDigits 10 n.natAbs) ++ rest)) = _
    rw [value]
    show number true (encode (Nat.toDigits 10 n.natAbs) ++ rest) = _
    rw [number_toDigits true hlimit hrest, afterInteger_ends true _ hrest, if_pos rfl, if_pos hfits,
      show -(n.natAbs : Int) = n by omega]
  · have hspells := spells_toDigits n.natAbs
    have hnumber := number_toDigits false hlimit hrest
    rw [Value.chars, integerChars, if_neg hneg]
    obtain ⟨b, bs, hbs, hdigit⟩ := hspells.nonempty
    rw [hbs] at hnumber
    rw [hbs, List.cons_append, value_digit d hdigit, ← List.cons_append, hnumber,
      afterInteger_ends false _ hrest, if_neg Bool.false_ne_true,
      show (n.natAbs : Int) = n by omega]

/-! ## Containers -/

section

variable {d : Nat} {s rest : List UInt8} {v : Value}

theorem items_first (h : value d s = .ok (v, rest)) (acc : List Value) (steps : Nat) :
    items (value d) acc (steps + 1) true s = items (value d) (v :: acc) steps false rest := by
  obtain ⟨b, s', hs, hb, hvalue⟩ := skipSpace_of_value h
  rw [items, hs]
  split
  · rename_i heq
    cases heq
  · rename_i heq
    cases heq
    exact absurd rfl hb
  · rename_i heq
    cases heq
    rw [if_pos rfl, hvalue]

theorem items_comma (item : List UInt8 → Reading Value) (acc : List Value) (steps : Nat)
    (s : List UInt8) :
    items item acc (steps + 1) false (44 :: s) =
      match skipSpace s with
      | [] => .error (.ahead .endInValue [])
      | 93 :: s => .error (.ahead .trailingComma (93 :: s))
      | s => match item s with
        | .error f => .error f
        | .ok (v, s) => items item (v :: acc) steps false s := by
  rw [items, skipSpace_cons rfl]
  rfl

theorem items_next (h : value d s = .ok (v, rest)) (acc : List Value) (steps : Nat) :
    items (value d) acc (steps + 1) false (44 :: s) =
      items (value d) (v :: acc) steps false rest := by
  obtain ⟨b, s', hs, hb, hvalue⟩ := skipSpace_of_value h
  rw [items_comma, hs]
  split
  · rename_i heq
    cases heq
  · rename_i heq
    cases heq
    exact absurd rfl hb
  · rw [hvalue]

theorem ends_moreItems (vs : List Value) (rest : List UInt8) :
    Ends (encode (moreItemsChars vs) ++ 93 :: rest) := by
  cases vs with
  | nil => exact .inr (.inl rfl)
  | cons v vs => exact .inl rfl

theorem items_more {vs vs' : List Value} (h : List.Forall₂ (Reads d) vs vs') (acc : List Value)
    {steps : Nat} (rest : List UInt8)
    (hsteps : (encode (moreItemsChars vs) ++ 93 :: rest).length < steps) :
    items (value d) acc steps false (encode (moreItemsChars vs) ++ 93 :: rest) =
      .ok (acc.reverse ++ vs', rest) := by
  induction h generalizing acc steps with
  | nil =>
    cases steps with
    | zero => cases hsteps
    | succ steps =>
      rw [List.append_nil]
      rfl
  | @cons v v' vs vs' hv _ ih =>
    have hshape : encode (moreItemsChars (v :: vs)) ++ 93 :: rest =
        44 :: (encode v.chars ++ (encode (moreItemsChars vs) ++ 93 :: rest)) := by
      rw [moreItemsChars, encode_append, List.append_assoc]
      rfl
    rw [hshape] at hsteps ⊢
    cases steps with
    | zero => cases hsteps
    | succ steps =>
      rw [List.length_cons, List.length_append] at hsteps
      rw [items_next (hv _ (ends_moreItems vs rest)), ih (v' :: acc) (by omega), List.reverse_cons,
        List.append_assoc]
      rfl

theorem items_itemsChars {vs vs' : List Value} (h : List.Forall₂ (Reads d) vs vs')
    {steps : Nat} (rest : List UInt8)
    (hsteps : (encode (itemsChars vs) ++ 93 :: rest).length < steps) :
    items (value d) [] steps true (encode (itemsChars vs) ++ 93 :: rest) = .ok (vs', rest) := by
  cases steps with
  | zero => cases hsteps
  | succ steps =>
    cases h with
    | nil => rfl
    | @cons v v' vs vs' hv hvs =>
      rw [itemsChars, encode_append, List.append_assoc] at hsteps ⊢
      rw [List.length_append] at hsteps
      have hitem := hv _ (ends_moreItems vs rest)
      have hlength := hv.length_pos
      rw [items_first hitem, items_more hvs [v'] rest (by omega)]
      rfl

theorem reads_array {vs vs' : List Value} (h : List.Forall₂ (Reads d) vs vs') :
    Reads (d + 1) (.array vs) (.array vs') := by
  intro rest _
  have hitems := items_itemsChars h rest (Nat.lt_succ_self _)
  have hshape : encode (Value.array vs).chars ++ rest =
      91 :: (encode (itemsChars vs) ++ 93 :: rest) := by
    show 91 :: encode (itemsChars vs ++ [']']) ++ rest = _
    rw [encode_append, List.cons_append, List.append_assoc]
    rfl
  rw [hshape, value_bracket, hitems]

/-- What follows the name of a field. -/
theorem member_colon {item : List UInt8 → Reading Value} {body s : List UInt8} {name : String}
    (h : Reader.string body = .ok (name, 58 :: s)) :
    member item (34 :: body) =
      match item s with
      | .error f => .error f
      | .ok (v, s) => .ok ((name, v), s) := by
  rw [member, h]
  rfl

/-- A written field is read as the field of its name. -/
theorem member_field {v' : Value} (h : Reads d v v') (name : String) (hrest : Ends rest) :
    ∃ body, encode (stringChars name ++ ':' :: v.chars) ++ rest = 34 :: body ∧
      member (value d) (34 :: body) = .ok ((name, v'), rest) := by
  obtain ⟨body, hbody, hstring⟩ := string_stringChars name (58 :: (encode v.chars ++ rest))
  refine ⟨body, ?_, ?_⟩
  · rw [← hbody, encode_append, List.append_assoc]
    rfl
  rw [member_colon hstring, h rest hrest]

theorem members_quote (item : List UInt8 → Reading Value) (acc : Fields) (steps : Nat)
    (s : List UInt8) :
    members item acc (steps + 1) true (34 :: s) =
      match member item (34 :: s) with
      | .error f => .error f
      | .ok ((name, v), s) => members item (acc.insert name v) steps false s := by
  rw [members, skipSpace_cons rfl]
  rfl

theorem members_comma (item : List UInt8 → Reading Value) (acc : Fields) (steps : Nat)
    (s : List UInt8) :
    members item acc (steps + 1) false (44 :: 34 :: s) =
      match member item (34 :: s) with
      | .error f => .error f
      | .ok ((name, v), s) => members item (acc.insert name v) steps false s := by
  rw [members, skipSpace_cons rfl]
  rfl

theorem members_first {name : String} (h : member (value d) (34 :: s) = .ok ((name, v), rest))
    (acc : Fields) (steps : Nat) :
    members (value d) acc (steps + 1) true (34 :: s) =
      members (value d) (acc.insert name v) steps false rest := by
  rw [members_quote, h]

theorem members_next {name : String} (h : member (value d) (34 :: s) = .ok ((name, v), rest))
    (acc : Fields) (steps : Nat) :
    members (value d) acc (steps + 1) false (44 :: 34 :: s) =
      members (value d) (acc.insert name v) steps false rest := by
  rw [members_comma, h]

theorem ends_moreFields (fs : Fields) (rest : List UInt8) :
    Ends (encode (moreFieldsChars fs) ++ 125 :: rest) := by
  cases fs with
  | nil => exact .inr (.inr rfl)
  | cons f fs => exact .inl rfl

/-- A written field is read as another one of the same name. -/
def ReadsField (d : Nat) (f f' : String × Value) : Prop := f'.1 = f.1 ∧ Reads d f.2 f'.2

/-- Writes fields at their places, one after the other. -/
def Fields.insertAll (acc fs : Fields) : Fields := fs.foldl (fun acc (n, v) => acc.insert n v) acc

theorem members_more {fs fs' : Fields} (h : List.Forall₂ (ReadsField d) fs fs') (acc : Fields)
    {steps : Nat} (rest : List UInt8)
    (hsteps : (encode (moreFieldsChars fs) ++ 125 :: rest).length < steps) :
    members (value d) acc steps false (encode (moreFieldsChars fs) ++ 125 :: rest) =
      .ok (acc.insertAll fs', rest) := by
  induction h generalizing acc steps with
  | nil =>
    cases steps with
    | zero => cases hsteps
    | succ steps => rfl
  | @cons f f' fs fs' hf _ ih =>
    obtain ⟨name, v⟩ := f
    obtain ⟨name', v'⟩ := f'
    obtain rfl : name' = name := hf.1
    have hv : Reads d v v' := hf.2
    obtain ⟨body, hbody, hmember⟩ := member_field hv name' (ends_moreFields fs rest)
    have hshape : encode (moreFieldsChars ((name', v) :: fs)) ++ 125 :: rest =
        44 :: 34 :: body := by
      rw [moreFieldsChars, encode_append, List.append_assoc, ← hbody]
      rfl
    have hlength := congrArg List.length hbody
    rw [List.length_append, List.length_cons] at hlength
    rw [hshape] at hsteps ⊢
    rw [List.length_cons, List.length_cons] at hsteps
    cases steps with
    | zero => cases hsteps
    | succ steps =>
      rw [members_next hmember]
      exact ih (acc.insert name' v') (by omega)

theorem members_fieldsChars {fs fs' : Fields} (h : List.Forall₂ (ReadsField d) fs fs')
    {steps : Nat} (rest : List UInt8)
    (hsteps : (encode (fieldsChars fs) ++ 125 :: rest).length < steps) :
    members (value d) [] steps true (encode (fieldsChars fs) ++ 125 :: rest) =
      .ok (Fields.insertAll [] fs', rest) := by
  cases steps with
  | zero => cases hsteps
  | succ steps =>
    cases h with
    | nil => rfl
    | @cons f f' fs fs' hf hfs =>
      obtain ⟨name, v⟩ := f
      obtain ⟨name', v'⟩ := f'
      obtain rfl : name' = name := hf.1
      have hv : Reads d v v' := hf.2
      obtain ⟨body, hbody, hmember⟩ := member_field hv name' (ends_moreFields fs rest)
      have hlength := congrArg List.length hbody
      rw [List.length_append, List.length_cons] at hlength
      rw [fieldsChars, encode_append, List.append_assoc, hbody] at hsteps ⊢
      rw [List.length_cons] at hsteps
      have hpos : 0 < (encode (stringChars name' ++ ':' :: v.chars)).length := Nat.succ_pos _
      rw [members_first hmember, members_more hfs _ rest (by omega)]
      rfl

theorem reads_object {fs fs' : Fields} (h : List.Forall₂ (ReadsField d) fs fs') :
    Reads (d + 1) (.object fs) (Value.ofFields fs') := by
  intro rest _
  have hmembers := members_fieldsChars h rest (Nat.lt_succ_self _)
  have hshape : encode (Value.object fs).chars ++ rest =
      123 :: (encode (fieldsChars fs) ++ 125 :: rest) := by
    show 123 :: encode (fieldsChars fs ++ ['\x7d']) ++ rest = _
    rw [encode_append, List.cons_append, List.append_assoc]
    rfl
  rw [hshape, value_brace, hmembers]
  rfl

theorem reads_array_self {vs : List Value} (h : ∀ v ∈ vs, Reads d v v) :
    Reads (d + 1) (.array vs) (.array vs) :=
  reads_array (List.forall₂_same.mpr h)

theorem reads_object_self {fs : Fields} (h : ∀ f ∈ fs, Reads d f.2 f.2) :
    Reads (d + 1) (.object fs) (Value.ofFields fs) :=
  reads_object (List.forall₂_same.mpr fun f hf => ⟨rfl, h f hf⟩)

end

/-! ## Fields in order -/

theorem Fields.get?_insert (k name : String) (v : Value) (fs : Fields) :
    (fs.insert name v).get? k = if name = k then some v else fs.get? k := by
  induction fs with
  | nil => rfl
  | cons f fs ih =>
    obtain ⟨n, w⟩ := f
    rw [insert]
    by_cases hlt : name < n
    · rw [if_pos hlt]
      rfl
    rw [if_neg hlt]
    by_cases heq : name = n
    · rw [if_pos heq, get?, get?, heq]
      by_cases hk : n = k
      · rw [if_pos hk, if_pos hk]
      · rw [if_neg hk, if_neg hk, if_neg hk]
    · rw [if_neg heq, get?, get?, ih]
      by_cases hk : n = k
      · rw [if_pos hk, if_pos hk, if_neg (fun h => heq (h.trans hk.symm))]
      · rw [if_neg hk, if_neg hk]

theorem Fields.get?_eq_none {k : String} {fs : Fields} (h : k ∉ fs.map (·.1)) :
    fs.get? k = none := by
  induction fs with
  | nil => rfl
  | cons f fs ih =>
    rw [List.map_cons, List.mem_cons, not_or] at h
    obtain ⟨hne, hrest⟩ := h
    rw [get?, if_neg (Ne.symm hne), ih hrest]

/-- Of fields with different names none gets lost. -/
theorem Fields.get?_insertAll (k : String) {fs : Fields} (h : (fs.map (·.1)).Nodup) (acc : Fields) :
    (acc.insertAll fs).get? k = (fs.get? k).or (acc.get? k) := by
  induction fs generalizing acc with
  | nil => rfl
  | cons f fs ih =>
    obtain ⟨hname, hrest⟩ := List.nodup_cons.mp h
    show ((acc.insert f.1 f.2).insertAll fs).get? k = _
    rw [ih hrest, get?_insert, get?]
    by_cases hk : f.1 = k
    · rw [if_pos hk, if_pos hk, get?_eq_none (hk ▸ hname)]
      rfl
    · rw [if_neg hk, if_neg hk]

theorem Fields.insert_last {name : String} {fs : Fields} (h : ∀ f ∈ fs, f.1 < name) (v : Value) :
    fs.insert name v = fs ++ [(name, v)] := by
  induction fs with
  | nil => rfl
  | cons f fs ih =>
    obtain ⟨n, w⟩ := f
    have hlt : n < name := h _ List.mem_cons_self
    have hne : name ≠ n := by
      rintro rfl
      exact String.lt_irrefl _ hlt
    rw [insert, if_neg (String.lt_asymm hlt), if_neg hne,
      ih (fun f hf => h f (List.mem_cons_of_mem _ hf))]
    rfl

/-- Fields that are in order stay as they are. -/
theorem Fields.insertAll_append {acc fs : Fields} (h : (acc ++ fs).Pairwise (·.1 < ·.1)) :
    acc.insertAll fs = acc ++ fs := by
  induction fs generalizing acc with
  | nil => exact (List.append_nil acc).symm
  | cons f fs ih =>
    have hlast : ∀ f' ∈ acc, f'.1 < f.1 := by
      intro f' hf'
      exact (List.pairwise_append.mp h).2.2 f' hf' f List.mem_cons_self
    rw [List.append_cons] at h
    show (acc.insert f.1 f.2).insertAll fs = _
    rw [insert_last hlast, ih h, List.append_assoc]
    rfl

theorem ofFields_of_ascending {fs : Fields} (h : fs.Pairwise (·.1 < ·.1)) :
    Value.ofFields fs = .object fs := by
  have hall : Fields.insertAll [] fs = fs := Fields.insertAll_append h
  exact congrArg Value.object hall

/-! ## Whole values -/

/-- A value as the reader makes them: its integers are not too great to be read as such, and the
fields of each object are in the order of their names. -/
inductive Value.WellFormed : Value → Prop where
  | null : WellFormed .null
  | boolean (b : Bool) : WellFormed (.boolean b)
  | integer {n : Int} (h : IsInteger n) : WellFormed (.integer n)
  | double (x : Binary64) : WellFormed (.double x)
  | string (s : String) : WellFormed (.string s)
  | array {vs : List Value} (h : ∀ v ∈ vs, WellFormed v) : WellFormed (.array vs)
  | object {fs : Fields} (hnames : fs.Pairwise (·.1 < ·.1)) (h : ∀ f ∈ fs, WellFormed f.2) :
    WellFormed (.object fs)

/-- Whether no more than so many containers are inside each other. -/
def Value.nestsWithin : Nat → Value → Bool
  | 0, .array _ | 0, .object _ => false
  | d + 1, .array vs => vs.all (nestsWithin d)
  | d + 1, .object fs => fs.all fun f => nestsWithin d f.2
  | _, _ => true

mutual

/-- Whether a number in the value is a double. -/
def Value.holdsDouble : Value → Bool
  | .double _ => true
  | .array vs => itemsHoldDouble vs
  | .object fs => fieldsHoldDouble fs
  | _ => false

def itemsHoldDouble : List Value → Bool
  | [] => false
  | v :: vs => v.holdsDouble || itemsHoldDouble vs

def fieldsHoldDouble : List (String × Value) → Bool
  | [] => false
  | (_, v) :: fs => v.holdsDouble || fieldsHoldDouble fs

end

theorem holdsDouble_of_mem {vs : List Value} (h : itemsHoldDouble vs = false) :
    ∀ v ∈ vs, v.holdsDouble = false := by
  induction vs with
  | nil =>
    intro v hv
    cases hv
  | cons w vs ih =>
    obtain ⟨hw, hvs⟩ := Bool.or_eq_false_iff.mp h
    intro v hv
    rcases List.mem_cons.mp hv with rfl | hv
    · exact hw
    · exact ih hvs v hv

theorem holdsDouble_of_mem_fields {fs : Fields} (h : fieldsHoldDouble fs = false) :
    ∀ f ∈ fs, f.2.holdsDouble = false := by
  induction fs with
  | nil =>
    intro f hf
    cases hf
  | cons g fs ih =>
    obtain ⟨hg, hfs⟩ := Bool.or_eq_false_iff.mp h
    intro f hf
    rcases List.mem_cons.mp hf with rfl | hf
    · exact hg
    · exact ih hfs f hf

/-- A value without doubles is read as it was written, if it is not nested too deeply. -/
theorem Value.WellFormed.reads {d : Nat} {v : Value} (h : v.WellFormed)
    (hdouble : v.holdsDouble = false) (hnests : v.nestsWithin d = true) : Reads d v v := by
  induction h generalizing d with
  | null => exact reads_null d
  | boolean b => exact reads_boolean d b
  | integer h => exact reads_integer d h
  | double x => cases hdouble
  | string s => exact reads_string d s
  | array _ ih =>
    cases d with
    | zero => cases hnests
    | succ d =>
      apply reads_array_self
      intro v hv
      exact ih v hv (holdsDouble_of_mem hdouble v hv) (List.all_eq_true.mp hnests v hv)
  | @object fs hnames _ ih =>
    cases d with
    | zero => cases hnests
    | succ d =>
      have hfields : ∀ f ∈ fs, Reads d f.2 f.2 := by
        intro f hf
        exact ih f hf (holdsDouble_of_mem_fields hdouble f hf) (List.all_eq_true.mp hnests f hf)
      have hobject := reads_object_self hfields
      rwa [ofFields_of_ascending hnames] at hobject

end RecordIntake.Json
