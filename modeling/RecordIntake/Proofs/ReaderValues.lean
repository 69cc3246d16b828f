import RecordIntake.Proofs.ReadBack
import RecordIntake.Record.Reader

/-!
What the reader makes is well formed: an integer that it reads as such is in range, because the
digits that do not fit are not gathered, and the fields of an object are in order, because each is
put in its place.  So the records of a message are well formed as well.
-/
namespace RecordIntake
namespace Json

open Reader

/-- What a reading yields, if it does. -/
def Yields {α : Type} (P : α → Prop) (r : Reading α) : Prop := ∀ x rest, r = .ok (x, rest) → P x

theorem Yields.of_error {α : Type} {P : α → Prop} (f : Fault) : Yields P (.error f) := by
  intro x rest h
  cases h

theorem Yields.of_ok {α : Type} {P : α → Prop} {x : α} (h : P x) (rest : List UInt8) :
    Yields P (.ok (x, rest)) := by
  intro y rest' heq
  cases heq
  exact h

theorem yields_word {v : Value} (hv : v.WellFormed) (ws s : List UInt8) :
    Yields Value.WellFormed (word v ws s) := by
  induction ws generalizing s with
  | nil => exact .of_ok hv s
  | cons w ws ih =>
    cases s with
    | nil => exact .of_error _
    | cons b s =>
      rw [word]
      split
      · exact ih s
      · exact .of_error _

theorem yields_double (negative : Bool) (m : Nat) (e : Int) (s : List UInt8) :
    Yields Value.WellFormed (Reader.double negative m e s) := by
  unfold Reader.double
  split
  · exact .of_error _
  · exact .of_ok (.double _) s

theorem yields_exponent (negative : Bool) (m : Nat) (start : Int) (s : List UInt8) :
    Yields Value.WellFormed (exponent negative m start s) := by
  unfold exponent
  split
  split
  · exact .of_error _
  split
  · split
    · exact yields_double _ _ _ _
    · split
      · exact .of_error _
      · exact .of_ok (Value.WellFormed.double _) _
  · exact .of_error _

theorem yields_exponentOrEnd (negative : Bool) (m : Nat) (start : Int) (s : List UInt8) :
    Yields Value.WellFormed (exponentOrEnd negative m start s) := by
  unfold exponentOrEnd
  split
  · exact yields_exponent _ _ _ _
  · exact yields_exponent _ _ _ _
  · exact yields_double _ _ _ _

theorem yields_fraction (negative : Bool) (m : Nat) (start : Int) (s : List UInt8) :
    Yields Value.WellFormed (fraction negative m start s) := by
  unfold fraction
  split
  · exact .of_error _
  · split
    · exact yields_exponentOrEnd _ _ _ _
    · exact .of_error _

theorem yields_afterInteger (negative : Bool) {m : Nat} (hm : m < significandLimit)
    (s : List UInt8) : Yields Value.WellFormed (afterInteger negative m s) := by
  have hm : m < 2 ^ 64 := hm
  unfold afterInteger
  split
  · exact yields_fraction _ _ _ _
  · exact yields_exponent _ _ _ _
  · exact yields_exponent _ _ _ _
  · split
    · split
      · rename_i hsmall
        have hle : m ≤ 2 ^ 63 := of_decide_eq_true (Bool.and_eq_true_iff.mp hsmall).2
        exact .of_ok (.integer ⟨by omega, by omega⟩) _
      · exact .of_ok (.double _) _
    · exact .of_ok (.integer ⟨by omega, by omega⟩) _

theorem yields_integerDigits (negative : Bool) {m : Nat} (hm : m < significandLimit)
    (s : List UInt8) : Yields Value.WellFormed (integerDigits negative m s) := by
  induction s generalizing m with
  | nil => exact yields_afterInteger negative hm []
  | cons b s ih =>
    rw [integerDigits]
    split
    · dsimp only
      split
      · rename_i hnext
        exact ih hnext
      · unfold afterLongInteger
        split
        · exact yields_fraction _ _ _ _
        · exact yields_exponentOrEnd _ _ _ _
    · exact yields_afterInteger negative hm (b :: s)

theorem yields_number (negative : Bool) (s : List UInt8) :
    Yields Value.WellFormed (number negative s) := by
  have hzero : 0 < significandLimit := by decide
  unfold number
  split
  · exact .of_error _
  · split
    · exact yields_afterInteger negative hzero []
    · split
      · exact .of_error _
      · exact yields_afterInteger negative hzero _
  · rename_i b s _
    split
    · have hlt := b.toNat_lt
      have hdigit : digitValue b < significandLimit := by
        show b.toNat - 48 < 2 ^ 64
        omega
      exact yields_integerDigits negative hdigit s
    · exact .of_error _

/-! ### Containers -/

variable {item : List UInt8 → Reading Value}

theorem yields_items (hitem : ∀ s, Yields Value.WellFormed (item s)) {acc : List Value}
    (hacc : ∀ v ∈ acc, v.WellFormed) (steps : Nat) (first : Bool) (s : List UInt8) :
    Yields (fun vs => ∀ v ∈ vs, v.WellFormed) (items item acc steps first s) := by
  induction steps generalizing acc first s with
  | zero => exact .of_error _
  | succ steps ih =>
    have hcons : ∀ {s v rest}, item s = .ok (v, rest) → ∀ w ∈ v :: acc, w.WellFormed := by
      intro s v rest h w hw
      rcases List.mem_cons.mp hw with rfl | hw
      · exact hitem s _ rest h
      · exact hacc w hw
    rw [items]
    split
    · exact .of_error _
    · apply Yields.of_ok
      intro v hv
      exact hacc v (List.mem_reverse.mp hv)
    split
    · split
      · exact .of_error _
      · rename_i hv
        exact ih (hcons hv) false _
    split
    · split
      · exact .of_error _
      · exact .of_error _
      split
      · exact .of_error _
      · rename_i hv
        exact ih (hcons hv) false _
    · exact .of_error _

theorem Fields.mem_insert {name : String} {v : Value} {fs : Fields} {f : String × Value}
    (h : f ∈ fs.insert name v) : f = (name, v) ∨ f ∈ fs := by
  induction fs with
  | nil => exact .inl (List.mem_singleton.mp h)
  | cons g fs ih =>
    rw [insert] at h
    split at h
    · exact List.mem_cons.mp h
    split at h
    · rcases List.mem_cons.mp h with h | h
      · exact .inl h
      · exact .inr (List.mem_cons_of_mem g h)
    · rcases List.mem_cons.mp h with h | h
      · exact .inr (h ▸ List.mem_cons_self)
      · rcases ih h with h | h
        · exact .inl h
        · exact .inr (List.mem_cons_of_mem g h)

theorem Fields.ascending_insert {fs : Fields} (h : fs.Pairwise (·.1 < ·.1)) (name : String)
    (v : Value) : (fs.insert name v).Pairwise (·.1 < ·.1) := by
  induction fs with
  | nil => exact List.pairwise_singleton _ _
  | cons g fs ih =>
    obtain ⟨hlt, hrest⟩ := List.pairwise_cons.mp h
    rw [insert]
    split
    · rename_i hname
      refine List.pairwise_cons.mpr ⟨?_, h⟩
      intro f hf
      rcases List.mem_cons.mp hf with rfl | hf
      · exact hname
      · exact String.lt_trans hname (hlt f hf)
    split
    · rename_i hname
      subst hname
      exact List.pairwise_cons.mpr ⟨hlt, hrest⟩
    · rename_i hnot hne
      refine List.pairwise_cons.mpr ⟨?_, ih hrest⟩
      intro f hf
      rcases mem_insert hf with rfl | hf
      · exact Std.lt_of_le_of_ne (String.not_lt.mp hnot) (Ne.symm hne)
      · exact hlt f hf

/-- Of fields: in order, and each of a well-formed value. -/
structure Fields.WellFormed (fs : Fields) : Prop where
  ascending : fs.Pairwise (·.1 < ·.1)
  values : ∀ f ∈ fs, f.2.WellFormed

theorem Fields.WellFormed.insert {fs : Fields} (h : fs.WellFormed) (name : String) {v : Value}
    (hv : v.WellFormed) : (fs.insert name v).WellFormed := by
  refine ⟨ascending_insert h.ascending name v, ?_⟩
  intro f hf
  rcases mem_insert hf with rfl | hf
  · exact hv
  · exact h.values f hf

theorem yields_member (hitem : ∀ s, Yields Value.WellFormed (item s)) (s : List UInt8) :
    Yields (fun f => f.2.WellFormed) (member item s) := by
  unfold member
  split
  · split
    · exact .of_error _
    split
    · exact .of_error _
    · split
      · exact .of_error _
      · rename_i hv
        exact Yields.of_ok (P := fun f : String × Value => f.2.WellFormed) (hitem _ _ _ hv) _
    · exact .of_error _
  · exact .of_error _

theorem yields_members (hitem : ∀ s, Yields Value.WellFormed (item s)) {acc : Fields}
    (hacc : acc.WellFormed) (steps : Nat) (first : Bool) (s : List UInt8) :
    Yields Fields.WellFormed (members item acc steps first s) := by
  induction steps generalizing acc first s with
  | zero => exact .of_error _
  | succ steps ih =>
    rw [members]
    split
    · exact .of_error _
    · exact .of_ok hacc _
    split
    · split
      · exact .of_error _
      · rename_i hv
        exact ih (hacc.insert _ (yields_member hitem _ _ _ hv)) false _
    split
    · split
      · exact .of_error _
      · exact .of_error _
      split
      · exact .of_error _
      · rename_i hv
        exact ih (hacc.insert _ (yields_member hitem _ _ _ hv)) false _
    · exact .of_error _

theorem yields_value (d : Nat) (s : List UInt8) : Yields Value.WellFormed (value d s) := by
  induction d using Nat.strongRecOn generalizing s with
  | ind d ih =>
    rw [value]
    split
    · exact .of_error _
    · exact yields_word .null _ _
    · exact yields_word (.boolean true) _ _
    · exact yields_word (.boolean false) _ _
    · exact yields_number true _
    · split
      · exact .of_error _
      · exact .of_ok (.string _) _
    · split
      · exact .of_error _
      · rename_i d
        split
        · exact .of_error _
        · rename_i hvs
          exact .of_ok (.array (yields_items (ih d (Nat.lt_succ_self d)) (by simp) _ _ _ _ _ hvs)) _
    · split
      · exact .of_error _
      · rename_i d
        split
        · exact .of_error _
        · rename_i hfs
          have hfields := yields_members (ih d (Nat.lt_succ_self d)) ⟨.nil, by simp⟩ _ _ _ _ _ hfs
          exact .of_ok (.object hfields.ascending hfields.values) _
    · split
      · exact yields_number false _
      · exact .of_error _

/-- Whatever is read is a well-formed value. -/
theorem wellFormed_of_read {octets : List UInt8} {v : Value} (h : Json.read octets = .ok v) :
    v.WellFormed := by
  unfold Json.read at h
  split at h
  · cases h
  · rename_i hv
    split at h
    · cases h
      exact yields_value _ _ _ _ hv
    · cases h

end Json

/-! ## Records -/

namespace Record

theorem wellFormed_of_ofValue {v : Json.Value} {r : Record} (hv : v.WellFormed)
    (h : ofValue v = .ok r) : r.value.WellFormed := by
  cases v with
  | object fields =>
    obtain rfl := Except.ok.inj h
    exact hv
  | _ => cases h

theorem wellFormed_of_ofValues {vs : List Json.Value} {rs : List Record}
    (hvs : ∀ v ∈ vs, v.WellFormed) (h : ofValues vs = .ok rs) : ∀ r ∈ rs, r.value.WellFormed := by
  induction vs generalizing rs with
  | nil =>
    obtain rfl := Except.ok.inj h
    intro r hr
    cases hr
  | cons v vs ih =>
    unfold ofValues at h
    split at h
    · cases h
    · rename_i r hr
      split at h
      · cases h
      · rename_i rs' hrs
        obtain rfl := Except.ok.inj h
        obtain ⟨hv, hvs⟩ := List.forall_mem_cons.mp hvs
        exact List.forall_mem_cons.mpr ⟨wellFormed_of_ofValue hv hr, ih hvs hrs⟩

theorem wellFormed_of_read {payload : Option (List UInt8)} {rs : List Record}
    (h : read payload = .ok rs) : ∀ r ∈ rs, r.value.WellFormed := by
  unfold read at h
  split at h
  · cases h
  · cases h
  · split at h
    · cases h
    · rename_i vs hvs
      have hwf := Json.wellFormed_of_read hvs
      cases hwf with
      | array hitems => exact wellFormed_of_ofValues hitems h
    · rename_i v _ hv
      exact wellFormed_of_ofValues (List.forall_mem_singleton.mpr (Json.wellFormed_of_read hv)) h

end Record
end RecordIntake
