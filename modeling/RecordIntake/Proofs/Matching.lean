import RecordIntake.Regex.Match

/-!
Matching by sets of places finds just what an expression spans.  A repetition is a number of steps,
each of which spans what is repeated.  Steps that take nothing can be left out, so beyond the least
number no more of them are needed than the text has places; and once the places have become no more,
no further step adds any.  This is so for expressions whose repetitions have their bounds in order.
-/
namespace RecordIntake
namespace Regex

/-! ## Sets of places -/

theorem mem_insertPlace {n m : Nat} {ms : List Nat} : m ∈ insertPlace n ms ↔ m = n ∨ m ∈ ms := by
  induction ms with
  | nil => rw [insertPlace, List.mem_cons]
  | cons k ms ih =>
    unfold insertPlace
    split
    · rw [List.mem_cons]
    · split
      · rename_i heq
        rw [heq, List.mem_cons, or_self_left]
      · rw [List.mem_cons, ih, List.mem_cons, or_left_comm]

theorem mem_joinPlaces {m : Nat} {a b : List Nat} : m ∈ joinPlaces a b ↔ m ∈ a ∨ m ∈ b := by
  unfold joinPlaces
  induction b generalizing a with
  | nil => simp
  | cons n b ih =>
    rw [List.foldl_cons, ih, mem_insertPlace, List.mem_cons, or_assoc, or_left_comm]

variable {step : Nat → List Nat}

theorem mem_stepAll {k : Nat} {ps : List Nat} : k ∈ stepAll step ps ↔ ∃ i ∈ ps, k ∈ step i := by
  have hfrom : ∀ acc, k ∈ ps.foldl (fun acc n => joinPlaces acc (step n)) acc ↔
      k ∈ acc ∨ ∃ i ∈ ps, k ∈ step i := by
    induction ps with
    | nil => simp
    | cons i ps ih =>
      intro acc
      simp only [List.foldl_cons, ih, mem_joinPlaces, List.mem_cons, exists_eq_or_imp, or_assoc]
  rw [stepAll, hfrom]
  simp

/-! ## Steps -/

/-- So many steps lead from one place to another. -/
inductive Steps (r : Nat → Nat → Prop) : Nat → Nat → Nat → Prop where
  | refl (i : Nat) : Steps r 0 i i
  | step {n i j k : Nat} (h : r i j) (hs : Steps r n j k) : Steps r (n + 1) i k

namespace Steps

variable {r r' : Nat → Nat → Prop} {n m i j k : Nat}

theorem zero_iff : Steps r 0 i k ↔ i = k := by
  constructor
  · intro h
    cases h
    rfl
  · intro h
    subst h
    exact .refl i

theorem succ_iff : Steps r (n + 1) i k ↔ ∃ j, r i j ∧ Steps r n j k := by
  constructor
  · intro h
    cases h with
    | step h hs => exact ⟨_, h, hs⟩
  · rintro ⟨j, h, hs⟩
    exact .step h hs

theorem add_iff : Steps r (m + n) i k ↔ ∃ j, Steps r m i j ∧ Steps r n j k := by
  induction m generalizing i with
  | zero => simp [zero_iff]
  | succ m ih =>
    rw [Nat.succ_add, succ_iff]
    simp only [ih, succ_iff]
    constructor
    · rintro ⟨j, h, l, hm, hn⟩
      exact ⟨l, ⟨j, h, hm⟩, hn⟩
    · rintro ⟨l, ⟨j, h, hm⟩, hn⟩
      exact ⟨j, h, l, hm, hn⟩

/-- Steps that are the same wherever they lead. -/
theorem congr {p : Nat → Prop} (hp : ∀ i j, p i → r i j → p j)
    (hr : ∀ i j, p i → (r i j ↔ r' i j)) (hi : p i) : Steps r n i k ↔ Steps r' n i k := by
  induction n generalizing i with
  | zero => rw [zero_iff, zero_iff]
  | succ n ih =>
    rw [succ_iff, succ_iff]
    refine exists_congr fun j => ?_
    rw [← hr i j hi]
    exact and_congr_right fun h => ih (hp i j hi h)

theorem keeps {p : Nat → Prop} (hp : ∀ i j, p i → r i j → p j) (h : Steps r n i k) (hi : p i) :
    p k := by
  induction h with
  | refl i => exact hi
  | step h hs ih => exact ih (hp _ _ hi h)

theorem le (hr : ∀ i j, r i j → i ≤ j) (h : Steps r n i k) : i ≤ k :=
  h.keeps (p := (i ≤ ·)) (fun _ _ hi hij => Nat.le_trans hi (hr _ _ hij)) (Nat.le_refl i)

/-- Steps that stay where they are can be left out. -/
theorem shorten (hr : ∀ i j, r i j → i ≤ j) (h : Steps r n i k) :
    ∃ m, m ≤ n ∧ m ≤ k - i ∧ Steps r m i k := by
  induction h with
  | refl i => exact ⟨0, Nat.le_refl 0, Nat.zero_le _, .refl i⟩
  | @step n i j k h hs ih =>
    obtain ⟨m, hmn, hmk, hm⟩ := ih
    by_cases hij : i = j
    · subst hij
      exact ⟨m, Nat.le_succ_of_le hmn, hmk, hm⟩
    · have hlt : i < j := Nat.lt_of_le_of_ne (hr i j h) hij
      have hle : j ≤ k := hm.le hr
      exact ⟨m + 1, Nat.succ_le_succ hmn, by omega, .step h hm⟩

end Steps

theorem mem_stepTimes {n k : Nat} {ps : List Nat} :
    k ∈ stepTimes step n ps ↔ ∃ i ∈ ps, Steps (fun i j => j ∈ step i) n i k := by
  induction n generalizing ps with
  | zero => simp [stepTimes, Steps.zero_iff]
  | succ n ih =>
    cases ps with
    | nil => simp [stepTimes]
    | cons p ps =>
      rw [stepTimes, ih]
      simp only [mem_stepAll, Steps.succ_iff]
      constructor
      · rintro ⟨j, ⟨i, hi, hij⟩, hs⟩
        exact ⟨i, hi, j, hij, hs⟩
      · rintro ⟨i, hi, j, hij, hs⟩
        exact ⟨j, ⟨i, hi, hij⟩, hs⟩
      · simp

/-- When one step adds no place, none adds any. -/
theorem mem_of_steps {n i k : Nat} {ps : List Nat}
    (hps : joinPlaces ps (stepAll step ps) = ps) (hi : i ∈ ps)
    (h : Steps (fun i j => j ∈ step i) n i k) : k ∈ ps := by
  induction h with
  | refl i => exact hi
  | step hij hs ih =>
    apply ih
    rw [← hps]
    exact mem_joinPlaces.mpr (.inr (mem_stepAll.mpr ⟨_, hi, hij⟩))

theorem mem_stepUpTo {n k : Nat} {ps : List Nat} :
    k ∈ stepUpTo step n ps ↔ ∃ i ∈ ps, ∃ m ≤ n, Steps (fun i j => j ∈ step i) m i k := by
  induction n generalizing ps with
  | zero => simp [stepUpTo, Steps.zero_iff]
  | succ n ih =>
    rw [stepUpTo]
    split
    · rename_i hps
      constructor
      · intro hk
        exact ⟨k, hk, 0, Nat.zero_le _, .refl k⟩
      · rintro ⟨i, hi, m, -, hs⟩
        exact mem_of_steps hps hi hs
    · rw [ih]
      constructor
      · rintro ⟨j, hj, m, hm, hs⟩
        rcases mem_joinPlaces.mp hj with hj | hj
        · exact ⟨j, hj, m, Nat.le_succ_of_le hm, hs⟩
        · obtain ⟨i, hi, hij⟩ := mem_stepAll.mp hj
          exact ⟨i, hi, m + 1, Nat.succ_le_succ hm, .step hij hs⟩
      · rintro ⟨i, hi, m, hm, hs⟩
        cases hs with
        | refl => exact ⟨_, mem_joinPlaces.mpr (.inl hi), 0, Nat.zero_le _, .refl _⟩
        | @step m _ j _ hij hs =>
          exact ⟨j, mem_joinPlaces.mpr (.inr (mem_stepAll.mpr ⟨i, hi, hij⟩)), m,
            Nat.le_of_succ_le_succ hm, hs⟩

/-! ## Spans -/

/-- The greatest number of repetitions, if there is one, is no smaller than the least. -/
def Expr.IsBounded : Expr → Prop
  | .empty | .set _ | .look _ => True
  | .cat a b | .alt a b => a.IsBounded ∧ b.IsBounded
  | .loop a min max => a.IsBounded ∧ ∀ m, max = some m → min ≤ m
  | .capture a => a.IsBounded

variable {text : Array Char} {a b e : Expr} {i j k : Nat}

theorem Spans.within (h : Spans text e i j) : i ≤ j ∧ j ≤ text.size := by
  induction h with
  | empty i hi => exact ⟨Nat.le_refl i, hi⟩
  | @set s i c hc _ =>
    obtain ⟨hi, -⟩ := Array.getElem?_eq_some_iff.mp hc
    exact ⟨Nat.le_succ i, hi⟩
  | @look l i hi _ => exact ⟨Nat.le_refl i, hi⟩
  | cat _ _ iha ihb => exact ⟨Nat.le_trans iha.1 ihb.1, ihb.2⟩
  | altLeft _ ih => exact ih
  | altRight _ ih => exact ih
  | @loopDone a max i hi => exact ⟨Nat.le_refl i, hi⟩
  | loopMore _ _ _ iha ihrest => exact ⟨Nat.le_trans iha.1 ihrest.1, ihrest.2⟩
  | capture _ ih => exact ih

theorem spans_empty_iff : Spans text .empty i j ↔ i ≤ text.size ∧ i = j := by
  constructor
  · intro h
    cases h with
    | empty _ hi => exact ⟨hi, rfl⟩
  · rintro ⟨hi, rfl⟩
    exact .empty i hi

theorem spans_set_iff {s : CharSet} :
    Spans text (.set s) i j ↔ ∃ c, text[i]? = some c ∧ s.contains c = true ∧ i + 1 = j := by
  constructor
  · intro h
    cases h with
    | set hc hs => exact ⟨_, hc, hs, rfl⟩
  · rintro ⟨c, hc, hs, rfl⟩
    exact .set hc hs

theorem spans_look_iff {l : Look} :
    Spans text (.look l) i j ↔ i ≤ text.size ∧ l.holds text i = true ∧ i = j := by
  constructor
  · intro h
    cases h with
    | look hi hl => exact ⟨hi, hl, rfl⟩
  · rintro ⟨hi, hl, rfl⟩
    exact .look hi hl

theorem spans_cat_iff : Spans text (.cat a b) i k ↔ ∃ j, Spans text a i j ∧ Spans text b j k := by
  constructor
  · intro h
    cases h with
    | cat ha hb => exact ⟨_, ha, hb⟩
  · rintro ⟨j, ha, hb⟩
    exact .cat ha hb

theorem spans_alt_iff : Spans text (.alt a b) i j ↔ Spans text a i j ∨ Spans text b i j := by
  constructor
  · intro h
    cases h with
    | altLeft h => exact .inl h
    | altRight h => exact .inr h
  · rintro (h | h)
    · exact .altLeft h
    · exact .altRight h

theorem spans_capture_iff : Spans text (.capture a) i j ↔ Spans text a i j := by
  constructor
  · intro h
    cases h with
    | capture h => exact h
  · exact .capture

/-- A repetition spans what so many steps span, if their number is within the bounds. -/
theorem spans_loop_iff {min : Nat} {max : Option Nat} :
    Spans text (.loop a min max) i k ↔
      i ≤ text.size ∧ ∃ n, min ≤ n ∧ (∀ m, max = some m → n ≤ m) ∧ Steps (Spans text a) n i k := by
  constructor
  · intro h
    generalize he : Expr.loop a min max = e at h
    induction h generalizing min max with
    | @loopDone a' max' i hi =>
      obtain ⟨rfl, rfl, rfl⟩ := Expr.loop.inj he
      exact ⟨hi, 0, Nat.le_refl 0, fun _ _ => Nat.zero_le _, .refl i⟩
    | @loopMore a' min' max' i j k hmax ha _ _ ih =>
      obtain ⟨rfl, rfl, rfl⟩ := Expr.loop.inj he
      obtain ⟨-, n, hmin, hn, hs⟩ := ih rfl
      -- Both bounds of the rest are one less, and the greatest was not 0.
      refine ⟨Nat.le_trans ha.within.1 ha.within.2, n + 1, by omega, fun m hm => ?_, .step ha hs⟩
      subst hm
      have hle : n ≤ m - 1 := hn _ rfl
      have hpos : m ≠ 0 := fun hzero => hmax (congrArg some hzero)
      omega
    | _ => cases he
  · rintro ⟨hi, n, hmin, hmax, hs⟩
    induction n generalizing min max i with
    | zero =>
      obtain rfl := Steps.zero_iff.mp hs
      obtain rfl := Nat.le_zero.mp hmin
      exact .loopDone hi
    | succ n ih =>
      obtain ⟨j, ha, hs⟩ := Steps.succ_iff.mp hs
      refine .loopMore ?_ ha (ih ha.within.2 (by omega) ?_ hs)
      · rintro rfl
        exact absurd (hmax 0 rfl) (Nat.not_succ_le_zero n)
      · intro m hm
        obtain ⟨m', rfl, rfl⟩ := Option.map_eq_some_iff.mp hm
        have hle := hmax m' rfl
        omega

theorem le_size_of_steps {n : Nat} (h : Steps (Spans text a) n i k) (hi : i ≤ text.size) :
    k ≤ text.size :=
  h.keeps (p := (· ≤ text.size)) (fun _ _ _ hij => hij.within.2) hi

/-- How many steps beyond the least number are looked at. -/
def extraSteps (text : Array Char) (min : Nat) : Option Nat → Nat
  | none => text.size + 1
  | some m => Nat.min (m - min) (text.size + 1)

/-- As many steps as are looked at suffice. -/
theorem exists_extraSteps {min : Nat} {max : Option Nat} (hmax : ∀ m, max = some m → min ≤ m)
    (hi : i ≤ text.size) :
    (∃ n, min ≤ n ∧ (∀ m, max = some m → n ≤ m) ∧ Steps (Spans text a) n i k) ↔
      ∃ j, Steps (Spans text a) min i j ∧
        ∃ n ≤ extraSteps text min max, Steps (Spans text a) n j k := by
  constructor
  · rintro ⟨n, hmin, hn, hs⟩
    obtain ⟨d, rfl⟩ := Nat.exists_eq_add_of_le hmin
    obtain ⟨j, hfirst, hrest⟩ := Steps.add_iff.mp hs
    -- The steps that move are no more than there are places between the first and the last.
    obtain ⟨d', hd, hd', hrest⟩ := hrest.shorten fun _ _ h => h.within.1
    have hk := le_size_of_steps hs hi
    refine ⟨j, hfirst, d', ?_, hrest⟩
    cases max with
    | none =>
      show d' ≤ text.size + 1
      omega
    | some m =>
      have hm := hn m rfl
      show d' ≤ Nat.min (m - min) (text.size + 1)
      exact Nat.le_min.mpr ⟨by omega, by omega⟩
  · rintro ⟨j, hfirst, n, hn, hrest⟩
    refine ⟨min + n, Nat.le_add_right min n, fun m hm => ?_, Steps.add_iff.mpr ⟨j, hfirst, hrest⟩⟩
    subst hm
    have hle := hmax m rfl
    have hextra : n ≤ m - min := (Nat.le_min.mp hn).1
    omega

theorem mem_places_loop {min : Nat} {max : Option Nat} :
    k ∈ places text (.loop a min max) i ↔ ∃ j, Steps (fun i j => j ∈ places text a i) min i j ∧
      ∃ n ≤ extraSteps text min max, Steps (fun i j => j ∈ places text a i) n j k := by
  show k ∈ stepUpTo (places text a) (extraSteps text min max)
    (stepTimes (places text a) min [i]) ↔ _
  simp only [mem_stepUpTo, mem_stepTimes, List.mem_singleton, exists_eq_left]

/-- The places to which an expression leads are those up to which it spans. -/
theorem mem_places_iff (he : e.IsBounded) (hi : i ≤ text.size) :
    j ∈ places text e i ↔ Spans text e i j := by
  induction e generalizing i j with
  | empty =>
    rw [places, List.mem_singleton, spans_empty_iff]
    exact ⟨fun h => ⟨hi, h.symm⟩, fun h => h.2.symm⟩
  | set s =>
    rw [places, spans_set_iff]
    cases text[i]? with
    | none => simp
    | some c =>
      by_cases hs : s.contains c = true
      · show j ∈ (if s.contains c = true then [i + 1] else []) ↔ _
        rw [if_pos hs, List.mem_singleton]
        exact ⟨fun h => ⟨c, rfl, hs, h.symm⟩, fun ⟨_, _, _, h⟩ => h.symm⟩
      · show j ∈ (if s.contains c = true then [i + 1] else []) ↔ _
        rw [if_neg hs]
        simp [hs]
  | look l =>
    rw [places, spans_look_iff]
    by_cases hl : l.holds text i = true
    · rw [if_pos hl, List.mem_singleton]
      exact ⟨fun h => ⟨hi, hl, h.symm⟩, fun h => h.2.2.symm⟩
    · rw [if_neg hl]
      simp [hl]
  | cat a b iha ihb =>
    rw [places, mem_stepAll, spans_cat_iff]
    refine exists_congr fun j => ?_
    rw [iha he.1 hi]
    exact and_congr_right fun h => ihb he.2 h.within.2
  | alt a b iha ihb =>
    rw [places, mem_joinPlaces, spans_alt_iff, iha he.1 hi, ihb he.2 hi]
  | loop a min max ih =>
    have hsteps : ∀ {n i k}, i ≤ text.size →
        (Steps (fun i j => j ∈ places text a i) n i k ↔ Steps (Spans text a) n i k) :=
      Steps.congr (p := fun i => i ≤ text.size)
        (fun i j hi hij => ((ih he.1 hi).mp hij).within.2) fun i j hi => ih he.1 hi
    rw [mem_places_loop, spans_loop_iff, exists_extraSteps he.2 hi]
    constructor
    · rintro ⟨j, hfirst, n, hn, hrest⟩
      have hfirst := (hsteps hi).mp hfirst
      exact ⟨hi, j, hfirst, n, hn, (hsteps (le_size_of_steps hfirst hi)).mp hrest⟩
    · rintro ⟨-, j, hfirst, n, hn, hrest⟩
      have hj := le_size_of_steps hfirst hi
      exact ⟨j, (hsteps hi).mpr hfirst, n, hn, (hsteps hj).mpr hrest⟩
  | capture a ih => rw [places, spans_capture_iff, ih he hi]

theorem matchesFrom_iff (he : e.IsBounded) (hi : i ≤ text.size) :
    e.matchesFrom text i = true ↔ ∃ j, Spans text e i j := by
  rw [Expr.matchesFrom, Bool.not_eq_true', List.isEmpty_eq_false_iff_exists_mem]
  exact exists_congr fun j => mem_places_iff he hi

end Regex
end RecordIntake
