import Mathlib.Data.List.Nodup
import Mathlib.Logic.Relation
import RecordIntake.Proofs.Assignment
import RecordIntake.Proofs.Separators

/-!
Which texts declare a static assignment, and which one.  An entry is read if it says something and
gives away only numbers that nobody has yet; so the entries are all read if each says something and
no number is given away twice.  What is declared in the end depends on who gets which numbers, not
on the order in which it is said and not on how it is spread over the entries.
-/
namespace RecordIntake
namespace StaticAssignment

open Text (AllBlank IsInt32 Padded Reworded)

/-! ## What is said -/

/-- A host, and numbers that are its own. -/
abbrev Share : Type := String × List Int

/-- The entry has an equals sign, a host before the first one, and integers after it. -/
inductive Says : List Char → Share → Prop where
  | shares {before after : List Char} {ns : List Int} (hcut : '=' ∉ before)
    (hname : Text.trim before ≠ []) (hns : List.Forall₂ IsInt32 (Text.entries ',' after) ns) :
    Says (before ++ '=' :: after) (String.ofList (Text.trim before), ns)

/-- Each entry of the declaration says something. -/
def Declares (declaration : String) (ss : List Share) : Prop :=
  List.Forall₂ Says (Text.entries ';' declaration.toList) ss

/-- All numbers that are given away, as often as they are. -/
def given (ss : List Share) : List Int := ss.flatMap (·.2)

/-- The numbers from zero up to their count are given away, each once. -/
structure Complete (ss : List Share) : Prop where
  nodup : (given ss).Nodup
  range : ∀ n, n ∈ given ss ↔ 0 ≤ n ∧ n < (given ss).length

/-- The host has a share. -/
def HasShare (ss : List Share) (host : String) : Prop := ∃ ns, (host, ns) ∈ ss

/-- The number is in a share of the host. -/
def Gets (ss : List Share) (host : String) (n : Int) : Prop := ∃ ns, (host, ns) ∈ ss ∧ n ∈ ns

/-- The hosts are those that have shares, each with the union of its shares. -/
structure Collects (a : StaticAssignment) (ss : List Share) : Prop where
  sorted : a.hosts.Sorted
  lists : ∀ host, Draft.Lists (HasShare ss host) (Gets ss host) (a.ownedBy? host)

variable {declaration : String} {a : StaticAssignment} {es es' : List (List Char)} {e : List Char}
  {ss ss' : List Share} {s : Share} {before before' after after' : List Char}

theorem says_iff_of_cut (hcut : Text.cutAt '=' e = some (before, after)) :
    Says e s ↔ Text.trim before ≠ [] ∧ s.1 = String.ofList (Text.trim before) ∧
      List.Forall₂ IsInt32 (Text.entries ',' after) s.2 := by
  constructor
  · rintro ⟨hcut', hname, hns⟩
    obtain ⟨rfl, rfl⟩ := Prod.mk.inj (Option.some.inj
      ((Text.cutAt_eq_some_iff.mpr ⟨rfl, hcut'⟩).symm.trans hcut))
    exact ⟨hname, rfl, hns⟩
  · obtain ⟨host, ns⟩ := s
    obtain ⟨rfl, hcut'⟩ := Text.cutAt_eq_some_iff.mp hcut
    rintro ⟨hname, rfl, hns⟩
    exact .shares hcut' hname hns

theorem exists_cut_of_says (h : Says e s) :
    ∃ before after, Text.cutAt '=' e = some (before, after) := by
  cases h with
  | @shares before after ns hcut hname hns =>
    exact ⟨before, after, Text.cutAt_eq_some_iff.mpr ⟨rfl, hcut⟩⟩

theorem filterMap_readInteger {cs : List (List Char)} {ns : List Int}
    (h : List.Forall₂ IsInt32 cs ns) : cs.filterMap (Text.readInteger .int32) = ns := by
  induction h with
  | nil => rfl
  | cons hn _ ih => rw [List.filterMap_cons_some (Text.readInteger_int32_iff.mpr hn), ih]

theorem Says.eq (h : Says e s) : hostOf? e = some s.1 ∧ numbersOf e = s.2 := by
  obtain ⟨before, after, hcut⟩ := exists_cut_of_says h
  obtain ⟨-, hhost, hns⟩ := (says_iff_of_cut hcut).mp h
  rw [hostOf?, numbersOf, hcut]
  exact ⟨congrArg some hhost.symm, filterMap_readInteger hns⟩

theorem hasShare_cons {host : String} :
    HasShare (s :: ss) host ↔ s.1 = host ∨ HasShare ss host := by
  obtain ⟨host', ns⟩ := s
  simp only [HasShare, List.mem_cons, Prod.mk.injEq, exists_or, exists_and_left, exists_eq, and_true,
    eq_comm (a := host)]

theorem gets_cons {host : String} {n : Int} :
    Gets (s :: ss) host n ↔ s.1 = host ∧ n ∈ s.2 ∨ Gets ss host n := by
  obtain ⟨host', ns⟩ := s
  simp only [Gets, List.mem_cons, Prod.mk.injEq, or_and_right, exists_or, and_assoc,
    exists_and_left, exists_eq_left, eq_comm (a := host)]

theorem hasShare_iff (h : List.Forall₂ Says es ss) {host : String} :
    (∃ e ∈ es, hostOf? e = some host) ↔ HasShare ss host := by
  induction h with
  | nil => simp [HasShare]
  | cons he _ ih =>
    rw [hasShare_cons, ← ih]
    simp only [List.mem_cons, exists_eq_or_imp, he.eq.1, Option.some.injEq]

theorem gets_iff (h : List.Forall₂ Says es ss) {host : String} {n : Int} :
    (∃ e ∈ es, hostOf? e = some host ∧ n ∈ numbersOf e) ↔ Gets ss host n := by
  induction h with
  | nil => simp [Gets]
  | cons he _ ih =>
    rw [gets_cons, ← ih]
    simp only [List.mem_cons, exists_eq_or_imp, he.eq.1, he.eq.2, Option.some.injEq]

theorem mem_given {n : Int} : n ∈ given ss ↔ ∃ host, Gets ss host n := by
  simp only [given, List.mem_flatMap, Gets, Prod.exists]

/-! ## Which drafts go on -/

namespace Draft

variable {d d' : Draft} {named : String → Prop} {assigned : String → Int → Prop} {host : String}

/-- The number is none below zero, and nobody has it. -/
def Free (assigned : String → Int → Prop) (n : Int) : Prop := 0 ≤ n ∧ ∀ host, ¬ assigned host n

theorem Holds.give_iff (h : d.Holds named assigned) {id : List Char} :
    (∃ d', d.give host id = .ok d') ↔ ∃ n, IsInt32 id n ∧ Free assigned n := by
  simp only [← Text.readInteger_int32_iff]
  unfold Draft.give
  cases hread : (Text.readInteger .int32 id).filter (0 ≤ ·) with
  | none =>
    refine iff_of_false nofun ?_
    rintro ⟨n, hn, hnonneg, -⟩
    rw [hn, Option.filter_some, if_pos (decide_eq_true hnonneg)] at hread
    exact nomatch hread
  | some n =>
    obtain ⟨hn, hnonneg⟩ := Option.filter_eq_some_iff.mp hread
    dsimp only
    cases howner : d.owners.find? n with
    | some other =>
      refine iff_of_false nofun ?_
      rintro ⟨n', hn', -, hfree⟩
      obtain rfl := Option.some.inj (hn'.symm.trans hn)
      exact hfree other ((h.owner n' other).mp howner)
    | none =>
      refine iff_of_true ⟨_, rfl⟩ ⟨n, hn, of_decide_eq_true hnonneg, fun host' hassigned => ?_⟩
      rw [(h.owner n host').mpr hassigned] at howner
      exact nomatch howner

theorem free_give_iff {id : List Char} {n m : Int} (hn : Text.readInteger .int32 id = some n) :
    Free (fun host' n => assigned host' n ∨ host' = host ∧ Text.readInteger .int32 id = some n) m ↔
      Free assigned m ∧ n ≠ m := by
  simp only [Free, hn, Option.some.injEq, not_or, not_and, forall_and, forall_eq, and_assoc]

theorem Holds.giveAll_iff (h : d.Holds named assigned) (hhost : named host)
    {ids : List (List Char)} :
    (∃ d', d.giveAll host ids = .ok d') ↔
      ∃ ns, List.Forall₂ IsInt32 ids ns ∧ (∀ n ∈ ns, Free assigned n) ∧ ns.Nodup := by
  induction ids generalizing d assigned with
  | nil => exact iff_of_true ⟨d, rfl⟩ ⟨[], .nil, List.forall_mem_nil _, List.nodup_nil⟩
  | cons id ids ih =>
    unfold Draft.giveAll
    constructor
    · rintro ⟨d', hd⟩
      split at hd
      · exact nomatch hd
      rename_i d₁ hgive
      obtain ⟨n, hn, hfree⟩ := h.give_iff.mp ⟨d₁, hgive⟩
      obtain ⟨ns, hns, hfrees, hnodup⟩ := (ih (h.give hhost hgive)).mp ⟨d', hd⟩
      simp only [free_give_iff (Text.readInteger_int32_iff.mpr hn)] at hfrees
      exact ⟨n :: ns, .cons hn hns, List.forall_mem_cons.mpr ⟨hfree, fun m hm => (hfrees m hm).1⟩,
        List.nodup_cons.mpr ⟨fun hmem => (hfrees n hmem).2 rfl, hnodup⟩⟩
    · rintro ⟨_, hall, hfrees, hnodup⟩
      obtain ⟨n, ns, hn, hns, rfl⟩ := List.forall₂_cons_left_iff.mp hall
      obtain ⟨hfree, hfrees⟩ := List.forall_mem_cons.mp hfrees
      obtain ⟨hnot, hnodup⟩ := List.nodup_cons.mp hnodup
      obtain ⟨d₁, hgive⟩ : ∃ d₁, d.give host id = .ok d₁ := h.give_iff.mpr ⟨n, hn, hfree⟩
      rw [hgive]
      refine (ih (h.give hhost hgive)).mpr ⟨ns, hns, fun m hm => ?_, hnodup⟩
      rw [free_give_iff (Text.readInteger_int32_iff.mpr hn)]
      exact ⟨hfrees m hm, fun heq => hnot (heq ▸ hm)⟩

theorem Holds.entry_iff (h : d.Holds named assigned) :
    (∃ d', d.entry e = .ok d') ↔ ∃ s, Says e s ∧ (∀ n ∈ s.2, Free assigned n) ∧ s.2.Nodup := by
  unfold Draft.entry
  cases hcut : Text.cutAt '=' e with
  | none =>
    refine iff_of_false nofun ?_
    rintro ⟨s, hs, -⟩
    obtain ⟨before, after, hcut'⟩ := exists_cut_of_says hs
    rw [hcut] at hcut'
    exact nomatch hcut'
  | some cut =>
    obtain ⟨before, after⟩ := cut
    simp only [says_iff_of_cut hcut]
    split
    · rename_i hname
      exact iff_of_false nofun fun ⟨s, ⟨hne, _⟩, _⟩ => hne hname
    · rename_i hne
      rw [(h.name _).giveAll_iff (.inr rfl)]
      constructor
      · rintro ⟨ns, hns, hrest⟩
        exact ⟨(_, ns), ⟨hne, rfl, hns⟩, hrest⟩
      · rintro ⟨s, ⟨-, -, hns⟩, hrest⟩
        exact ⟨s.2, hns, hrest⟩

theorem free_entry_iff (hs : Says e s) {m : Int} :
    Free (fun host n => assigned host n ∨ hostOf? e = some host ∧ n ∈ numbersOf e) m ↔
      Free assigned m ∧ m ∉ s.2 := by
  simp only [Free, hs.eq.1, hs.eq.2, Option.some.injEq, not_or, not_and, forall_and, forall_eq',
    and_assoc]

theorem Holds.allEntries_iff (h : d.Holds named assigned) :
    (∃ d', d.allEntries es = .ok d') ↔
      ∃ ss, List.Forall₂ Says es ss ∧ (∀ n ∈ given ss, Free assigned n) ∧ (given ss).Nodup := by
  induction es generalizing d named assigned with
  | nil => exact iff_of_true ⟨d, rfl⟩ ⟨[], .nil, List.forall_mem_nil _, List.nodup_nil⟩
  | cons e es ih =>
    unfold Draft.allEntries
    constructor
    · rintro ⟨d', hd⟩
      split at hd
      · exact nomatch hd
      rename_i d₁ hentry
      obtain ⟨s, hs, hfree, hnodup⟩ := h.entry_iff.mp ⟨d₁, hentry⟩
      obtain ⟨ss, hss, hfrees, hnodups⟩ := (ih (h.entry hentry)).mp ⟨d', hd⟩
      simp only [free_entry_iff hs] at hfrees
      refine ⟨s :: ss, .cons hs hss, List.forall_mem_append.mpr ⟨hfree, fun m hm => (hfrees m hm).1⟩,
        List.nodup_append.mpr ⟨hnodup, hnodups, fun n hn m hm heq => ?_⟩⟩
      exact (hfrees m hm).2 (heq ▸ hn)
    · rintro ⟨_, hall, hfrees, hnodups⟩
      obtain ⟨s, ss, hs, hss, rfl⟩ := List.forall₂_cons_left_iff.mp hall
      obtain ⟨hfree, hfrees⟩ := List.forall_mem_append.mp hfrees
      obtain ⟨hnodup, hnodups, hdisjoint⟩ := List.nodup_append.mp hnodups
      obtain ⟨d₁, hentry⟩ := h.entry_iff.mpr ⟨s, hs, hfree, hnodup⟩
      rw [hentry]
      refine (ih (h.entry hentry)).mpr ⟨ss, hss, fun m hm => ?_, hnodups⟩
      rw [free_entry_iff hs]
      exact ⟨hfrees m hm, fun hmem => hdisjoint m hmem m hm rfl⟩

/-- The draft that was made of all entries has the shares they say. -/
theorem holds_of_allEntries (h : Draft.allEntries ⟨[], []⟩ es = .ok d)
    (hss : List.Forall₂ Says es ss) : d.Holds (HasShare ss) (Gets ss) :=
  (holds_empty.allEntries h).congr (fun _ => (iff_of_eq (false_or _)).trans (hasShare_iff hss))
    fun _ _ => (iff_of_eq (false_or _)).trans (gets_iff hss)

theorem exists_allEntries_iff :
    (∃ d, Draft.allEntries ⟨[], []⟩ es = .ok d) ↔
      ∃ ss, List.Forall₂ Says es ss ∧ (∀ n ∈ given ss, 0 ≤ n) ∧ (given ss).Nodup := by
  simp only [holds_empty.allEntries_iff, Free, not_false_eq_true, implies_true, and_true]

end Draft

/-! ## What is accepted -/

section

variable {owners : SortedMap Int String} (h : Draft.Holds ⟨a.hosts, owners⟩ (HasShare ss) (Gets ss))

include h

theorem nodup_ownedNumbers : a.ownedNumbers.Nodup := by
  refine List.nodup_flatMap.mpr ⟨fun x hx => (mem_of_mem_hosts h hx).1.nodup, ?_⟩
  refine h.sorted.imp_of_mem fun {x y} hx hy hlt n hnx hny => ?_
  have hsame : x.1 = y.1 :=
    h.owner_unique (((mem_of_mem_hosts h hx).2 n).mp hnx) (((mem_of_mem_hosts h hy).2 n).mp hny)
  rw [hsame] at hlt
  simp at hlt

/-- The total counts what was given away, for nothing was twice. -/
theorem total_eq (hnodup : (given ss).Nodup) : a.total = (given ss).length := by
  rw [← length_ownedNumbers]
  refine ((List.perm_ext_iff_of_nodup (nodup_ownedNumbers h) hnodup).mpr fun n => ?_).length_eq
  rw [mem_ownedNumbers h, mem_given]

theorem gap?_eq_none_iff (hnodup : (given ss).Nodup) : a.gap? = none ↔ Complete ss := by
  have htotal := total_eq h hnodup
  constructor
  · intro hgap
    refine ⟨hnodup, fun n => ?_⟩
    rw [mem_given, assigned_iff h hgap, htotal]
  · intro hcomplete
    refine List.find?_eq_none.mpr fun k hk => ?_
    have hk : k < a.total := List.mem_range.mp hk
    have howned : (k : Int) ∈ a.ownedNumbers := by
      rw [mem_ownedNumbers h, ← mem_given, hcomplete.range]
      omega
    rw [(owns_iff h).mpr howned]
    decide

theorem collects : Collects a ss := ⟨h.sorted, h.lists⟩

end

theorem Draft.Lists.unique {named : Prop} {assigned : Int → Prop} {o o' : Option (SortedSet Int)}
    (h : Draft.Lists named assigned o) (h' : Draft.Lists named assigned o') : o = o' := by
  cases h with
  | nothing hnamed hassigned =>
    cases h' with
    | nothing => rfl
    | numbers hnamed' => exact absurd hnamed' hnamed
  | numbers hnamed hns hmem =>
    cases h' with
    | nothing hnamed' => exact absurd hnamed hnamed'
    | numbers _ hns' hmem' =>
      exact congrArg some (SortedSet.ext hns hns' fun n => (hmem n).trans (hmem' n).symm)

theorem Collects.unique {a' : StaticAssignment} (h : a.Collects ss) (h' : a'.Collects ss) : a = a' := by
  have hsame : a.hosts = a'.hosts :=
    SortedMap.ext h.sorted h'.sorted fun host => (h.lists host).unique (h'.lists host)
  cases a
  cases a'
  exact congrArg StaticAssignment.mk hsame

theorem Draft.hosts_eq_nil_iff {d : Draft} (h : d.Holds (HasShare ss) (Gets ss)) :
    d.hosts = [] ↔ ss = [] := by
  constructor
  · intro hnone
    cases ss with
    | nil => rfl
    | cons s ss =>
      have hlists := h.lists s.1
      rw [hnone, SortedMap.find?_nil] at hlists
      obtain ⟨hnamed, -⟩ | - := hlists
      exact absurd (hasShare_cons.mpr (.inl rfl)) hnamed
  · rintro rfl
    refine List.eq_nil_iff_forall_not_mem.mpr fun x hx => ?_
    have hlists := h.lists x.1
    rw [SortedMap.find?_of_mem h.sorted hx] at hlists
    obtain - | ⟨⟨ns, hns⟩, -, -⟩ := hlists
    exact List.not_mem_nil hns

/-- What comes of a declaration whose entries were all read. -/
theorem parse_eq_ok_iff {o : Option StaticAssignment} :
    parse declaration = .ok o ↔
      ∃ d, Draft.allEntries ⟨[], []⟩ (Text.entries ';' declaration.toList) = .ok d ∧
        (d.hosts = [] ∧ o = none ∨ d.hosts ≠ [] ∧ gap? ⟨d.hosts⟩ = none ∧ o = some ⟨d.hosts⟩) := by
  unfold parse
  cases hd : Draft.allEntries ⟨[], []⟩ (Text.entries ';' declaration.toList) with
  | error e => exact iff_of_false nofun fun ⟨_, hnone, _⟩ => nomatch hnone
  | ok d =>
    simp only [Except.ok.injEq, exists_eq_left', List.isEmpty_iff]
    by_cases hhosts : d.hosts = []
    · simp [hhosts, eq_comm]
    · rw [if_neg hhosts]
      cases hgap : gap? ⟨d.hosts⟩ with
      | some n => simp [hhosts]
      | none => simp [hhosts, eq_comm]

theorem parse_eq_none_iff :
    parse declaration = .ok none ↔ ∀ p ∈ Text.pieces ';' declaration.toList, AllBlank p := by
  rw [← Text.entries_eq_nil_iff, parse_eq_ok_iff]
  constructor
  · rintro ⟨d, hd, ⟨hnone, -⟩ | ⟨-, -, hsome⟩⟩
    · obtain ⟨ss, hss, -⟩ := Draft.exists_allEntries_iff.mp ⟨d, hd⟩
      obtain rfl := (Draft.hosts_eq_nil_iff (Draft.holds_of_allEntries hd hss)).mp hnone
      exact List.forall₂_nil_right_iff.mp hss
    · exact nomatch hsome
  · intro hnone
    rw [hnone]
    exact ⟨_, rfl, .inl ⟨rfl, rfl⟩⟩

theorem parse_eq_some_iff :
    parse declaration = .ok (some a) ↔
      ∃ ss, Declares declaration ss ∧ ss ≠ [] ∧ Complete ss ∧ a.Collects ss := by
  rw [parse_eq_ok_iff]
  constructor
  · rintro ⟨d, hd, ⟨-, hnone⟩ | ⟨hhosts, hgap, hsome⟩⟩
    · exact nomatch hnone
    · obtain rfl := Option.some.inj hsome
      obtain ⟨ss, hss, -, hnodup⟩ := Draft.exists_allEntries_iff.mp ⟨d, hd⟩
      have hholds := Draft.holds_of_allEntries hd hss
      exact ⟨ss, hss, hhosts ∘ (Draft.hosts_eq_nil_iff hholds).mpr,
        (gap?_eq_none_iff hholds hnodup).mp hgap, collects hholds⟩
  · rintro ⟨ss, hss, hne, hcomplete, hcollects⟩
    obtain ⟨d, hd⟩ := Draft.exists_allEntries_iff.mpr
      ⟨ss, hss, fun n hn => ((hcomplete.range n).mp hn).1, hcomplete.nodup⟩
    have hholds := Draft.holds_of_allEntries hd hss
    have hmade : Collects ⟨d.hosts⟩ ss := collects hholds
    obtain rfl := hcollects.unique hmade
    exact ⟨d, hd, .inr ⟨hne ∘ (Draft.hosts_eq_nil_iff hholds).mp,
      (gap?_eq_none_iff hholds hcomplete.nodup).mpr hcomplete, rfl⟩⟩

/-! ## Other spellings -/

/-- The second declaration says the same in other words. -/
inductive Respelled (declaration declaration' : String) : Prop where
  | entries (h : Reworded (Text.pieces ';' declaration.toList) (Text.pieces ';' declaration'.toList))
  | host {before before' after : List Char} {ps : List (List Char)}
    (h : Text.pieces ';' declaration.toList = (before ++ '=' :: after) :: ps)
    (h' : Text.pieces ';' declaration'.toList = (before' ++ '=' :: after) :: ps)
    (hcut : '=' ∉ before) (hpadded : Padded before before')
  | numbers {before after after' : List Char} {ps : List (List Char)}
    (h : Text.pieces ';' declaration.toList = (before ++ '=' :: after) :: ps)
    (h' : Text.pieces ';' declaration'.toList = (before ++ '=' :: after') :: ps)
    (hcut : '=' ∉ before) (hreworded : Reworded (Text.pieces ',' after) (Text.pieces ',' after'))
  | split {before after after₁ after₂ : List Char} {ps : List (List Char)}
    (h : Text.pieces ';' declaration.toList = (before ++ '=' :: after) :: ps)
    (h' : Text.pieces ';' declaration'.toList =
      (before ++ '=' :: after₁) :: (before ++ '=' :: after₂) :: ps)
    (hcut : '=' ∉ before)
    (hpieces : Text.pieces ',' after = Text.pieces ',' after₁ ++ Text.pieces ',' after₂)

/-- The same hosts have shares, and the same numbers are given to each, as often. -/
structure SameShares (ss ss' : List Share) : Prop where
  hosts : ∀ host, HasShare ss host ↔ HasShare ss' host
  gifts : (ss.flatMap fun s => s.2.map (s.1, ·)).Perm (ss'.flatMap fun s => s.2.map (s.1, ·))

namespace SameShares

theorem symm (h : SameShares ss ss') : SameShares ss' ss :=
  ⟨fun host => (h.hosts host).symm, h.gifts.symm⟩

theorem of_perm (h : ss.Perm ss') : SameShares ss ss' :=
  ⟨fun _ => exists_congr fun _ => h.mem_iff, h.flatMap_right _⟩

theorem refl (ss : List Share) : SameShares ss ss := of_perm (List.Perm.refl ss)

theorem cons {host : String} {ns ns' : List Int} (hns : ns.Perm ns') (h : SameShares ss ss') :
    SameShares ((host, ns) :: ss) ((host, ns') :: ss') where
  hosts host' := by rw [hasShare_cons, hasShare_cons, h.hosts]
  gifts := by
    rw [List.flatMap_cons, List.flatMap_cons]
    exact (hns.map _).append h.gifts

theorem split (host : String) (ns ns' : List Int) (ss : List Share) :
    SameShares ((host, ns ++ ns') :: ss) ((host, ns) :: (host, ns') :: ss) where
  hosts host' := by rw [hasShare_cons, hasShare_cons, hasShare_cons, or_self_left]
  gifts := by
    simp only [List.flatMap_cons, List.map_append, List.append_assoc]
    exact List.Perm.refl _

theorem gets_iff (h : SameShares ss ss') (host : String) (n : Int) : Gets ss host n ↔ Gets ss' host n := by
  have hmem : ∀ ss : List Share, Gets ss host n ↔ (host, n) ∈ ss.flatMap fun s => s.2.map (s.1, ·) := by
    intro ss
    simp [Gets, List.mem_flatMap]
  rw [hmem, hmem, h.gifts.mem_iff]

theorem given_perm (h : SameShares ss ss') : (given ss).Perm (given ss') := by
  have heq : ∀ ss : List Share, given ss = (ss.flatMap fun s => s.2.map (s.1, ·)).map (·.2) := by
    intro ss
    simp [given, List.map_flatMap, Function.comp_def]
  rw [heq, heq]
  exact h.gifts.map _

theorem complete (h : SameShares ss ss') (hss : Complete ss) : Complete ss' where
  nodup := h.given_perm.nodup_iff.mp hss.nodup
  range n := by rw [← h.given_perm.mem_iff, ← h.given_perm.length_eq, hss.range]

theorem collects (h : SameShares ss ss') (hss : a.Collects ss) : a.Collects ss' :=
  ⟨hss.sorted, fun host => (hss.lists host).congr (h.hosts host) (h.gets_iff host)⟩

theorem ne_nil (h : SameShares ss ss') (hss : ss ≠ []) : ss' ≠ [] := by
  rintro rfl
  obtain ⟨s, ss, rfl⟩ := List.exists_cons_of_ne_nil hss
  obtain ⟨ns, hns⟩ := (h.hosts s.1).mp (hasShare_cons.mpr (.inl rfl))
  exact List.not_mem_nil hns

end SameShares

/-- Trimming the entry makes no difference to what it says. -/
theorem says_trim_iff (hcut : '=' ∉ before) :
    Says (Text.trim (before ++ '=' :: after)) s ↔
      Text.trim before ≠ [] ∧ s.1 = String.ofList (Text.trim before) ∧
        List.Forall₂ IsInt32 (Text.entries ',' after) s.2 := by
  have hcut' : Text.cutAt '=' (Text.trim (before ++ '=' :: after)) =
      some (before.dropWhile Text.isBlank, after.rdropWhile Text.isBlank) := by
    rw [Text.trim_around (by decide), Text.cutAt_eq_some_iff]
    exact ⟨rfl, fun hmem => hcut ((List.dropWhile_sublist _).subset hmem)⟩
  rw [says_iff_of_cut hcut', Text.trim_dropWhile, Text.entries_rdropWhile (by decide)]

/-- What is said by pieces of which the first has an equals sign. -/
theorem says_cons_iff (hcut : '=' ∉ before) {ps : List (List Char)} :
    List.Forall₂ Says (Text.kept ((before ++ '=' :: after) :: ps)) ss ↔
      ∃ ns rest, Text.trim before ≠ [] ∧ List.Forall₂ IsInt32 (Text.entries ',' after) ns ∧
        List.Forall₂ Says (Text.kept ps) rest ∧
        ss = (String.ofList (Text.trim before), ns) :: rest := by
  have hne : Text.trim (before ++ '=' :: after) ≠ [] := by
    rw [Text.trim_around (by decide)]
    exact List.append_ne_nil_of_right_ne_nil _ (List.cons_ne_nil _ _)
  rw [Text.kept_cons hne, List.forall₂_cons_left_iff]
  constructor
  · rintro ⟨⟨host, ns⟩, rest, hs, hrest, rfl⟩
    obtain ⟨hname, rfl, hns⟩ := (says_trim_iff hcut).mp hs
    exact ⟨ns, rest, hname, hns, hrest, rfl⟩
  · rintro ⟨ns, rest, hname, hns, hrest, rfl⟩
    exact ⟨_, rest, (says_trim_iff hcut).mpr ⟨hname, rfl, hns⟩, hrest, rfl⟩

/-- What the first pieces say, the second ones say in their way. -/
def Conveys (ps ps' : List (List Char)) : Prop :=
  ∀ ss, List.Forall₂ Says (Text.kept ps) ss →
    ∃ ss', List.Forall₂ Says (Text.kept ps') ss' ∧ SameShares ss ss'

section

variable {ps ps' : List (List Char)}

theorem conveys_of_perm (h : (Text.kept ps).Perm (Text.kept ps')) : Conveys ps ps' := by
  intro ss hss
  obtain ⟨ss', hss', hsame⟩ := List.perm_comp_forall₂ h.symm hss
  exact ⟨ss', hss', .of_perm hsame.symm⟩

/-- An entry may have other blanks around its host, and its numbers in another order. -/
theorem conveys_of_entry (hcut : '=' ∉ before) (hcut' : '=' ∉ before')
    (htrim : Text.trim before = Text.trim before')
    (hperm : (Text.entries ',' after).Perm (Text.entries ',' after')) :
    Conveys ((before ++ '=' :: after) :: ps) ((before' ++ '=' :: after') :: ps) := by
  intro ss hss
  obtain ⟨ns, rest, hname, hns, hrest, rfl⟩ := (says_cons_iff hcut).mp hss
  obtain ⟨ns', hns', hsame⟩ := List.perm_comp_forall₂ hperm.symm hns
  rw [htrim] at hname ⊢
  exact ⟨_, (says_cons_iff hcut').mpr ⟨ns', rest, hname, hns', hrest, rfl⟩,
    .cons hsame.symm (.refl rest)⟩

section

variable {after₁ after₂ : List Char} (hcut : '=' ∉ before)
  (hentries : Text.entries ',' after = Text.entries ',' after₁ ++ Text.entries ',' after₂)

include hcut hentries

theorem conveys_split :
    Conveys ((before ++ '=' :: after) :: ps)
      ((before ++ '=' :: after₁) :: (before ++ '=' :: after₂) :: ps) := by
  intro ss hss
  obtain ⟨ns, rest, hname, hns, hrest, rfl⟩ := (says_cons_iff hcut).mp hss
  rw [hentries] at hns
  have hfirst := (List.forall₂_take_append ns _ _ hns.flip).flip
  have hsecond := (List.forall₂_drop_append ns _ _ hns.flip).flip
  refine ⟨_, (says_cons_iff hcut).mpr ⟨_, _, hname, hfirst,
    (says_cons_iff hcut).mpr ⟨_, rest, hname, hsecond, hrest, rfl⟩, rfl⟩, ?_⟩
  have hsplit := SameShares.split (String.ofList (Text.trim before))
    (ns.take (Text.entries ',' after₁).length) (ns.drop (Text.entries ',' after₁).length) rest
  rwa [List.take_append_drop] at hsplit

theorem conveys_join :
    Conveys ((before ++ '=' :: after₁) :: (before ++ '=' :: after₂) :: ps)
      ((before ++ '=' :: after) :: ps) := by
  intro ss hss
  obtain ⟨ns₁, rest₁, hname, hns₁, hrest₁, rfl⟩ := (says_cons_iff hcut).mp hss
  obtain ⟨ns₂, rest, -, hns₂, hrest, rfl⟩ := (says_cons_iff hcut).mp hrest₁
  have hns : List.Forall₂ IsInt32 (Text.entries ',' after) (ns₁ ++ ns₂) :=
    hentries ▸ List.rel_append hns₁ hns₂
  exact ⟨_, (says_cons_iff hcut).mpr ⟨_, rest, hname, hns, hrest, rfl⟩,
    (SameShares.split _ ns₁ ns₂ rest).symm⟩

end

end

/-- No blank is an equals sign. -/
theorem not_mem_of_padded (h : Padded before before') (hcut : '=' ∉ before) : '=' ∉ before' := by
  obtain ⟨b, b', hb, hb', rfl⟩ := h
  have hblank : Text.isBlank '=' = false := by decide
  simp only [List.mem_append, not_or]
  refine ⟨⟨fun hmem => ?_, hcut⟩, fun hmem => ?_⟩
  · exact absurd (hb _ hmem) (by rw [hblank]; decide)
  · exact absurd (hb' _ hmem) (by rw [hblank]; decide)

variable {declaration' : String}

theorem Respelled.conveys (h : Respelled declaration declaration') :
    Conveys (Text.pieces ';' declaration.toList) (Text.pieces ';' declaration'.toList) ∧
      Conveys (Text.pieces ';' declaration'.toList) (Text.pieces ';' declaration.toList) := by
  cases h with
  | entries h => exact ⟨conveys_of_perm (Text.kept_perm h), conveys_of_perm (Text.kept_perm h).symm⟩
  | host h h' hcut hpadded =>
    have hcut' := not_mem_of_padded hpadded hcut
    have htrim := Text.trim_of_padded hpadded
    rw [h, h']
    exact ⟨conveys_of_entry hcut hcut' htrim.symm (.refl _),
      conveys_of_entry hcut' hcut htrim (.refl _)⟩
  | numbers h h' hcut hreworded =>
    have hperm := Text.kept_perm hreworded
    rw [h, h']
    exact ⟨conveys_of_entry hcut hcut rfl hperm, conveys_of_entry hcut hcut rfl hperm.symm⟩
  | @split before after after₁ after₂ ps h h' hcut hpieces =>
    have hentries : Text.entries ',' after = Text.entries ',' after₁ ++ Text.entries ',' after₂ := by
      rw [Text.entries_eq_kept, hpieces, Text.kept_append, ← Text.entries_eq_kept,
        ← Text.entries_eq_kept]
    rw [h, h']
    exact ⟨conveys_split hcut hentries, conveys_join hcut hentries⟩

/-! ## Main result -/

theorem Draft.error_of_give {d : Draft} {host : String} {id : List Char} {f : IntakeError}
    (h : d.give host id = .error f) : ∃ m, f = .configuration m := by
  unfold Draft.give at h
  split at h
  · exact ⟨_, (Except.error.inj h).symm⟩
  · split at h
    · exact ⟨_, (Except.error.inj h).symm⟩
    · exact nomatch h

theorem Draft.error_of_giveAll {d : Draft} {host : String} {ids : List (List Char)} {f : IntakeError}
    (h : d.giveAll host ids = .error f) : ∃ m, f = .configuration m := by
  induction ids generalizing d with
  | nil => exact nomatch h
  | cons id ids ih =>
    unfold Draft.giveAll at h
    split at h
    · rename_i hgive
      exact Except.error.inj h ▸ error_of_give hgive
    · exact ih h

theorem Draft.error_of_entry {d : Draft} {f : IntakeError} (h : d.entry e = .error f) :
    ∃ m, f = .configuration m := by
  unfold Draft.entry at h
  split at h
  · exact ⟨_, (Except.error.inj h).symm⟩
  · split at h
    · exact ⟨_, (Except.error.inj h).symm⟩
    · exact error_of_giveAll h

theorem Draft.error_of_allEntries {d : Draft} {f : IntakeError} (h : d.allEntries es = .error f) :
    ∃ m, f = .configuration m := by
  induction es generalizing d with
  | nil => exact nomatch h
  | cons e es ih =>
    unfold Draft.allEntries at h
    split at h
    · rename_i hentry
      exact Except.error.inj h ▸ error_of_entry hentry
    · exact ih h

theorem error_of_parse {f : IntakeError} (h : parse declaration = .error f) :
    ∃ m, f = .configuration m := by
  unfold parse at h
  split at h
  · rename_i hentries
    exact Except.error.inj h ▸ Draft.error_of_allEntries hentries
  · split at h
    · exact nomatch h
    · dsimp only at h
      split at h
      · exact ⟨_, (Except.error.inj h).symm⟩
      · exact nomatch h

/-- Both are accepted, for the same, or both are refused; the explanations quote the text, so they
may differ. -/
inductive Alike {α : Type} : Except IntakeError α → Except IntakeError α → Prop where
  | accepted (o : α) : Alike (.ok o) (.ok o)
  | refused (m m' : String) : Alike (.error (.configuration m)) (.error (.configuration m'))

theorem parse_ok_of_conveys
    (h : Conveys (Text.pieces ';' declaration.toList) (Text.pieces ';' declaration'.toList))
    {o : Option StaticAssignment} (hparse : parse declaration = .ok o) : parse declaration' = .ok o := by
  cases o with
  | none =>
    rw [parse_eq_none_iff, ← Text.entries_eq_nil_iff] at hparse ⊢
    obtain ⟨ss', hss', hsame⟩ := h [] (by rw [← Text.entries_eq_kept, hparse]; exact .nil)
    cases ss' with
    | nil => exact List.forall₂_nil_right_iff.mp hss'
    | cons s ss => exact absurd rfl (hsame.symm.ne_nil (List.cons_ne_nil s ss))
  | some a =>
    rw [parse_eq_some_iff] at hparse ⊢
    obtain ⟨ss, hss, hne, hcomplete, hcollects⟩ := hparse
    obtain ⟨ss', hss', hsame⟩ := h ss hss
    exact ⟨ss', hss', hsame.ne_nil hne, hsame.complete hcomplete, hsame.collects hcollects⟩

theorem alike_of_respelled (h : Respelled declaration declaration') :
    Alike (parse declaration) (parse declaration') := by
  obtain ⟨hthere, hback⟩ := h.conveys
  cases hparse : parse declaration with
  | ok o =>
    rw [parse_ok_of_conveys hthere hparse]
    exact .accepted o
  | error f =>
    cases hparse' : parse declaration' with
    | ok o =>
      rw [parse_ok_of_conveys hback hparse'] at hparse
      exact nomatch hparse
    | error f' =>
      obtain ⟨m, rfl⟩ := error_of_parse hparse
      obtain ⟨m', rfl⟩ := error_of_parse hparse'
      exact .refused m m'

theorem Alike.symm {α : Type} {r r' : Except IntakeError α} (h : Alike r r') : Alike r' r := by
  cases h with
  | accepted o => exact .accepted o
  | refused m m' => exact .refused m' m

theorem Alike.trans {α : Type} {r r' r'' : Except IntakeError α} (h : Alike r r')
    (h' : Alike r' r'') : Alike r r'' := by
  cases h with
  | accepted o => exact h'
  | refused m m' =>
    cases h' with
    | refused _ m'' => exact .refused m m''

theorem alike_parse_self (declaration : String) : Alike (parse declaration) (parse declaration) := by
  cases hparse : parse declaration with
  | ok o => exact .accepted o
  | error f =>
    obtain ⟨m, rfl⟩ := error_of_parse hparse
    exact .refused m m

/-- A declaration is no assignment if it is blank between its semicolons.  It is one if each entry
is a host and integers, and the integers of all entries are those from zero up to their count, each
once; then each host has the union of what its entries give it.  So nothing changes when entries or
integers are reordered, when blanks or blank pieces are added, and when the integers of an entry are
spread over two entries of the host. -/
theorem declarations_accepted (declaration : String) :
    (parse declaration = .ok none ↔ ∀ p ∈ Text.pieces ';' declaration.toList, AllBlank p) ∧
    (∀ a, parse declaration = .ok (some a) ↔
      ∃ ss, Declares declaration ss ∧ ss ≠ [] ∧ Complete ss ∧ a.Collects ss) ∧
    ∀ declaration', Relation.EqvGen Respelled declaration declaration' →
      Alike (parse declaration) (parse declaration') := by
  refine ⟨parse_eq_none_iff, fun a => parse_eq_some_iff, fun declaration' h => ?_⟩
  induction h with
  | rel _ _ h => exact alike_of_respelled h
  | refl declaration => exact alike_parse_self declaration
  | symm _ _ _ ih => exact ih.symm
  | trans _ _ _ _ _ ih ih' => exact ih.trans ih'

theorem declarations_accepted_inOrder :
    let declaration := "b=1;a=2,+00"
    let declaration' := "a=2;a=+00;b=1"
    Relation.EqvGen Respelled declaration declaration' ∧
      parse declaration = .ok (some ⟨[("a", [0, 2]), ("b", [1])]⟩) ∧
      Alike (parse declaration) (parse declaration') ∧
      ∃ ss, Declares declaration ss ∧ ss ≠ [] ∧ Complete ss := by
  intro declaration declaration'
  have hreordered : Respelled declaration "a=2,+00;b=1" :=
    .entries (.reordered (by decide +kernel))
  have hpieces : Text.pieces ';' "a=2,+00;b=1".toList =
      ("a".toList ++ '=' :: "2,+00".toList) :: ["b=1".toList] := by decide +kernel
  have hpieces' : Text.pieces ';' declaration'.toList =
      ("a".toList ++ '=' :: "2".toList) :: ("a".toList ++ '=' :: "+00".toList) :: ["b=1".toList] := by
    decide +kernel
  have hsplit : Respelled "a=2,+00;b=1" declaration' :=
    .split hpieces hpieces' (by decide) (by decide +kernel)
  have hchain := (Relation.EqvGen.rel _ _ hreordered).trans _ _ _ (.rel _ _ hsplit)
  have hparse : parse declaration = .ok (some ⟨[("a", [0, 2]), ("b", [1])]⟩) := by decide +kernel
  obtain ⟨-, haccepted, hrespelled⟩ := declarations_accepted declaration
  obtain ⟨ss, hss, hne, hcomplete, -⟩ := (haccepted _).mp hparse
  exact ⟨hchain, hparse, hrespelled _ hchain, ss, hss, hne, hcomplete⟩

end StaticAssignment
end RecordIntake
