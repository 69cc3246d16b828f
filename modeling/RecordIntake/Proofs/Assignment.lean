import Mathlib.Data.List.Nodup
import Mathlib.Data.List.Perm.Subperm
import RecordIntake.Assignment.Resolver
import RecordIntake.Proofs.SortedSet

/-!
How a static assignment splits the topics among the hosts.  Reading a declaration keeps, beside the
numbers of each host, the owner of each number, so no number gets two owners.  A declaration is
accepted if every number below the total is owned.  There are no more owned numbers than that, so
these are all of them.  The resolvers of all hosts compare the reported counts with the same total,
and what they let through is a subscription to the numbers of one host on every topic.
-/
namespace RecordIntake

/-! ## What is declared -/

namespace StaticAssignment

/-- The host that an entry names. -/
def hostOf? (entry : List Char) : Option String :=
  (Text.cutAt '=' entry).map fun (host, _) => String.ofList (Text.trim host)

/-- The numbers that stand in an entry. -/
def numbersOf (entry : List Char) : List Int :=
  match Text.cutAt '=' entry with
  | none => []
  | some (_, ids) => (Text.entries ',' ids).filterMap (Text.readInteger .int32)

/-- The declaration has an entry for the host. -/
def Names (declaration host : String) : Prop :=
  ∃ e ∈ Text.entries ';' declaration.toList, hostOf? e = some host

/-- The declaration has an entry for the host in which the number stands. -/
def Assigns (declaration host : String) (n : Int) : Prop :=
  ∃ e ∈ Text.entries ';' declaration.toList, hostOf? e = some host ∧ n ∈ numbersOf e

/-! ## Drafts -/

namespace Draft

/-- What is kept of a host: nothing, or the numbers assigned to it. -/
inductive Lists (named : Prop) (assigned : Int → Prop) : Option (SortedSet Int) → Prop where
  | nothing (hnamed : ¬ named) (hassigned : ∀ n, ¬ assigned n) : Lists named assigned none
  | numbers {ns : SortedSet Int} (hnamed : named) (hns : SortedSet.Sorted ns)
    (hmem : ∀ n, n ∈ ns ↔ assigned n) : Lists named assigned (some ns)

/-- The draft has the hosts that were named with the numbers that were assigned to them, and the one
owner of each number. -/
structure Holds (d : Draft) (named : String → Prop) (assigned : String → Int → Prop) : Prop where
  sorted : d.hosts.Sorted
  lists : ∀ host, Lists (named host) (assigned host) (d.hosts.find? host)
  owner : ∀ n host, d.owners.find? n = some host ↔ assigned host n
  nonneg : ∀ host n, assigned host n → 0 ≤ n

variable {d d' : Draft} {named named' : String → Prop} {assigned assigned' : String → Int → Prop}

theorem Lists.congr {named named' : Prop} {assigned assigned' : Int → Prop}
    {o : Option (SortedSet Int)} (h : Lists named assigned o) (hnamed : named ↔ named')
    (hassigned : ∀ n, assigned n ↔ assigned' n) : Lists named' assigned' o := by
  obtain rfl := propext hnamed
  obtain rfl := funext fun n => propext (hassigned n)
  exact h

theorem Lists.getD {named : Prop} {assigned : Int → Prop} {o : Option (SortedSet Int)}
    (h : Lists named assigned o) :
    SortedSet.Sorted (o.getD []) ∧ ∀ n, n ∈ o.getD [] ↔ assigned n := by
  cases h with
  | nothing hnamed hassigned =>
    exact ⟨List.Pairwise.nil, fun n => iff_of_false List.not_mem_nil (hassigned n)⟩
  | numbers hnamed hns hmem => exact ⟨hns, hmem⟩

theorem holds_empty : Holds ⟨[], []⟩ (fun _ => False) (fun _ _ => False) where
  sorted := SortedMap.sorted_nil
  lists _ := .nothing id fun _ => id
  owner n host := iff_of_false (fun h => by cases h) id
  nonneg _ _ h := h.elim

theorem Holds.congr (h : d.Holds named assigned) (hnamed : ∀ host, named host ↔ named' host)
    (hassigned : ∀ host n, assigned host n ↔ assigned' host n) : d.Holds named' assigned' where
  sorted := h.sorted
  lists host := (h.lists host).congr (hnamed host) (hassigned host)
  owner n host := (h.owner n host).trans (hassigned host n)
  nonneg host n hn := h.nonneg host n ((hassigned host n).mpr hn)

/-- No number has two owners. -/
theorem Holds.owner_unique (h : d.Holds named assigned) {host host' : String} {n : Int}
    (hn : assigned host n) (hn' : assigned host' n) : host = host' :=
  Option.some.inj (((h.owner n host).mpr hn).symm.trans ((h.owner n host').mpr hn'))

/-- An entry makes its host known, if it was not. -/
theorem Holds.name (h : d.Holds named assigned) (host : String) :
    Holds { d with hosts := d.hosts.upsert host (·.getD []) }
      (fun host' => named host' ∨ host' = host) assigned where
  sorted := SortedMap.sorted_insert h.sorted _ _
  lists host' := by
    rw [SortedMap.upsert, SortedMap.find?_insert]
    obtain ⟨hsorted, hmem⟩ := (h.lists host).getD
    split
    · rename_i heq
      subst heq
      exact .numbers (.inr rfl) hsorted hmem
    · rename_i hne
      exact (h.lists host').congr (or_iff_left hne).symm fun _ => Iff.rfl
  owner := h.owner
  nonneg := h.nonneg

/-- A number that is given to a host was nobody's, and is the host's. -/
theorem Holds.give (h : d.Holds named assigned) {host : String} (hhost : named host)
    {id : List Char} (hd : d.give host id = .ok d') :
    d'.Holds named fun host' n =>
      assigned host' n ∨ host' = host ∧ Text.readInteger .int32 id = some n := by
  unfold Draft.give at hd
  split at hd
  · cases hd
  rename_i n hread
  obtain ⟨hread, hnonneg⟩ := Option.filter_eq_some_iff.mp hread
  split at hd
  · cases hd
  rename_i hfree
  obtain rfl := Except.ok.inj hd
  rw [hread]
  simp only [Option.some.injEq]
  refine ⟨SortedMap.sorted_insert h.sorted _ _, fun host' => ?_, fun n' host' => ?_, ?_⟩
  · rw [SortedMap.upsert, SortedMap.find?_insert]
    obtain ⟨hsorted, hmem⟩ := (h.lists host).getD
    split
    · rename_i heq
      subst heq
      refine .numbers hhost (SortedSet.sorted_insert hsorted n) fun n' => ?_
      rw [SortedSet.mem_insert, hmem, or_comm, eq_comm]
      simp only [true_and]
    · rename_i hne
      exact (h.lists host').congr Iff.rfl fun n' => (or_iff_left fun hn => hne hn.1).symm
  · rw [SortedMap.find?_insert]
    split
    · rename_i heq
      subst heq
      have hnobody : ¬ assigned host' n' := fun hn => by
        rw [(h.owner n' host').mpr hn] at hfree
        cases hfree
      rw [or_iff_right hnobody, Option.some.injEq, and_iff_left rfl, eq_comm]
    · rename_i hne
      rw [h.owner, or_iff_left fun hn => hne hn.2.symm]
  · rintro host' n' (hn | ⟨-, rfl⟩)
    · exact h.nonneg host' n' hn
    · exact of_decide_eq_true hnonneg

theorem Holds.giveAll (h : d.Holds named assigned) {host : String} (hhost : named host)
    {ids : List (List Char)} (hd : d.giveAll host ids = .ok d') :
    d'.Holds named fun host' n =>
      assigned host' n ∨ host' = host ∧ n ∈ ids.filterMap (Text.readInteger .int32) := by
  induction ids generalizing d assigned with
  | nil =>
    obtain rfl := Except.ok.inj hd
    refine h.congr (fun _ => Iff.rfl) fun host' n => (or_iff_left ?_).symm
    rintro ⟨-, hn⟩
    cases hn
  | cons id ids ih =>
    unfold Draft.giveAll at hd
    split at hd
    · cases hd
    rename_i d₁ hgive
    refine (ih (h.give hhost hgive) hd).congr (fun _ => Iff.rfl) fun host' n => ?_
    simp only [List.mem_filterMap, List.mem_cons, exists_eq_or_imp, or_assoc, and_or_left]

theorem Holds.entry (h : d.Holds named assigned) {e : List Char} (hd : d.entry e = .ok d') :
    d'.Holds (fun host => named host ∨ hostOf? e = some host) fun host n =>
      assigned host n ∨ hostOf? e = some host ∧ n ∈ numbersOf e := by
  unfold Draft.entry at hd
  split at hd
  · cases hd
  rename_i host ids hcut
  split at hd
  · cases hd
  rename_i name hname
  refine ((h.name _).giveAll (.inr rfl) hd).congr (fun host' => ?_) fun host' n => ?_
  · rw [hostOf?, hcut, Option.map_some, Option.some.injEq, eq_comm (a := host')]
  · rw [hostOf?, numbersOf, hcut, Option.map_some, Option.some.injEq, eq_comm (a := host')]

theorem Holds.allEntries (h : d.Holds named assigned) {es : List (List Char)}
    (hd : d.allEntries es = .ok d') :
    d'.Holds (fun host => named host ∨ ∃ e ∈ es, hostOf? e = some host) fun host n =>
      assigned host n ∨ ∃ e ∈ es, hostOf? e = some host ∧ n ∈ numbersOf e := by
  induction es generalizing d named assigned with
  | nil =>
    obtain rfl := Except.ok.inj hd
    refine h.congr (fun host => ?_) fun host n => ?_
    · simp only [List.not_mem_nil, false_and, exists_false, or_false]
    · simp only [List.not_mem_nil, false_and, exists_false, or_false]
  | cons e es ih =>
    unfold Draft.allEntries at hd
    split at hd
    · cases hd
    rename_i d₁ hentry
    refine (ih (h.entry hentry) hd).congr (fun host => ?_) fun host n => ?_
    · simp only [List.mem_cons, exists_eq_or_imp, or_assoc]
    · simp only [List.mem_cons, exists_eq_or_imp, or_assoc]

end Draft
/-! ## Complete assignments -/

/-- All numbers that have an owner, host by host. -/
def ownedNumbers (a : StaticAssignment) : List Int := a.hosts.flatMap (·.2)

theorem length_ownedNumbers (a : StaticAssignment) : a.ownedNumbers.length = a.total := by
  rw [ownedNumbers, List.length_flatMap, total, List.sum_eq_foldl]

variable {declaration : String} {a : StaticAssignment} {named : String → Prop}
  {assigned : String → Int → Prop}

theorem holds_of_parse (h : parse declaration = .ok (some a)) :
    ∃ owners, Draft.Holds ⟨a.hosts, owners⟩ (Names declaration) (Assigns declaration) ∧
      a.gap? = none := by
  unfold parse at h
  split at h
  · cases h
  rename_i d hd
  have hholds := Draft.holds_empty.allEntries hd
  split at h
  · cases h
  dsimp only at h
  split at h
  · cases h
  rename_i hgap
  obtain rfl := Option.some.inj (Except.ok.inj h)
  exact ⟨d.owners, hholds.congr (fun _ => iff_of_eq (false_or _)) fun _ _ => iff_of_eq (false_or _), hgap⟩

section

variable {owners : SortedMap Int String} (h : Draft.Holds ⟨a.hosts, owners⟩ named assigned)

include h

theorem mem_of_mem_hosts {x : String × SortedSet Int} (hx : x ∈ a.hosts) :
    SortedSet.Sorted x.2 ∧ ∀ n, n ∈ x.2 ↔ assigned x.1 n := by
  have hlists := h.lists x.1
  rw [SortedMap.find?_of_mem h.sorted hx] at hlists
  exact hlists.getD

theorem mem_ownedNumbers {n : Int} : n ∈ a.ownedNumbers ↔ ∃ host, assigned host n := by
  rw [ownedNumbers, List.mem_flatMap]
  refine ⟨fun ⟨x, hx, hn⟩ => ⟨x.1, ((mem_of_mem_hosts h hx).2 n).mp hn⟩, fun ⟨host, hn⟩ => ?_⟩
  have hlists := h.lists host
  cases hfind : a.hosts.find? host with
  | none =>
    rw [hfind] at hlists
    obtain ⟨-, hnone⟩ | - := hlists
    exact absurd hn (hnone n)
  | some ns =>
    rw [hfind] at hlists
    exact ⟨(host, ns), SortedMap.mem_of_find? hfind, (hlists.getD.2 n).mpr hn⟩

theorem owns_iff {n : Int} : a.owns n = true ↔ n ∈ a.ownedNumbers := by
  rw [owns, List.any_eq_true, ownedNumbers, List.mem_flatMap]
  exact exists_congr fun x => and_congr_right fun hx =>
    SortedSet.contains_iff_mem (mem_of_mem_hosts h hx).1

/-- As many numbers are owned as the total says, and every number below it is: so there are no
others. -/
theorem assigned_iff (hgap : a.gap? = none) (n : Int) :
    (∃ host, assigned host n) ↔ 0 ≤ n ∧ n < a.total := by
  have hall : ∀ k < a.total, (k : Int) ∈ a.ownedNumbers := fun k hk => by
    have howns := List.find?_eq_none.mp hgap k (List.mem_range.mpr hk)
    exact (owns_iff h).mp (by simpa using howns)
  have hbelow : ((List.range a.total).map Int.ofNat).Nodup :=
    List.nodup_range.map fun _ _ heq => Int.ofNat.inj heq
  have hsub : (List.range a.total).map Int.ofNat ⊆ a.ownedNumbers := fun m hm => by
    obtain ⟨k, hk, rfl⟩ := List.mem_map.mp hm
    exact hall k (List.mem_range.mp hk)
  have hlength : a.ownedNumbers.length = ((List.range a.total).map Int.ofNat).length := by
    rw [length_ownedNumbers, List.length_map, List.length_range]
  have hperm := (List.subperm_of_subset hbelow hsub).perm_of_length_le (Nat.le_of_eq hlength)
  rw [← mem_ownedNumbers h, ← hperm.mem_iff, List.mem_map]
  refine ⟨?_, fun ⟨hnonneg, hlt⟩ => ⟨n.toNat, List.mem_range.mpr (by omega), by simp; omega⟩⟩
  rintro ⟨k, hk, rfl⟩
  have hk := List.mem_range.mp hk
  exact ⟨Int.natCast_nonneg k, Int.ofNat_lt.mpr hk⟩

end

end StaticAssignment

/-! ## Resolvers -/

namespace Resolver

variable {counts : SortedMap String Nat} {topics : List String} {seen cs : SortedSet Nat}

/-- The gathered counts are those of the topics, and those gathered before. -/
theorem gatherCounts_ok (h : gatherCounts counts topics seen = .ok cs) :
    (∀ n, n ∈ cs ↔ n ∈ seen ∨ ∃ t ∈ topics, counts.find? t = some n) ∧
      (∀ t ∈ topics, ∃ n, counts.find? t = some n) ∧ (seen.Sorted → cs.Sorted) := by
  induction topics generalizing seen with
  | nil =>
    obtain rfl := Except.ok.inj h
    refine ⟨fun n => (or_iff_left ?_).symm, ?_, id⟩
    · rintro ⟨t, ht, -⟩
      cases ht
    · intro t ht
      cases ht
  | cons topic topics ih =>
    unfold gatherCounts at h
    split at h
    · cases h
    rename_i count hcount
    obtain ⟨hmem, hfound, hsorted⟩ := ih h
    refine ⟨fun n => ?_, fun t ht => ?_, fun hseen => hsorted (SortedSet.sorted_insert hseen count)⟩
    · rw [hmem, SortedSet.mem_insert]
      simp only [List.mem_cons, exists_eq_or_imp, hcount, Option.some.injEq, eq_comm (a := count)]
      rw [or_assoc, or_left_comm]
    · obtain rfl | ht := List.mem_cons.mp ht
      · exact ⟨count, hcount⟩
      · exact hfound t ht

theorem exists_gatherCounts (h : ∀ t ∈ topics, ∃ n, counts.find? t = some n)
    (seen : SortedSet Nat) : ∃ cs, gatherCounts counts topics seen = .ok cs := by
  induction topics generalizing seen with
  | nil => exact ⟨seen, rfl⟩
  | cons topic topics ih =>
    obtain ⟨n, hn⟩ := h topic List.mem_cons_self
    obtain ⟨cs, hcs⟩ := ih (fun t ht => h t (List.mem_cons_of_mem _ ht)) (SortedSet.insert n seen)
    exact ⟨cs, by rw [gatherCounts, hn]; exact hcs⟩

variable {r r' : Resolver} {total : Nat}

/-- What is resolved is the own subscription. -/
theorem eq_of_resolve {s : Subscription} (h : r.resolve counts = .ok s) : s = r.subscription := by
  unfold resolve at h
  split at h
  · exact (Except.ok.inj h).symm
  split at h
  · cases h
  · cases h
  · split at h
    · exact (Except.ok.inj h).symm
    · cases h
  · cases h

/-- The counts are accepted if they all are the number of the assigned partitions. -/
theorem resolve_ok_iff (hr : r.assigned = some total) (hne : r.subscription.topicNames ≠ []) :
    r.resolve counts = .ok r.subscription ↔
      ∀ t ∈ r.subscription.topicNames, counts.find? t = some total := by
  constructor
  · intro h t ht
    simp only [resolve, hr] at h
    split at h
    · cases h
    · cases h
    · rename_i count hgather
      split at h
      · rename_i heq
        obtain ⟨hmem, hfound, -⟩ := gatherCounts_ok hgather
        obtain ⟨n, hn⟩ := hfound t ht
        rw [hn, ← heq, List.mem_singleton.mp ((hmem n).mpr (.inr ⟨t, ht, hn⟩))]
      · cases h
    · cases h
  · intro hall
    obtain ⟨cs, hgather⟩ := exists_gatherCounts (fun t ht => ⟨total, hall t ht⟩) []
    obtain ⟨hmem, -, hsorted⟩ := gatherCounts_ok hgather
    obtain ⟨t, ht⟩ := List.exists_mem_of_ne_nil _ hne
    have hcs : cs = [total] := by
      refine SortedSet.eq_singleton (hsorted List.Pairwise.nil) (List.ne_nil_of_mem
        ((hmem total).mpr (.inr ⟨t, ht, hall t ht⟩))) fun n hn => ?_
      obtain hn | ⟨u, hu, hn⟩ := (hmem n).mp hn
      · cases hn
      · exact Option.some.inj (hn.symm.trans (hall u hu))
    simp only [resolve, hr, hgather, hcs, if_true]

/-- Counts are refused by all hosts, and for the same reason, or by none. -/
theorem resolve_error_iff (hassigned : r.assigned = r'.assigned)
    (htopics : r.subscription.topicNames = r'.subscription.topicNames) (e : IntakeError) :
    r.resolve counts = .error e ↔ r'.resolve counts = .error e := by
  unfold resolve
  rw [hassigned, htopics]
  repeat' split
  all_goals simp only [reduceCtorEq]

/-- The resolver of a host that the assignment names, and no other host has one. -/
theorem ofSelection_ok_iff {a : StaticAssignment} {names : SortedSet String} {host : String} :
    ofSelection (.names names) (some a) host = .ok r ↔
      ∃ owned, a.hosts.find? host = some owned ∧
        r = ⟨.partitions (names.map fun topic => (topic, owned)), some a.total⟩ := by
  simp only [ofSelection, StaticAssignment.ownedBy?]
  cases hfind : a.hosts.find? host with
  | none => simp
  | some owned => simp [eq_comm (a := r)]

theorem topicNames_partitions (names : SortedSet String) (owned : SortedSet Int) :
    (Subscription.partitions (names.map fun topic => (topic, owned))).topicNames = names := by
  rw [Subscription.topicNames, SortedMap.keys, List.map_map]
  exact List.map_id names

/-- The same numbers are selected on each of the topics. -/
theorem selects_partitions_iff {names : SortedSet String} (hnames : names.Sorted)
    {owned : SortedSet Int} (howned : owned.Sorted) {p : Partition} :
    (Subscription.partitions (names.map fun topic => (topic, owned))).selects p = true ↔
      p.topic ∈ names ∧ p.number ∈ owned := by
  have hsorted : SortedMap.Sorted (names.map fun topic => (topic, owned)) :=
    List.pairwise_map.mpr hnames
  simp only [Subscription.selects]
  by_cases htopic : p.topic ∈ names
  · rw [SortedMap.find?_of_mem hsorted (List.mem_map.mpr ⟨p.topic, htopic, rfl⟩)]
    simp only [SortedSet.contains_iff_mem howned, htopic, true_and]
  · cases hfind : SortedMap.find? p.topic (names.map fun topic => (topic, owned)) with
    | none => simp only [htopic, false_and, Bool.false_eq_true]
    | some numbers =>
      obtain ⟨topic, hmem, heq⟩ := List.mem_map.mp (SortedMap.mem_of_find? hfind)
      exact absurd ((Prod.mk.inj heq).1 ▸ hmem) htopic

end Resolver

/-! ## Main result -/

namespace StaticAssignment

/-- The resolver of a host for some topics. -/
def resolverOf (a : StaticAssignment) (topics : List String) (host : String) :
    Except IntakeError Resolver :=
  Resolver.ofSelection (.names (.ofList topics)) (some a) host

/-- The resolver of the host accepts the counts, and returns the subscription. -/
def ResolvesTo (a : StaticAssignment) (topics : List String) (counts : SortedMap String Nat)
    (host : String) (s : Subscription) : Prop :=
  ∃ r, a.resolverOf topics host = .ok r ∧ r.resolve counts = .ok s

section

variable {declaration : String} {a : StaticAssignment} {topics : List String}
  {counts : SortedMap String Nat} {owners : SortedMap Int String}
  (h : Draft.Holds ⟨a.hosts, owners⟩ (Names declaration) (Assigns declaration))

include h

theorem exists_resolver_iff {host : String} :
    (∃ r, a.resolverOf topics host = .ok r) ↔ Names declaration host := by
  have hlists := h.lists host
  simp only [resolverOf, Resolver.ofSelection_ok_iff]
  cases hfind : a.hosts.find? host with
  | none =>
    rw [hfind] at hlists
    obtain ⟨hnamed, -⟩ | - := hlists
    simp [hnamed]
  | some owned =>
    rw [hfind] at hlists
    obtain - | ⟨hnamed, -, -⟩ := hlists
    simp [hnamed]

/-- A host that has a resolver selects, on each topic, the numbers that are assigned to it. -/
theorem selects_iff {host : String} {r : Resolver} (hr : a.resolverOf topics host = .ok r)
    (p : Partition) :
    r.subscription.selects p = true ↔ p.topic ∈ topics ∧ Assigns declaration host p.number := by
  obtain ⟨owned, hfind, rfl⟩ := Resolver.ofSelection_ok_iff.mp hr
  have hlists := h.lists host
  rw [hfind] at hlists
  obtain ⟨howned, hmem⟩ := hlists.getD
  exact (Resolver.selects_partitions_iff (SortedSet.sorted_ofList topics) howned).trans
    (and_congr SortedSet.mem_ofList (hmem p.number))

end

theorem topicNames_of_resolver {a : StaticAssignment} {topics : List String} {host : String}
    {r : Resolver} (hr : a.resolverOf topics host = .ok r) :
    r.assigned = some a.total ∧ r.subscription.topicNames = SortedSet.ofList topics := by
  obtain ⟨owned, -, rfl⟩ := Resolver.ofSelection_ok_iff.mp hr
  exact ⟨rfl, Resolver.topicNames_partitions _ owned⟩

/-- A static assignment splits the topics among its hosts, completely and without overlap.  The
hosts with a resolver are those that the declaration names.  They accept and refuse the same counts,
and they accept those in which each topic has as many partitions as were assigned in all.  Then each
of these partitions is selected by the subscription of exactly one host, and nothing else is by that
of any. -/
theorem topics_split_among_hosts {declaration : String} {a : StaticAssignment}
    (hparse : parse declaration = .ok (some a)) {topics : List String} (htopics : topics ≠ [])
    (counts : SortedMap String Nat) :
    (∀ host, (∃ r, a.resolverOf topics host = .ok r) ↔ Names declaration host) ∧
    (∀ host host' r r', a.resolverOf topics host = .ok r → a.resolverOf topics host' = .ok r' →
      ∀ e, r.resolve counts = .error e ↔ r'.resolve counts = .error e) ∧
    (∀ host r, a.resolverOf topics host = .ok r →
      ((∃ s, r.resolve counts = .ok s) ↔ ∀ t ∈ topics, counts.find? t = some a.total)) ∧
    ((∀ t ∈ topics, counts.find? t = some a.total) →
      ∀ t ∈ topics, ∀ n : Int, 0 ≤ n → n < a.total →
        ∃! host, ∃ s, a.ResolvesTo topics counts host s ∧ s.selects ⟨t, n⟩ = true) ∧
    ∀ host s p, a.ResolvesTo topics counts host s → s.selects p = true →
      p.topic ∈ topics ∧ Assigns declaration host p.number ∧ 0 ≤ p.number ∧ p.number < a.total := by
  obtain ⟨owners, hholds, hgap⟩ := holds_of_parse hparse
  have haccepted : ∀ host r, a.resolverOf topics host = .ok r →
      (r.resolve counts = .ok r.subscription ↔ ∀ t ∈ topics, counts.find? t = some a.total) :=
    fun host r hr => by
      obtain ⟨hassigned, hnames⟩ := topicNames_of_resolver hr
      obtain ⟨t, ht⟩ := List.exists_mem_of_ne_nil _ htopics
      have hne : r.subscription.topicNames ≠ [] := by
        rw [hnames]
        exact List.ne_nil_of_mem (SortedSet.mem_ofList.mpr ht)
      rw [Resolver.resolve_ok_iff hassigned hne, hnames]
      exact forall_congr' fun t => imp_congr_left SortedSet.mem_ofList
  refine ⟨fun host => exists_resolver_iff hholds, fun host host' r r' hr hr' e => ?_,
    fun host r hr => ?_, fun hcounts t ht n hnonneg hlt => ?_, ?_⟩
  · obtain ⟨hassigned, hnames⟩ := topicNames_of_resolver hr
    obtain ⟨hassigned', hnames'⟩ := topicNames_of_resolver hr'
    exact Resolver.resolve_error_iff (hassigned.trans hassigned'.symm) (hnames.trans hnames'.symm) e
  · rw [← haccepted host r hr]
    exact ⟨fun ⟨s, hs⟩ => Resolver.eq_of_resolve hs ▸ hs, fun hs => ⟨_, hs⟩⟩
  · obtain ⟨host, hn⟩ := (assigned_iff hholds hgap n).mpr ⟨hnonneg, hlt⟩
    have ⟨e, he, hhost, _⟩ := hn
    obtain ⟨r, hr⟩ : ∃ r, a.resolverOf topics host = .ok r :=
      (exists_resolver_iff hholds).mpr ⟨e, he, hhost⟩
    refine ⟨host, ⟨_, ⟨r, hr, (haccepted host r hr).mpr hcounts⟩,
      (selects_iff hholds hr _).mpr ⟨ht, hn⟩⟩, ?_⟩
    rintro host' ⟨s, ⟨r', hr', hs⟩, hselects⟩
    obtain rfl := Resolver.eq_of_resolve hs
    exact hholds.owner_unique ((selects_iff hholds hr' _).mp hselects).2 hn
  · rintro host s p ⟨r, hr, hs⟩ hselects
    obtain rfl := Resolver.eq_of_resolve hs
    obtain ⟨htopic, hn⟩ := (selects_iff hholds hr p).mp hselects
    exact ⟨htopic, hn, (assigned_iff hholds hgap p.number).mp ⟨host, hn⟩⟩

/-- Hosts that are declared twice, and one that owns nothing. -/
def fourPartitions : String := "b=1; a = 0,2 ;idle =;b=3"

theorem topics_split_among_hosts_fourPartitions :
    let a : StaticAssignment := ⟨[("a", [0, 2]), ("b", [1, 3]), ("idle", [])]⟩
    let counts : SortedMap String Nat := [("t", 4), ("u", 4)]
    parse fourPartitions = .ok (some a) ∧ a.total = 4 ∧
      (∃ r, a.resolverOf ["u", "t"] "idle" = .ok r ∧ (∃ s, r.resolve counts = .ok s) ∧
        ¬ ∃ s, r.resolve [("t", 4), ("u", 5)] = .ok s) ∧
      ∀ t ∈ ["u", "t"], ∀ n : Int, 0 ≤ n → n < 4 →
        ∃! host, ∃ s, a.ResolvesTo ["u", "t"] counts host s ∧ s.selects ⟨t, n⟩ = true := by
  intro a counts
  have hparse : parse fourPartitions = .ok (some a) := by decide +kernel
  have htotal : ∀ t ∈ ["u", "t"], counts.find? t = some a.total := by decide +kernel
  obtain ⟨hnames, -, haccepted, hsplit, -⟩ :=
    topics_split_among_hosts hparse (List.cons_ne_nil "u" ["t"]) counts
  obtain ⟨-, -, hrefused, -⟩ :=
    topics_split_among_hosts hparse (List.cons_ne_nil "u" ["t"]) [("t", 4), ("u", 5)]
  have hidle : Names fourPartitions "idle" :=
    ⟨"idle =".toList, by decide +kernel, by decide +kernel⟩
  obtain ⟨r, hr⟩ := (hnames "idle").mpr hidle
  refine ⟨hparse, rfl, ⟨r, hr, (haccepted "idle" r hr).mpr htotal, fun hs => ?_⟩, hsplit htotal⟩
  exact absurd ((hrefused "idle" r hr).mp hs "u" List.mem_cons_self) (by decide +kernel)

end StaticAssignment
end RecordIntake
