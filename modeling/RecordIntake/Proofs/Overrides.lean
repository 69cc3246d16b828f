import RecordIntake.Proofs.ClientProperties
import RecordIntake.Proofs.Declaration

/-!
Which value a client gets for each property.  The text that is passed through is a list of entries,
and of the entries that name a property the last one counts.  A property that no entry names has the
value that the library gives it, if it gives it one.

One entry without an equals sign spoils the whole text.  Checking a configuration stops at its first
fault, which may be another one, so it has to be shown of every check that nothing but a
configuration error comes out of it.
-/
namespace RecordIntake

/-! ## Configuration errors -/

/-- If there is an error, it is one of the configuration. -/
structure OnlyMisconfigured {α : Type} (r : Except IntakeError α) : Prop where
  text : ∀ e, r = .error e → ∃ text, e = .configuration text

namespace OnlyMisconfigured

variable {α β : Type}

theorem ok (a : α) : OnlyMisconfigured (.ok a) := ⟨nofun⟩

theorem error (text : String) :
    OnlyMisconfigured (.error (.configuration text) : Except IntakeError α) :=
  ⟨fun _ he => ⟨text, (Except.error.inj he).symm⟩⟩

theorem bind {r : Except IntakeError α} {f : α → Except IntakeError β} (hr : OnlyMisconfigured r)
    (hf : ∀ a, OnlyMisconfigured (f a)) : OnlyMisconfigured (r >>= f) := by
  cases r with
  | ok a => exact hf a
  | error e =>
    obtain ⟨text, rfl⟩ := hr.text e rfl
    exact error text

theorem ite {p : Prop} [Decidable p] {r r' : Except IntakeError α} (hr : OnlyMisconfigured r)
    (hr' : OnlyMisconfigured r') : OnlyMisconfigured (if p then r else r') := by
  split
  · exact hr
  · exact hr'

theorem mapM {f : α → Except IntakeError β} (hf : ∀ a, OnlyMisconfigured (f a)) (as : List α) :
    OnlyMisconfigured (as.mapM f) := by
  induction as with
  | nil => exact ok []
  | cons a as ih =>
    rw [List.mapM_cons]
    exact bind (hf a) fun b => bind ih fun bs => ok (b :: bs)

theorem mapError {ε : Type} {f : ε → IntakeError} (hf : ∀ e, ∃ text, f e = .configuration text)
    (r : Except ε α) : OnlyMisconfigured (r.mapError f) := by
  cases r with
  | ok a => exact ok a
  | error e =>
    obtain ⟨text, htext⟩ := hf e
    rw [Except.mapError, htext]
    exact error text

end OnlyMisconfigured

theorem TopicSelection.onlyMisconfigured_parse (compile : Pattern.Compiler) (kind topics : String) :
    OnlyMisconfigured (parse compile kind topics) := by
  have hnames : OnlyMisconfigured (ofNames topics.toList) := by
    unfold ofNames
    split
    · exact .error _
    · exact .ok _
  have hpattern : OnlyMisconfigured (ofPattern compile topics.toList) := by
    unfold ofPattern
    split
    · exact .ok _
    · exact .error _
  unfold parse
  exact .ite hnames (.ite hpattern (.error _))

theorem Resolver.onlyMisconfigured_ofSelection (topics : TopicSelection)
    (assignment : Option StaticAssignment) (host : String) :
    OnlyMisconfigured (ofSelection topics assignment host) := by
  unfold ofSelection
  split
  · exact .ok _
  · exact .ok _
  · exact .error _
  · split
    · exact .error _
    · exact .ok _

namespace Configuration

open ClientProperties

theorem onlyMisconfigured_resolver (c : Configuration) (compile : Pattern.Compiler) :
    OnlyMisconfigured (c.resolver compile) := by
  refine .bind (TopicSelection.onlyMisconfigured_parse ..) fun topics => ?_
  cases c.assignments with
  | none => exact Resolver.onlyMisconfigured_ofSelection ..
  | some declaration =>
    exact .bind ⟨fun e => StaticAssignment.error_of_parse⟩ fun assignment =>
      Resolver.onlyMisconfigured_ofSelection ..

theorem onlyMisconfigured_settings (c : Configuration) (compile : Pattern.Compiler) :
    OnlyMisconfigured (c.settings compile) := by
  have hheaders : OnlyMisconfigured (c.selectedHeaders compile) := by
    unfold selectedHeaders
    split
    · exact .ok _
    · exact .ok _
    · split
      · exact .ok _
      · exact .error _
  have hencoding : ∀ name e, ∃ text, encodingFault name e = .configuration text :=
    fun _ _ => ⟨_, rfl⟩
  exact .bind hheaders fun _ => .bind (.mapError (hencoding _) _) fun _ =>
    .bind (.mapError (hencoding _) _) fun _ => .ok _

theorem onlyMisconfigured_property (entry : List Char) : OnlyMisconfigured (property entry) := by
  unfold property
  split
  · exact .ok _
  · exact .error _

theorem onlyMisconfigured_passthroughProperties (c : Configuration) :
    OnlyMisconfigured c.passthroughProperties := by
  unfold passthroughProperties
  split
  · exact .ok _
  · exact .mapM onlyMisconfigured_property _

theorem onlyMisconfigured_validate (c : Configuration) (compile : Pattern.Compiler) :
    OnlyMisconfigured (c.validate compile) :=
  .bind (c.onlyMisconfigured_resolver compile) fun _ =>
    .bind (c.onlyMisconfigured_settings compile) fun _ =>
      .bind c.onlyMisconfigured_passthroughProperties fun _ =>
        .ite (.error _) (.ite (.error _) (.ite (.error _) (.ok _)))

/-! ## Entries -/

/-- The entries of the text that is passed through: what stands between its commas, trimmed and not
blank. -/
def passedThrough (c : Configuration) : List (List Char) :=
  Text.entries ',' (c.passthrough.getD "").toList

/-- An entry names a property before its first equals sign, and its value after it. -/
def Sets (entry : List Char) (name value : String) : Prop :=
  ∃ before after, entry = before ++ '=' :: after ∧ '=' ∉ before ∧
    String.ofList (Text.trim before) = name ∧ String.ofList (Text.trim after) = value

/-- Of the entries that name a property the last one gives it a value. -/
def LastSets (entries : List (List Char)) (name value : String) : Prop :=
  ∃ earlier entry later, entries = earlier ++ entry :: later ∧ Sets entry name value ∧
    ∀ e ∈ later, ∀ v, ¬ Sets e name v

/-- What an entry without an equals sign is refused with. -/
def refusal (entry : List Char) : IntakeError :=
  .configuration ("invalid Kafka property '" ++ String.ofList entry ++ "', expected key=value")

variable {c : Configuration} {entry : List Char} {name name' value value' : String}
  {entries : List (List Char)} {settings : List (String × String)}

theorem property_eq_ok_iff : property entry = .ok (name, value) ↔ Sets entry name value := by
  unfold property Sets
  constructor
  · intro h
    split at h
    · rename_i before after hcut
      obtain ⟨rfl, rfl⟩ := Prod.mk.inj (Except.ok.inj h)
      obtain ⟨hentry, hbefore⟩ := Text.cutAt_eq_some_iff.mp hcut
      exact ⟨before, after, hentry, hbefore, rfl, rfl⟩
    · cases h
  · rintro ⟨before, after, hentry, hbefore, rfl, rfl⟩
    rw [Text.cutAt_eq_some_iff.mpr ⟨hentry, hbefore⟩]

theorem Sets.unique (h : Sets entry name value) (h' : Sets entry name' value') :
    name = name' ∧ value = value' := by
  have hsame := (property_eq_ok_iff.mpr h).symm.trans (property_eq_ok_iff.mpr h')
  exact Prod.mk.inj (Except.ok.inj hsame)

theorem Sets.not_sets (h : Sets entry name value) (hne : name ≠ name') (v : String) :
    ¬ Sets entry name' v := fun h' => hne (h.unique h').1

theorem exists_sets (h : '=' ∈ entry) : ∃ name value, Sets entry name value := by
  obtain ⟨before, after, hentry, hbefore⟩ := List.eq_append_cons_of_mem h
  exact ⟨_, _, before, after, hentry, hbefore, rfl, rfl⟩

theorem property_of_not_mem (h : '=' ∉ entry) : property entry = .error (refusal entry) := by
  unfold property
  split
  · rename_i before after hcut
    obtain ⟨rfl, -⟩ := Text.cutAt_eq_some_iff.mp hcut
    exact absurd (List.mem_append_right _ List.mem_cons_self) h
  · rfl

theorem passthroughProperties_eq (c : Configuration) :
    c.passthroughProperties = c.passedThrough.mapM property := by
  unfold passthroughProperties passedThrough
  cases c.passthrough with
  | none => rfl
  | some text => rfl

/-- If every entry has an equals sign, all can be read. -/
theorem mapM_property (h : ∀ e ∈ entries, '=' ∈ e) :
    ∃ settings, entries.mapM property = .ok settings ∧
      List.Forall₂ (fun e s => Sets e s.1 s.2) entries settings := by
  induction entries with
  | nil => exact ⟨[], rfl, .nil⟩
  | cons e es ih =>
    obtain ⟨he, hes⟩ := List.forall_mem_cons.mp h
    obtain ⟨name, value, hsets⟩ := exists_sets he
    obtain ⟨settings, hread, hall⟩ := ih hes
    refine ⟨(name, value) :: settings, ?_, .cons hsets hall⟩
    rw [List.mapM_cons, property_eq_ok_iff.mpr hsets, hread]
    rfl

/-- Reading stops at the first entry without one. -/
theorem mapM_property_refused (h : entries.find? (fun e => !e.contains '=') = some entry) :
    entries.mapM property = .error (refusal entry) := by
  induction entries with
  | nil => cases h
  | cons e es ih =>
    rw [List.mapM_cons]
    by_cases he : '=' ∈ e
    · rw [List.find?_cons_of_neg (by simpa using he)] at h
      obtain ⟨name, value, hsets⟩ := exists_sets he
      rw [property_eq_ok_iff.mpr hsets, ih h]
      rfl
    · rw [List.find?_cons_of_pos (by simpa using he)] at h
      obtain rfl := Option.some.inj h
      rw [property_of_not_mem he]
      rfl

theorem lastValue?_of_not_sets (h : List.Forall₂ (fun e s => Sets e s.1 s.2) entries settings)
    (hnone : ∀ e ∈ entries, ∀ v, ¬ Sets e name v) : lastValue? name settings = none := by
  induction h with
  | nil => rfl
  | cons hsets _ ih =>
    obtain ⟨hfirst, hrest⟩ := List.forall_mem_cons.mp hnone
    rw [lastValue?, ih hrest, Option.none_or]
    exact if_neg fun heq => hfirst _ (heq ▸ hsets)

theorem lastValue?_of_lastSets (h : List.Forall₂ (fun e s => Sets e s.1 s.2) entries settings)
    (hlast : LastSets entries name value) : lastValue? name settings = some value := by
  obtain ⟨earlier, entry, later, rfl, hsets, hlater⟩ := hlast
  induction earlier generalizing settings with
  | nil =>
    obtain ⟨⟨n, v⟩, rest, hentry, hrest, rfl⟩ := List.forall₂_cons_left_iff.mp h
    obtain ⟨rfl, rfl⟩ := hsets.unique hentry
    rw [lastValue?, lastValue?_of_not_sets hrest hlater, Option.none_or, if_pos rfl]
  | cons e earlier ih =>
    obtain ⟨s, rest, -, hrest, rfl⟩ := List.forall₂_cons_left_iff.mp h
    rw [lastValue?, ih hrest, Option.some_or]

/-! ## The library's own values -/

/-- What the library gives a property by itself. -/
def ownValue? (c : Configuration) (name : String) : Option String :=
  match name with
  | "bootstrap.servers" => some c.brokers
  | "group.id" => some c.group
  | "client.id" => some c.localHost
  | "enable.auto.commit" => some "false"
  | "enable.auto.offset.store" => some "false"
  | "enable.partition.eof" => some "false"
  | "socket.timeout.ms" => some (toString c.commsTimeout)
  | "security.protocol" => if c.tls then some "ssl" else none
  | "enable.ssl.certificate.verification" => if c.tls then some "false" else none
  | "auto.offset.reset" => some (if c.offsetReset = "none" then "error" else c.offsetReset)
  | "isolation.level" =>
    some (if c.honorTransactions then "read_committed" else "read_uncommitted")
  | _ => none

/-- The timeout is the one property that the library sets twice. -/
theorem lastValue?_ownSettings_eq (c : Configuration) (name : String) :
    lastValue? name c.ownSettings = c.ownValue? name := by
  have htimeout : 1000 * c.commsTimeout / 1000 = c.commsTimeout := by omega
  unfold ownValue?
  split <;> cases htls : c.tls <;> simp_all [ownSettings, lastValue?]

/-! ## Main result -/

/-- Each property of a client has the value that the last entry for it passes through, or if there
is none, the library's own value, if there is one.  That is so whenever all entries can be read.  If
one has no equals sign, the configuration is refused, and the error tells the first of them. -/
theorem last_entry_wins (c : Configuration) :
    ((∀ e ∈ c.passedThrough, '=' ∈ e) →
      ∃ ps, c.clientProperties = .ok ps ∧ ∀ name,
        (∀ value, LastSets c.passedThrough name value → ps.find? name = some value) ∧
        ((∀ e ∈ c.passedThrough, ∀ value, ¬ Sets e name value) →
          ps.find? name = c.ownValue? name)) ∧
    ((∃ e ∈ c.passedThrough, '=' ∉ e) →
      ∃ entry, c.passedThrough.find? (fun e => !e.contains '=') = some entry ∧
        c.clientProperties = .error (refusal entry) ∧
        ∀ compile, ∃ text, c.validate compile = .error (.configuration text)) := by
  refine ⟨fun hall => ?_, fun ⟨e, he, hnot⟩ => ?_⟩
  · obtain ⟨settings, hread, hsets⟩ := mapM_property hall
    rw [← passthroughProperties_eq] at hread
    refine ⟨_, clientProperties_eq hread, fun name => ⟨fun value hlast => ?_, fun hnone => ?_⟩⟩
    · rw [find?_withAll, lastValue?_append, lastValue?_of_lastSets hsets hlast]
      rfl
    · rw [find?_withAll, lastValue?_append, lastValue?_of_not_sets hsets hnone, Option.none_or,
        lastValue?_ownSettings_eq]
      exact Option.or_none
  · have hsome : (c.passedThrough.find? fun e => !e.contains '=').isSome := by
      rw [List.find?_isSome]
      exact ⟨e, he, by simpa using hnot⟩
    obtain ⟨entry, hentry⟩ := Option.isSome_iff_exists.mp hsome
    have hrefused := mapM_property_refused hentry
    rw [← passthroughProperties_eq] at hrefused
    refine ⟨entry, hentry, ?_, fun compile => ?_⟩
    · unfold clientProperties
      rw [hrefused]
      rfl
    · cases hvalid : c.validate compile with
      | ok u =>
        obtain ⟨settings, hread⟩ := passthroughProperties_of_validate hvalid
        cases hread.symm.trans hrefused
      | error e =>
        obtain ⟨text, rfl⟩ := (c.onlyMisconfigured_validate compile).text e hvalid
        exact ⟨text, rfl⟩

/-- Blanks, an entry without anything in it, a second equals sign, and two properties that are set
twice, one of them by the library. -/
theorem last_entry_wins_setTwice :
    ∃ c c' ps, read (passingThrough
        " fetch.min.bytes = 1, ,socket.timeout.ms=5000,rack=a = b,fetch.min.bytes=1024") = .ok c ∧
      read (passingThrough "rack=a,rack") = .ok c' ∧ c.clientProperties = .ok ps ∧
      ps.find? "fetch.min.bytes" = some "1024" ∧ ps.find? "socket.timeout.ms" = some "5000" ∧
      ps.find? "rack" = some "a = b" ∧ ps.find? "group.id" = some "kafka-record-consumer" ∧
      c'.clientProperties = .error (refusal ['r', 'a', 'c', 'k']) ∧
      ∀ compile, ∃ text, c'.validate compile = .error (.configuration text) := by
  obtain ⟨c, hread, hentries, hgroup⟩ : ∃ c, read (passingThrough
        " fetch.min.bytes = 1, ,socket.timeout.ms=5000,rack=a = b,fetch.min.bytes=1024") = .ok c ∧
      c.passedThrough = ["fetch.min.bytes = 1".toList, "socket.timeout.ms=5000".toList,
        "rack=a = b".toList, "fetch.min.bytes=1024".toList] ∧
      c.group = "kafka-record-consumer" := ⟨_, rfl, by decide +kernel, rfl⟩
  obtain ⟨c', hread', hentries'⟩ : ∃ c', read (passingThrough "rack=a,rack") = .ok c' ∧
      c'.passedThrough = ["rack=a".toList, "rack".toList] := ⟨_, rfl, by decide +kernel⟩
  obtain ⟨ps, hps, hvalues⟩ :=
    (last_entry_wins c).1 (by rw [hentries]; decide +kernel)
  obtain ⟨entry, hentry, hrefused, hinvalid⟩ :=
    (last_entry_wins c').2 (by rw [hentries']; decide +kernel)
  have hfirst : Sets "fetch.min.bytes = 1".toList "fetch.min.bytes" "1" :=
    property_eq_ok_iff.mp rfl
  have hsecond : Sets "socket.timeout.ms=5000".toList "socket.timeout.ms" "5000" :=
    property_eq_ok_iff.mp rfl
  have hthird : Sets "rack=a = b".toList "rack" "a = b" := property_eq_ok_iff.mp rfl
  have hfourth : Sets "fetch.min.bytes=1024".toList "fetch.min.bytes" "1024" :=
    property_eq_ok_iff.mp rfl
  simp only [hentries, List.forall_mem_cons, List.not_mem_nil, false_implies, implies_true,
    and_true] at hvalues
  refine ⟨c, c', ps, hread, hread', hps, ?_, ?_, ?_, ?_, ?_, hinvalid⟩
  · exact (hvalues _).1 _ ⟨[_, _, _], _, [], rfl, hfourth, nofun⟩
  · refine (hvalues _).1 _ ⟨[_], _, _, rfl, hsecond, List.forall_mem_cons.mpr ⟨?_,
      List.forall_mem_singleton.mpr ?_⟩⟩
    · exact hthird.not_sets (by decide)
    · exact hfourth.not_sets (by decide)
  · exact (hvalues _).1 _ ⟨[_, _], _, _, rfl, hthird,
      List.forall_mem_singleton.mpr (hfourth.not_sets (by decide))⟩
  · have hown := (hvalues "group.id").2 ⟨hfirst.not_sets (by decide), hsecond.not_sets (by decide),
      hthird.not_sets (by decide), hfourth.not_sets (by decide)⟩
    exact hown.trans (congrArg some hgroup)
  · rw [hentries'] at hentry
    obtain rfl := Option.some.inj hentry
    exact hrefused

end Configuration
end RecordIntake
