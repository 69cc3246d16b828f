import RecordIntake.Configuration.Checks
import RecordIntake.Proofs.SortedMap
import RecordIntake.Regex.Engine

/-!
What a client is configured with.  The library sets its own properties first and what is passed
through after them, so for each property the last passed through value counts, and the library's own
one only if there is none.

That holds of the two properties that switch automatic commits off as it does of all others.  So an
accepted configuration leaves these off exactly if nothing that is passed through switches them on.
-/
namespace RecordIntake

namespace ClientProperties

/-- The last value that a list of settings gives a property. -/
def lastValue? (name : String) : List (String × String) → Option String
  | [] => none
  | (n, v) :: rest => (lastValue? name rest).or (if name = n then some v else none)

theorem mem_of_lastValue? {name v : String} {entries : List (String × String)}
    (h : lastValue? name entries = some v) : (name, v) ∈ entries := by
  induction entries with
  | nil => cases h
  | cons e rest ih =>
    obtain ⟨n, u⟩ := e
    rw [lastValue?] at h
    cases hrest : lastValue? name rest with
    | some w =>
      rw [hrest, Option.some_or] at h
      exact List.mem_cons_of_mem _ (ih (hrest.trans h))
    | none =>
      rw [hrest, Option.none_or] at h
      by_cases hn : name = n
      · rw [if_pos hn] at h
        obtain rfl := Option.some.inj h
        rw [hn]
        exact List.mem_cons_self
      · rw [if_neg hn] at h
        cases h

theorem lastValue?_append (name : String) (earlier later : List (String × String)) :
    lastValue? name (earlier ++ later) = (lastValue? name later).or (lastValue? name earlier) := by
  induction earlier with
  | nil => exact (Option.or_none ..).symm
  | cons e earlier ih =>
    rw [List.cons_append, lastValue?, ih, lastValue?, Option.or_assoc]

/-- Of all settings of a property the last one counts. -/
theorem find?_withAll (name : String) (entries : List (String × String)) (ps : ClientProperties) :
    (ps.withAll entries).find? name = (lastValue? name entries).or (ps.find? name) := by
  induction entries generalizing ps with
  | nil => rfl
  | cons e rest ih =>
    obtain ⟨n, v⟩ := e
    have hinsert : (SortedMap.insert n v ps).find? name =
        (if name = n then some v else none).or (ps.find? name) := by
      rw [SortedMap.find?_insert]
      by_cases hn : name = n
      · rw [if_pos hn, if_pos hn, Option.some_or]
      · rw [if_neg hn, if_neg hn, Option.none_or]
    show (withAll rest (SortedMap.insert n v ps)).find? name = _
    rw [ih, hinsert, lastValue?, Option.or_assoc]

/-- The properties that would let the client commit by itself. -/
def commitSwitches : List String := ["enable.auto.commit", "enable.auto.offset.store"]

end ClientProperties

namespace Configuration

open ClientProperties

/-- What the library sets by itself, in this order. -/
def ownSettings (c : Configuration) : List (String × String) :=
  [("bootstrap.servers", c.brokers), ("group.id", c.group), ("enable.auto.commit", "false"),
    ("enable.auto.offset.store", "false"), ("enable.partition.eof", "false"),
    ("socket.timeout.ms", "60000")] ++
  (if c.tls then
    [("security.protocol", "ssl"), ("enable.ssl.certificate.verification", "false")] else []) ++
  [("auto.offset.reset", if c.offsetReset = "none" then "error" else c.offsetReset),
    ("isolation.level", if c.honorTransactions then "read_committed" else "read_uncommitted"),
    ("socket.timeout.ms", toString (1000 * c.commsTimeout / 1000)), ("client.id", c.localHost)]

variable {c : Configuration} {compile : Pattern.Compiler} {entries : List (String × String)}

theorem clientProperties_eq (h : c.passthroughProperties = .ok entries) :
    c.clientProperties = .ok (withAll (c.ownSettings ++ entries) []) := by
  unfold clientProperties
  rw [h, withAll, List.foldl_append, ownSettings]
  cases c.tls with
  | false => rfl
  | true => rfl

/-- Before anything is passed through automatic commits are off: none of the library's own settings
names one of their switches again. -/
theorem lastValue?_ownSettings {name : String} (h : name ∈ commitSwitches) :
    lastValue? name c.ownSettings = some "false" := by
  simp only [commitSwitches, List.mem_cons, List.not_mem_nil, or_false] at h
  rcases h with rfl | rfl
  · cases htls : c.tls <;> simp [ownSettings, htls, lastValue?]
  · cases htls : c.tls <;> simp [ownSettings, htls, lastValue?]

/-- An accepted configuration has readable properties to pass through. -/
theorem passthroughProperties_of_validate (h : c.validate compile = .ok ()) :
    ∃ entries, c.passthroughProperties = .ok entries := by
  cases hp : c.passthroughProperties with
  | ok entries => exact ⟨entries, rfl⟩
  | error e =>
    unfold validate at h
    rw [hp] at h
    cases hr : c.resolver compile with
    | error e' =>
      rw [hr] at h
      cases h
    | ok r =>
      cases hs : c.settings compile with
      | error e' =>
        rw [hr, hs] at h
        cases h
      | ok s =>
        rw [hr, hs] at h
        cases h

/-- Each client of an accepted configuration has automatic commits off exactly if the last value
that is passed through for each of their switches, if there is one, is off as well.  So nothing but
a passed through property that names a switch can set it. -/
theorem automatic_commits_stay_off (h : c.validate compile = .ok ()) :
    ∃ entries ps, c.passthroughProperties = .ok entries ∧ c.clientProperties = .ok ps ∧
      (∀ name ∈ commitSwitches, ps.find? name = some ((lastValue? name entries).getD "false")) ∧
      ((∀ name ∈ commitSwitches, ∀ v, (name, v) ∈ entries → v = "false") →
        ∀ name ∈ commitSwitches, ps.find? name = some "false") := by
  obtain ⟨entries, hentries⟩ := passthroughProperties_of_validate h
  have hvalue : ∀ name ∈ commitSwitches,
      (withAll (c.ownSettings ++ entries) []).find? name =
        some ((lastValue? name entries).getD "false") := by
    intro name hname
    rw [find?_withAll, lastValue?_append, lastValue?_ownSettings hname]
    cases lastValue? name entries with
    | none => rfl
    | some v => rfl
  refine ⟨entries, _, hentries, clientProperties_eq hentries, hvalue, ?_⟩
  intro hoff name hname
  rw [hvalue name hname]
  cases hlast : lastValue? name entries with
  | none => rfl
  | some v => rw [Option.getD_some, hoff name hname v (mem_of_lastValue? hlast)]

/-- The variables of a process in which just the properties to pass through are set. -/
def passingThrough (properties : String) : Variables := fun name =>
  if name = "KAFKA_CONSUMER_PROPERTIES" then some properties else none

/-- A switch is passed through twice, and what it is set to first does not count. -/
theorem automatic_commits_stay_off_passingThrough :
    ∃ c ps, read (passingThrough
        "fetch.min.bytes=1024, enable.auto.commit=true, enable.auto.commit=false") = .ok c ∧
      (∀ compile, c.validate compile = .ok ()) ∧ c.clientProperties = .ok ps ∧
      ∀ name ∈ commitSwitches, ps.find? name = some "false" := by
  obtain ⟨c, hread, hvalid, hpassed⟩ : ∃ c, read (passingThrough
        "fetch.min.bytes=1024, enable.auto.commit=true, enable.auto.commit=false") = .ok c ∧
      (∀ compile, c.validate compile = .ok ()) ∧
      c.passthroughProperties = .ok [("fetch.min.bytes", "1024"), ("enable.auto.commit", "true"),
        ("enable.auto.commit", "false")] := ⟨_, rfl, fun _ => rfl, rfl⟩
  obtain ⟨entries, ps, hentries, hps, hvalue, -⟩ :=
    automatic_commits_stay_off (hvalid Regex.compile)
  obtain rfl := Except.ok.inj (hpassed.symm.trans hentries)
  refine ⟨c, ps, hread, hvalid, hps, ?_⟩
  intro name hname
  rw [hvalue name hname]
  revert name
  decide +kernel

/-- A switch that is passed through is set like any other property, so an accepted configuration can
have automatic commits on. -/
theorem passed_through_switch_wins :
    ∃ c ps, read (passingThrough "enable.auto.commit=true, enable.auto.offset.store=true") = .ok c ∧
      (∀ compile, c.validate compile = .ok ()) ∧ c.clientProperties = .ok ps ∧
      ∀ name ∈ commitSwitches, ps.find? name = some "true" := by
  refine ⟨_, _, rfl, fun _ => rfl, rfl, ?_⟩
  decide +kernel

end Configuration
end RecordIntake
