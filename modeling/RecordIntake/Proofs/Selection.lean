import RecordIntake.Assignment.Resolver
import RecordIntake.Proofs.Engine

/-!
Topics that are chosen by a pattern.  The text is compiled with an anchor in front, and what is
compiled is all that is looked at.  So a text that is no expression is refused, but for one that
begins with a repetition sign: alone it is none, and behind the anchor it may be one.

On which topics are selected the anchor has no influence.  It stands before the first alternative
only, so both expressions may differ in what they match further on in a name.  But a topic is
selected by what is matched from the start of its name, whatever the alternatives, the flags or the
anchors that the expression has of its own.

All of this is said of any library that does what it documents.
-/
namespace RecordIntake
namespace TopicSelection

open Pattern (BeginsWithSign Documented MatchesFrom)

/-- Whether a kind of topics asks for a pattern; case and blanks around it do not count. -/
def AsksForPattern (kind : String) : Prop :=
  Text.lowerAscii (Text.trim kind.toList) = "pattern".toList

instance (kind : String) : Decidable (AsksForPattern kind) :=
  inferInstanceAs (Decidable (_ = _))

variable {compile : Pattern.Compiler} {alternatives : List Char → Option (List Stretches)}
  {kind : String}

theorem exists_of_toOption_map {ε α β : Type} {r : Except ε α} {f : α → β} {b : β}
    (h : r.toOption.map f = some b) : ∃ a, r = .ok a ∧ f a = b := by
  cases r with
  | error e => cases h
  | ok a => exact ⟨a, rfl, Option.some.inj h⟩

theorem parse_of_asksForPattern (hkind : AsksForPattern kind) (topics : String) :
    parse compile kind topics = ofPattern compile topics.toList := by
  have hplain : String.ofList (Text.lowerAscii (Text.trim kind.toList)) = "pattern" :=
    (congrArg String.ofList hkind).trans String.ofList_toList
  have hother : "pattern" ≠ "names" := by decide
  simp only [parse, hplain, if_neg hother, if_true]

/-- What is given as a pattern is refused, and yields no selection, if it is no expression; but not
if it begins with a repetition sign, for only what stands behind the anchor is looked at then. -/
theorem malformed_pattern_refused (h : Documented compile alternatives)
    (hkind : AsksForPattern kind) (topics : String) :
    let text := Text.trim topics.toList
    let anchored := String.ofList (Pattern.anchored text)
    (∀ s, parse compile kind topics = .ok s →
      (∃ q, s = .pattern q ∧ compile anchored = .ok q ∧ q.text = anchored) ∧
        ((alternatives text).isSome ∨ BeginsWithSign text)) ∧
    (alternatives text = none → ¬ BeginsWithSign text →
      ∃ explanation, compile anchored = .error explanation ∧
        parse compile kind topics =
          .error (.configuration ("invalid topic pattern: " ++ explanation))) ∧
    (BeginsWithSign text →
      alternatives text = none ∧
        ∃ explanation, compile (String.ofList text) = .error explanation) := by
  simp only [parse_of_asksForPattern hkind, ofPattern]
  generalize Text.trim topics.toList = text
  refine ⟨fun s hs => ?_, fun hnone hsign => ?_, fun hsign =>
    ⟨h.nothing_to_repeat hsign, h.error_of_sign hsign⟩⟩
  · cases hq : compile (String.ofList (Pattern.anchored text)) with
    | error explanation =>
      rw [hq] at hs
      cases hs
    | ok q =>
      rw [hq] at hs
      refine ⟨⟨q, (Except.ok.inj hs).symm, rfl, h.text_kept hq⟩, ?_⟩
      by_cases hsign : BeginsWithSign text
      · exact .inr hsign
      · exact .inl (h.isSome_of_anchored hsign hq)
  · cases hq : compile (String.ofList (Pattern.anchored text)) with
    | error explanation => exact ⟨explanation, rfl, rfl⟩
    | ok q =>
      have hsome := h.isSome_of_anchored hsign hq
      rw [hnone] at hsome
      cases hsome

theorem malformed_pattern_refused_openGroup :
    AsksForPattern " Pattern" ∧
      Regex.alternatives (Text.trim "events( ".toList) = none ∧
      ¬ BeginsWithSign (Text.trim "events( ".toList) ∧
      ∃ explanation,
        Regex.compile (String.ofList (Pattern.anchored (Text.trim "events( ".toList))) =
          .error explanation ∧
        parse Regex.compile " Pattern" "events( " =
          .error (.configuration ("invalid topic pattern: " ++ explanation)) := by
  have hkind : AsksForPattern " Pattern" := by decide +kernel
  have hnone : Regex.alternatives (Text.trim "events( ".toList) = none :=
    Option.isNone_iff_eq_none.mp (by decide +kernel)
  have hsign : ¬ BeginsWithSign (Text.trim "events( ".toList) := by
    have htext : Text.trim "events( ".toList = 'e' :: "vents(".toList := by decide +kernel
    rintro ⟨c, rest, h, hc⟩
    obtain ⟨rfl, -⟩ := List.cons.inj (htext.symm.trans h)
    exact absurd hc (by decide)
  exact ⟨hkind, hnone, hsign,
    (malformed_pattern_refused Regex.documented hkind "events( ").2.1 hnone hsign⟩

/-- A repetition sign at the beginning makes a text no expression, but repeats the anchor once it is
there: the consumer subscribes to what the anchored text matches. -/
theorem leading_sign_accepted :
    (∃ explanation, Regex.compile "*events" = .error explanation) ∧
      ∃ q, parse Regex.compile "pattern" "*events" = .ok (.pattern q) ∧ q.text = "^*events" := by
  have hsign : BeginsWithSign "*events".toList := ⟨'*', "events".toList, by decide, by decide⟩
  have hanchored : String.ofList (Pattern.anchored (Text.trim "*events".toList)) = "^*events" := by
    decide +kernel
  have hkind : AsksForPattern "pattern" := by decide +kernel
  have hcompiles : (Regex.compile "^*events").toOption.map (·.text) = some "^*events" := by
    decide +kernel
  obtain ⟨q, hq, htext⟩ := exists_of_toOption_map hcompiles
  refine ⟨Regex.documented.error_of_sign hsign, q, ?_, htext⟩
  rw [parse_of_asksForPattern hkind, ofPattern, hanchored, hq]

/-- The anchor changes nothing.  If an expression compiles with the anchor and without it, then what
the consumer subscribes to, when the expression is given as its pattern, are the topics in whose
names an alternative of the expression matches a first part, and these are the topics that the
expression selects without the anchor. -/
theorem anchor_selects_same_topics (h : Documented compile alternatives)
    (hkind : AsksForPattern kind) (topics host : String) {q q' : Pattern}
    (hq : compile (String.ofList (Text.trim topics.toList)) = .ok q)
    (hq' : compile (String.ofList (Pattern.anchored (Text.trim topics.toList))) = .ok q') :
    (∃ selection resolver, parse compile kind topics = .ok selection ∧
      Resolver.ofSelection selection none host = .ok resolver ∧
      ∀ counts, resolver.resolve counts = .ok (.pattern q')) ∧
    ∃ bs, alternatives (Text.trim topics.toList) = some bs ∧ ∀ p : Partition,
      ((Subscription.pattern q').selects p = true ↔ MatchesFrom bs p.topic 0) ∧
      (Subscription.pattern q').selects p = (Subscription.pattern q).selects p := by
  refine ⟨⟨.pattern q', ⟨.pattern q', none⟩, ?_, rfl, fun _ => rfl⟩, ?_⟩
  · rw [parse_of_asksForPattern hkind, ofPattern, hq']
  · obtain ⟨bs, hbs, hmatches⟩ := h.matchesStart_anchored hq hq'
    refine ⟨bs, hbs, fun p => ?_⟩
    obtain ⟨hplain, hanchored⟩ := hmatches p.topic
    exact ⟨hanchored, Bool.eq_iff_iff.mpr (hanchored.trans hplain.symm)⟩

/-- Flags in front, two alternatives and an anchor before the second one. -/
theorem anchor_selects_same_topics_mixed :
    AsksForPattern "Pattern " ∧ ∃ q q',
      Regex.compile (String.ofList (Text.trim " (?i)ev|^b ".toList)) = .ok q ∧
      Regex.compile (String.ofList (Pattern.anchored (Text.trim " (?i)ev|^b ".toList))) = .ok q' ∧
      (Subscription.pattern q').selects ⟨"EV-eu", 3⟩ = true ∧
      (Subscription.pattern q').selects ⟨"old-ev", 3⟩ = false ∧
      (∃ selection resolver, parse Regex.compile "Pattern " " (?i)ev|^b " = .ok selection ∧
        Resolver.ofSelection selection none "a" = .ok resolver ∧
        ∀ counts, resolver.resolve counts = .ok (.pattern q')) ∧
      ∃ bs, Regex.alternatives (Text.trim " (?i)ev|^b ".toList) = some bs ∧ ∀ p : Partition,
        ((Subscription.pattern q').selects p = true ↔ MatchesFrom bs p.topic 0) ∧
        (Subscription.pattern q').selects p = (Subscription.pattern q).selects p := by
  have hkind : AsksForPattern "Pattern " := by decide +kernel
  have hplain : (Regex.compile (String.ofList (Text.trim " (?i)ev|^b ".toList))).toOption.map
      (·.text) = some "(?i)ev|^b" := by decide +kernel
  have hanchored : (Regex.compile
      (String.ofList (Pattern.anchored (Text.trim " (?i)ev|^b ".toList)))).toOption.map
        (fun q => (q.matchesStart "EV-eu", q.matchesStart "old-ev")) = some (true, false) := by
    decide +kernel
  obtain ⟨q, hq, -⟩ := exists_of_toOption_map hplain
  obtain ⟨q', hq', hmatches⟩ := exists_of_toOption_map hanchored
  obtain ⟨hselected, hother⟩ := Prod.mk.inj hmatches
  exact ⟨hkind, q, q', hq, hq', hselected, hother,
    anchor_selects_same_topics Regex.documented hkind " (?i)ev|^b " "a" hq hq'⟩

end TopicSelection
end RecordIntake
