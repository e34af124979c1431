import FeatureLines.Document.Classify
import FeatureLines.Proofs.Document.Continuation
import FeatureLines.Proofs.Text.Lines

/-!
# Documents in two parts

A document is read from its first line to its last, so what stands in front is
not touched by what follows, and only three things are handed on: the language,
the number of lines, and the step in force. Where the first part ends with a line
feed the lines of both parts are the lines of the whole (`linesOf_append_of_ends`).

Of the three only the step is delicate. The second part is reported as on its own
(`recognisedLines_add` moves the numbers) but for the lines in front of its first
section header and its first concrete step: a continuation among them continues
the step of the first part. `recognisedLines_of_step` is the induction that says so.
It compares a run under any step with a fresh one; from the first line that sets
the step on both runs hold the same classifier, and there the induction ends.
-/

namespace FeatureLines

/-! ## Lines -/

/-- The second part stays what it is if the first ends with a line feed, or is empty. -/
theorem SplitsInto.append {first second : Text} {lines others : List Text}
    (h : SplitsInto first lines) (ends : ∀ c, first.getLast? = some c → c = '\n')
    (hsecond : SplitsInto second others) : SplitsInto (first ++ second) (lines ++ others) := by
  induction h with
  | nil => exact hsecond
  | @last line nonempty unbroken =>
    have hfeed : line.getLast nonempty = '\n' := ends _ (List.getLast?_eq_some_getLast nonempty)
    exact absurd (hfeed ▸ List.getLast_mem nonempty) unbroken
  | @feed line rest lines unbroken bare _ ih =>
    have hrest : ∀ c, rest.getLast? = some c → c = '\n' := by
      intro c hc
      exact ends c (by simp [List.getLast?_append, List.getLast?_cons, hc])
    rw [List.append_assoc]
    exact .feed unbroken bare (ih hrest)
  | @returnFeed line rest lines unbroken _ ih =>
    have hrest : ∀ c, rest.getLast? = some c → c = '\n' := by
      intro c hc
      exact ends c (by simp [List.getLast?_append, List.getLast?_cons, hc])
    rw [List.append_assoc]
    exact .returnFeed unbroken (ih hrest)

theorem linesOf_append_of_ends {first : Text} (ends : ∀ c, first.getLast? = some c → c = '\n')
    (second : Text) : linesOf (first ++ second) = linesOf first ++ linesOf second :=
  ((splitsInto_linesOf first).append ends (splitsInto_linesOf second)).linesOf_eq

theorem linesOf_ne_nil {text : Text} (h : text ≠ []) : linesOf text ≠ [] := by
  intro hlines
  have hsplits := splitsInto_linesOf text
  rw [hlines] at hsplits
  cases hsplits
  exact h rfl

/-- Only the first line of a document is asked for the language. -/
theorem documentLanguage_append {first : Text} (nonempty : first ≠ [])
    (ends : ∀ c, first.getLast? = some c → c = '\n') (second default : Text) :
    documentLanguage (first ++ second) default = documentLanguage first default := by
  obtain ⟨line, lines, hlines⟩ := List.exists_cons_of_ne_nil (linesOf_ne_nil nonempty)
  unfold documentLanguage
  rw [linesOf_append_of_ends ends, hlines]
  rfl

/-! ## Numbers -/

/-- The report of a line that stands this many lines further down. -/
def RecognisedLine.lower (n : Nat) (report : RecognisedLine) : RecognisedLine :=
  { report with number := report.number + n }

namespace Classifier

theorem classify_add (classifier : Classifier) (number n : Nat) (line : Text) :
    classifier.classify (number + n) line =
      ((classifier.classify number line).1.map (RecognisedLine.lower n),
        (classifier.classify number line).2) := by
  cases hrec : classifier.table.recognise line with
  | none => simp only [classify_of_recognise_eq_none hrec, Option.map_none]
  | some found =>
    obtain ⟨entry, rest⟩ := found
    simp only [classify_of_recognise hrec, Option.map_some, RecognisedLine.lower]

/-- Lines further down are reported alike, under higher numbers. -/
theorem recognisedLines_add (classifier : Classifier) (number n : Nat) (lines : List Text) :
    classifier.recognisedLines (number + n) lines =
      (classifier.recognisedLines number lines).map (RecognisedLine.lower n) := by
  induction lines generalizing classifier number with
  | nil => rfl
  | cons line lines ih =>
    rw [recognisedLines_cons, recognisedLines_cons, classify_add, List.map_append,
      ← Option.toList_map, Nat.add_right_comm, ih]

theorem recognisedLines_append (classifier : Classifier) (number : Nat) (a b : List Text) :
    classifier.recognisedLines number (a ++ b) =
      classifier.recognisedLines number a ++
        (classifier.after number a).recognisedLines (number + a.length) b := by
  unfold recognisedLines
  rw [classifyAll_append, List.filterMap_append]

end Classifier

/-! ## The step of the first part -/

/-- Behind a line of this kind the step in force does not depend on the lines before it. -/
def LineKind.setsStep (kind : LineKind) : Bool := decide (kind ∈ sections ++ steps)

/-- The report of a line with this step in force. -/
def RecognisedLine.under (step : Option LineKind) (report : RecognisedLine) : RecognisedLine :=
  { report with kind := resolveKind step report.kind }

/-- What a fresh classifier has reported, as it is with a step in force before the first line: the
continuations in front of the first section header and the first concrete step continue it. -/
def carryStep (step : Option LineKind) (reports : List RecognisedLine) : List RecognisedLine :=
  (reports.takeWhile fun report => !report.kind.setsStep).map (RecognisedLine.under step) ++
    reports.dropWhile fun report => !report.kind.setsStep

@[simp] theorem resolveKind_none (kind : LineKind) : resolveKind none kind = kind := by
  cases kind <;> rfl

theorem resolveKind_of_setsStep {kind : LineKind} (h : kind.setsStep = true)
    (step : Option LineKind) : resolveKind step kind = kind := by
  have hkind : kind ≠ .continuation := by
    rintro rfl
    cases h
  exact resolveKind_of_ne_continuation hkind step

theorem nextStep_of_setsStep {kind : LineKind} (h : kind.setsStep = true)
    (step other : Option LineKind) : nextStep step kind = nextStep other kind := by
  rw [nextStep_eq, nextStep_eq]
  rcases List.mem_append.mp (of_decide_eq_true h) with hsection | hstep
  · rw [if_pos hsection, if_pos hsection]
  · rw [if_pos hstep, if_pos hstep]

theorem nextStep_of_not_setsStep {kind : LineKind} (h : kind.setsStep = false)
    (step : Option LineKind) : nextStep step kind = step := by
  have hkind : ¬ kind ∈ LineKind.sections ++ LineKind.steps := of_decide_eq_false h
  rw [List.mem_append, not_or] at hkind
  rw [nextStep_eq, if_neg hkind.2, if_neg hkind.1]

theorem carryStep_cons_of_setsStep {report : RecognisedLine} (h : report.kind.setsStep = true)
    (step : Option LineKind) (reports : List RecognisedLine) :
    carryStep step (report :: reports) = report :: reports := by
  simp [carryStep, h]

theorem carryStep_cons_of_not_setsStep {report : RecognisedLine}
    (h : report.kind.setsStep = false) (step : Option LineKind)
    (reports : List RecognisedLine) :
    carryStep step (report :: reports) = report.under step :: carryStep step reports := by
  simp [carryStep, h]

/-- A run with a step in force is a fresh run but for the continuations that the step reaches. -/
theorem Classifier.recognisedLines_of_step (table : Table) (step : Option LineKind) (number : Nat)
    (lines : List Text) :
    (⟨table, step⟩ : Classifier).recognisedLines number lines =
      carryStep step ((ofTable table).recognisedLines number lines) := by
  induction lines generalizing number with
  | nil => rfl
  | cons line lines ih =>
    rw [recognisedLines_cons, recognisedLines_cons]
    cases hrec : table.recognise line with
    | none =>
      have hfresh : (ofTable table).table.recognise line = none := hrec
      have hstep : (⟨table, step⟩ : Classifier).table.recognise line = none := hrec
      rw [classify_of_recognise_eq_none hfresh, classify_of_recognise_eq_none hstep]
      exact ih (number + 1)
    | some found =>
      obtain ⟨entry, rest⟩ := found
      have hfresh : (ofTable table).table.recognise line = some (entry, rest) := hrec
      have hstep : (⟨table, step⟩ : Classifier).table.recognise line = some (entry, rest) := hrec
      rw [classify_of_recognise hfresh, classify_of_recognise hstep]
      simp only [Option.toList_some, List.singleton_append, ofTable, resolveKind_none]
      cases hsets : entry.kind.setsStep with
      | true =>
        -- Both runs go on with the same classifier.
        rw [carryStep_cons_of_setsStep hsets, resolveKind_of_setsStep hsets,
          nextStep_of_setsStep hsets step none]
      | false =>
        rw [carryStep_cons_of_not_setsStep hsets, nextStep_of_not_setsStep hsets,
          nextStep_of_not_setsStep hsets, ih (number + 1)]
        rfl

/-! ## Documents -/

/-- The step in force behind the lines of a document. -/
def Table.stepBehindDocument (table : Table) (document : Text) : Option LineKind :=
  ((Classifier.ofTable table).after 1 (linesOf document)).step

theorem Table.classify_append (table : Table) {first : Text}
    (ends : ∀ c, first.getLast? = some c → c = '\n') (second : Text) :
    table.classify (first ++ second) =
      table.classify first ++
        (carryStep (table.stepBehindDocument first) (table.classify second)).map
          (RecognisedLine.lower (linesOf first).length) := by
  unfold classify
  rw [linesOf_append_of_ends ends, Classifier.recognisedLines_append,
    Classifier.recognisedLines_add, ← Classifier.recognisedLines_of_step]
  have hafter : (Classifier.ofTable table).after 1 (linesOf first) =
      ⟨table, table.stepBehindDocument first⟩ := by
    have htable := Classifier.after_table (Classifier.ofTable table) 1 (linesOf first)
    exact congrArg (Classifier.mk · (table.stepBehindDocument first)) htable
  rw [hafter]

namespace Catalog

/-- A document whose first part ends with a line feed fails as its first part alone does. If that
is recognised, the whole has its language and its lines, and behind them those that a fresh
classifier with the same table reports of the second part, under their numbers in the whole and
with the step behind the first part carried into them. -/
theorem classify_append_of_feed (files : Files) (catalog : Catalog) {first : Text}
    (feed : first.getLast? = some '\n') (second : Text) :
    let part := catalog.classify files first
    let whole := catalog.classify files (first ++ second)
    whole.2 = part.2
      ∧ (∀ failure, whole.1 = .error failure ↔ part.1 = .error failure)
      ∧ ∀ recognised, part.1 = .ok recognised →
        ∃ shared, (catalog.tableOf files recognised.language).1 = .ok shared
          ∧ recognised.lines = shared.table.classify first
          ∧ shared.table.stepBehindDocument first = stepBehind recognised.lines
          ∧ whole.1 = .ok ⟨recognised.language, recognised.lines ++
              (carryStep (stepBehind recognised.lines) (shared.table.classify second)).map
                (RecognisedLine.lower (linesOf first).length)⟩ := by
  have ends : ∀ c, first.getLast? = some c → c = '\n' := by
    intro c hc
    exact Option.some.inj (hc.symm.trans feed)
  have nonempty : first ≠ [] := by
    rintro rfl
    cases feed
  intro part whole
  have hlanguage := documentLanguage_append nonempty ends second catalog.defaultLanguage
  cases htable : (catalog.tableOf files (documentLanguage first catalog.defaultLanguage)).1 with
  | error failure =>
    have hpart : part = _ := classify_of_error htable
    have hwhole : whole = _ := classify_of_error (hlanguage.symm ▸ htable)
    rw [hpart, hwhole, hlanguage]
    refine ⟨rfl, fun other => Iff.rfl, fun recognised h => ?_⟩
    cases h
  | ok shared =>
    have hpart : part = _ := classify_of_ok htable
    have hwhole : whole = _ := classify_of_ok (hlanguage.symm ▸ htable)
    rw [hpart, hwhole, hlanguage, shared.table.classify_append ends]
    refine ⟨rfl, fun other => by simp only [reduceCtorEq], fun recognised h => ?_⟩
    obtain rfl := Except.ok.inj h
    have hstep : shared.table.stepBehindDocument first =
        stepBehind (shared.table.classify first) :=
      Classifier.step_after shared.table 1 (linesOf first)
    exact ⟨shared, htable, rfl, hstep, by rw [hstep]⟩

/-- The step of the first part reaches past a tag up to the header, and not behind it. -/
theorem classify_append_of_feed_continued :
    let files : Files := ⟨fun _ => false, fun _ => .error .notFound⟩
    let vocabulary : Vocabulary := ⟨none, none, TextMap.ofList
      [("feature".toList, ["Fa".toList]), ("scenarioOutline".toList, ["So".toList]),
        ("examples".toList, ["Ex".toList]), ("scenario".toList, ["Sc".toList]),
        ("background".toList, ["Ba".toList]), ("given".toList, ["Gi ".toList]),
        ("when".toList, ["We ".toList]), ("then".toList, ["Th ".toList]), ("and".toList, []),
        ("but".toList, ["* ".toList])]⟩
    let catalog := ofSource
      ⟨"words".toList, fun _ _ => .ok (TextMap.ofList [("xx".toList, vocabulary)])⟩ "xx".toList
    let first := "We a\r\n\n".toList
    let second := "@t\n* b\nSc: c\n* d".toList
    (catalog.classify files first).1 =
        .ok ⟨"xx".toList, [⟨1, .whenStep, "We ".toList, "a".toList⟩]⟩
      ∧ (catalog.classify files (first ++ second)).1 =
        .ok ⟨"xx".toList, [⟨1, .whenStep, "We ".toList, "a".toList⟩,
          ⟨3, .tag, "@".toList, "t".toList⟩, ⟨4, .whenStep, "* ".toList, "b".toList⟩,
          ⟨5, .scenario, "Sc: ".toList, "c".toList⟩,
          ⟨6, .continuation, "* ".toList, "d".toList⟩]⟩ := by
  intro files vocabulary catalog first second
  have feed : first.getLast? = some '\n' := rfl
  have hpart : (catalog.classify files first).1 =
      .ok ⟨"xx".toList, [⟨1, .whenStep, "We ".toList, "a".toList⟩]⟩ := rfl
  obtain ⟨-, -, hrecognised⟩ := classify_append_of_feed files catalog feed second
  obtain ⟨shared, htable, -, -, hwhole⟩ := hrecognised _ hpart
  obtain rfl := Except.ok.inj htable
  exact ⟨hpart, hwhole⟩

end Catalog

end FeatureLines
