import FeatureLines.Document.Classify
import FeatureLines.Proofs.Document.Continuation
import FeatureLines.Proofs.Text.Lines

/-!
# Which lines are reported

A document is reported line by line, and nothing but its lines and the table of
its language says which of them and what of each. `Table.CanRecognise` tells
from a line alone whether it is reported, and `RecognisedLine.Describes` what
the report says of it; the kind, for which the lines before it matter, is left
to `Proofs.Document.Continuation`.

`Reports` puts both together for a whole document: the numbers of the reports
increase, they are exactly those of the lines that can be recognised, and each
report describes the line of its number. The run lemmas count from any number
on, since the tail of a document is numbered from where it stands.
-/

namespace FeatureLines

/-! ## One line -/

/-- The entry is the first of the table whose lead starts the text. -/
def Table.FirstFor (table : Table) (text : Text) (entry : Entry) : Prop :=
  ∃ before after, table.entries = before ++ entry :: after
    ∧ (∀ earlier ∈ before, ¬ earlier.lead <+: text) ∧ entry.lead <+: text

/-- Behind its leading white space the line is not empty, is no comment, and starts with a lead
of the table. -/
structure Table.CanRecognise (table : Table) (line : Text) : Prop where
  content : trimStart line ≠ []
  noComment : (trimStart line).head? ≠ some '#'
  lead : ∃ entry ∈ table.entries, entry.lead <+: trimStart line

/-- The report says of the line which lead it starts with and what stands behind it. -/
structure RecognisedLine.Describes (report : RecognisedLine) (table : Table) (line : Text) :
    Prop where
  recognised : table.CanRecognise line
  keyword : ∃ entry, table.FirstFor (trimStart line) entry ∧ report.keyword = entry.lead
  text : ∃ a b, allBlank a = true ∧ allBlank b = true
    ∧ trimStart line = report.keyword ++ a ++ report.text ++ b
  textStart : ∀ c, report.text.head? = some c → isBlank c = false
  textEnd : ∀ c, report.text.getLast? = some c → isBlank c = false

theorem Entry.rest?_eq_none_iff {entry : Entry} {line : Text} :
    entry.rest? line = none ↔ ¬ entry.lead <+: line := by
  rw [Option.eq_none_iff_forall_ne_some]
  constructor
  · rintro h ⟨rest, hrest⟩
    exact h rest (rest?_eq_some_iff.mpr hrest.symm)
  · rintro h rest hrest
    exact h ⟨rest, (rest?_eq_some_iff.mp hrest).symm⟩

theorem Table.match?_eq_some_iff_firstFor {table : Table} {text rest : Text} {entry : Entry} :
    table.match? text = some (entry, rest) ↔
      table.FirstFor text entry ∧ text = entry.lead ++ rest := by
  rw [match?_eq_some_iff]
  simp only [Entry.rest?_eq_none_iff]
  constructor
  · rintro ⟨before, after, hentries, hbefore, htext⟩
    exact ⟨⟨before, after, hentries, hbefore, ⟨rest, htext.symm⟩⟩, htext⟩
  · rintro ⟨⟨before, after, hentries, hbefore, -⟩, htext⟩
    exact ⟨before, after, hentries, hbefore, htext⟩

theorem Table.match?_eq_none_iff {table : Table} {text : Text} :
    table.match? text = none ↔ ∀ entry ∈ table.entries, ¬ entry.lead <+: text := by
  unfold match?
  rw [firstMatch_eq_none_iff]
  simp only [Entry.rest?_eq_none_iff]

theorem Table.FirstFor.mem {table : Table} {text : Text} {entry : Entry}
    (h : table.FirstFor text entry) : entry ∈ table.entries := by
  obtain ⟨before, after, hentries, -, -⟩ := h
  rw [hentries]
  exact List.mem_append_right before List.mem_cons_self

/-- The table is asked only for what is neither empty nor a comment. -/
theorem Table.recognise_eq {table : Table} {line : Text} (content : trimStart line ≠ [])
    (noComment : (trimStart line).head? ≠ some '#') :
    table.recognise line = table.match? (trimStart line) := by
  unfold recognise
  split
  · next h => exact absurd h content
  · next h => exact absurd (by rw [h]; rfl) noComment
  · rfl

theorem Table.content_of_recognise {table : Table} {line : Text} {found : Entry × Text}
    (h : table.recognise line = some found) :
    trimStart line ≠ [] ∧ (trimStart line).head? ≠ some '#' := by
  unfold recognise at h
  split at h
  · cases h
  · cases h
  · next hempty hcomment =>
    refine ⟨hempty, fun hhead => ?_⟩
    obtain ⟨rest, hrest⟩ := List.head?_eq_some_iff.mp hhead
    exact hcomment rest hrest

theorem Table.recognise_eq_some_iff {table : Table} {line rest : Text} {entry : Entry} :
    table.recognise line = some (entry, rest) ↔
      table.CanRecognise line ∧ table.FirstFor (trimStart line) entry
        ∧ trimStart line = entry.lead ++ rest := by
  constructor
  · intro h
    obtain ⟨content, noComment⟩ := content_of_recognise h
    rw [recognise_eq content noComment, match?_eq_some_iff_firstFor] at h
    obtain ⟨hfirst, htext⟩ := h
    exact ⟨⟨content, noComment, entry, hfirst.mem, ⟨rest, htext.symm⟩⟩, hfirst, htext⟩
  · rintro ⟨⟨content, noComment, -⟩, hfirst, htext⟩
    rw [recognise_eq content noComment, match?_eq_some_iff_firstFor]
    exact ⟨hfirst, htext⟩

/-- A line that can be recognised is: if any lead starts it, one of them is the first. -/
theorem Table.CanRecognise.exists_recognise {table : Table} {line : Text}
    (h : table.CanRecognise line) : ∃ entry rest, table.recognise line = some (entry, rest) := by
  obtain ⟨content, noComment, entry, hmem, rest, hrest⟩ := h
  rw [recognise_eq content noComment]
  cases hmatch : table.match? (trimStart line) with
  | some found => exact ⟨found.1, found.2, rfl⟩
  | none =>
    exact absurd ⟨rest, hrest⟩ (match?_eq_none_iff.mp hmatch entry hmem)

theorem Table.recognise_eq_none_iff {table : Table} {line : Text} :
    table.recognise line = none ↔ ¬ table.CanRecognise line := by
  constructor
  · intro hnone hcan
    obtain ⟨entry, rest, hsome⟩ := hcan.exists_recognise
    cases hnone.symm.trans hsome
  · intro hnot
    rw [Option.eq_none_iff_forall_ne_some]
    rintro ⟨entry, rest⟩ hsome
    exact hnot (recognise_eq_some_iff.mp hsome).1

namespace Classifier

theorem describes_of_classify {classifier : Classifier} {number : Nat} {line : Text}
    {report : RecognisedLine} (h : (classifier.classify number line).1 = some report) :
    report.number = number ∧ report.Describes classifier.table line := by
  cases hrecognise : classifier.table.recognise line with
  | none =>
    rw [classify_of_recognise_eq_none hrecognise] at h
    cases h
  | some found =>
    obtain ⟨entry, rest⟩ := found
    rw [classify_of_recognise hrecognise] at h
    obtain rfl := Option.some.inj h
    obtain ⟨hcan, hfirst, htext⟩ := Table.recognise_eq_some_iff.mp hrecognise
    obtain ⟨a, b, ha, hb, hrest⟩ := exists_append_trim rest
    refine ⟨rfl, hcan, ⟨entry, hfirst, rfl⟩, ⟨a, b, ha, hb, ?_⟩, ?_, ?_⟩
    · calc
        trimStart line = entry.lead ++ rest := htext
        _ = entry.lead ++ (a ++ trim rest ++ b) := congrArg _ hrest
        _ = entry.lead ++ a ++ trim rest ++ b := by simp only [List.append_assoc]
    · intro c hc
      exact isBlank_head_trim hc
    · intro c hc
      exact isBlank_getLast_trimEnd hc

/-! ## Runs -/

/-- Every report is made of the line whose number it carries. -/
theorem exists_line_of_mem_recognisedLines {classifier : Classifier} {number : Nat}
    {lines : List Text} {report : RecognisedLine}
    (h : report ∈ classifier.recognisedLines number lines) :
    ∃ i line, lines[i]? = some line ∧ report.number = number + i
      ∧ report.Describes classifier.table line := by
  induction lines generalizing classifier number with
  | nil => cases h
  | cons line lines ih =>
    rw [recognisedLines_cons] at h
    rcases List.mem_append.mp h with h | h
    · obtain ⟨hnumber, hdescribes⟩ := describes_of_classify (Option.mem_toList.mp h)
      exact ⟨0, line, rfl, hnumber, hdescribes⟩
    · obtain ⟨i, later, hlater, hnumber, hdescribes⟩ := ih h
      rw [classify_table] at hdescribes
      exact ⟨i + 1, later, hlater, by omega, hdescribes⟩

/-- Every line that can be recognised is reported under its number. -/
theorem exists_mem_recognisedLines {classifier : Classifier} {lines : List Text} {i : Nat}
    {line : Text} (hline : lines[i]? = some line) (h : classifier.table.CanRecognise line)
    (number : Nat) :
    ∃ report ∈ classifier.recognisedLines number lines, report.number = number + i := by
  induction lines generalizing classifier number i with
  | nil => cases hline
  | cons first lines ih =>
    rw [recognisedLines_cons]
    cases i with
    | zero =>
      obtain rfl := Option.some.inj hline
      obtain ⟨entry, rest, hrecognise⟩ := h.exists_recognise
      rw [classify_of_recognise hrecognise, Option.toList_some]
      exact ⟨_, List.mem_append_left _ (List.mem_singleton.mpr rfl), rfl⟩
    | succ i =>
      have hafter : (classifier.classify number first).2.table.CanRecognise line := by
        rw [classify_table]
        exact h
      obtain ⟨report, hmem, hnumber⟩ := ih hline hafter (number + 1)
      exact ⟨report, List.mem_append_right _ hmem, by omega⟩

theorem pairwise_number_recognisedLines (classifier : Classifier) (number : Nat)
    (lines : List Text) :
    (classifier.recognisedLines number lines).Pairwise fun a b => a.number < b.number := by
  induction lines generalizing classifier number with
  | nil => exact List.Pairwise.nil
  | cons line lines ih =>
    rw [recognisedLines_cons, List.pairwise_append]
    refine ⟨?_, ih _ _, ?_⟩
    · cases (classifier.classify number line).1 with
      | none => exact List.Pairwise.nil
      | some report => exact List.pairwise_singleton _ _
    · intro a ha b hb
      obtain ⟨hnumber, -⟩ := describes_of_classify (Option.mem_toList.mp ha)
      obtain ⟨i, -, -, hlater, -⟩ := exists_line_of_mem_recognisedLines hb
      omega

end Classifier

/-! ## Documents -/

/-- The reports are those of the lines that the table can recognise, in their order. Lines are
counted from one. -/
structure Reports (table : Table) (lines : List Text) (reports : List RecognisedLine) : Prop where
  increasing : reports.Pairwise fun a b => a.number < b.number
  reported_iff : ∀ n, (∃ report ∈ reports, report.number = n + 1) ↔
    ∃ line, lines[n]? = some line ∧ table.CanRecognise line
  within : ∀ report ∈ reports, 1 ≤ report.number ∧ report.number ≤ lines.length
  described : ∀ report ∈ reports, ∃ line, lines[report.number - 1]? = some line
    ∧ report.Describes table line

theorem Table.reports_recognisedLines (table : Table) (lines : List Text) :
    Reports table lines ((Classifier.ofTable table).recognisedLines 1 lines) where
  increasing := Classifier.pairwise_number_recognisedLines _ 1 lines
  reported_iff n := by
    constructor
    · rintro ⟨report, hmem, hnumber⟩
      obtain ⟨i, line, hline, hi, hdescribes⟩ :=
        Classifier.exists_line_of_mem_recognisedLines hmem
      obtain rfl : i = n := by omega
      exact ⟨line, hline, hdescribes.recognised⟩
    · rintro ⟨line, hline, hcan⟩
      have htable : (Classifier.ofTable table).table.CanRecognise line := hcan
      obtain ⟨report, hmem, hnumber⟩ := Classifier.exists_mem_recognisedLines hline htable 1
      exact ⟨report, hmem, by omega⟩
  within report hmem := by
    obtain ⟨i, line, hline, hi, -⟩ := Classifier.exists_line_of_mem_recognisedLines hmem
    have hlt : i < lines.length := (List.getElem?_eq_some_iff.mp hline).1
    omega
  described report hmem := by
    obtain ⟨i, line, hline, hi, hdescribes⟩ := Classifier.exists_line_of_mem_recognisedLines hmem
    have hindex : report.number - 1 = i := by omega
    rw [hindex]
    exact ⟨line, hline, hdescribes⟩

/-- A text that a report gives holds nothing that the line does not. -/
theorem RecognisedLine.Describes.mem_line {report : RecognisedLine} {table : Table} {line : Text}
    (h : report.Describes table line) {c : Char} (hc : c ∈ report.text) : c ∈ line := by
  obtain ⟨a, b, -, -, htext⟩ := h.text
  obtain ⟨blank, -, hline⟩ := exists_append_trimStart line
  rw [hline, htext]
  simp [hc]

namespace Catalog

theorem classify_eq_ok {files : Files} {document : Text} {catalog next : Catalog}
    {result : RecognisedDocument} (h : catalog.classify files document = (.ok result, next)) :
    ∃ shared, catalog.tableOf files result.language = (.ok shared, next)
      ∧ result.language = documentLanguage document catalog.defaultLanguage
      ∧ result.lines = shared.table.classify document := by
  rw [classify_eq] at h
  cases htable : catalog.tableOf files (documentLanguage document catalog.defaultLanguage) with
  | mk answer after =>
    rw [htable] at h
    obtain ⟨hresult, rfl⟩ := Prod.mk.inj h
    cases answer with
    | error failure => cases hresult
    | ok shared =>
      obtain rfl := Except.ok.inj hresult
      exact ⟨shared, htable, rfl, rfl⟩

/-- A document that is classified has lines, and is reported line by line: the reports are those of
the lines that the table of its language can recognise, and no text of them holds a line feed. -/
theorem reports_of_classify {files : Files} {document : Text} {catalog next : Catalog}
    {result : RecognisedDocument} (h : catalog.classify files document = (.ok result, next)) :
    ∃ shared lines, result.language = documentLanguage document catalog.defaultLanguage
      ∧ (catalog.tableOf files result.language).1 = .ok shared
      ∧ (∀ others, SplitsInto document others ↔ others = lines)
      ∧ Reports shared.table lines result.lines
      ∧ ∀ report ∈ result.lines, '\n' ∉ report.text := by
  obtain ⟨shared, htable, hlanguage, hlines⟩ := classify_eq_ok h
  have hreports : Reports shared.table (linesOf document) result.lines := by
    rw [hlines]
    exact shared.table.reports_recognisedLines (linesOf document)
  refine ⟨shared, linesOf document, hlanguage, ?_, fun others => splitsInto_iff, hreports, ?_⟩
  · rw [htable]
  · intro report hmem hfeed
    obtain ⟨line, hline, hdescribes⟩ := hreports.described report hmem
    exact newline_notMem_of_mem_linesOf (List.mem_of_getElem? hline) (hdescribes.mem_line hfeed)

/-- Indented and commented lines, a line end with a carriage return, and two keywords of which one
starts the other. -/
theorem reports_of_classify_indented :
    let files : Files := ⟨fun _ => false, fun _ => .error .notFound⟩
    let vocabulary : Vocabulary := ⟨none, none, TextMap.ofList
      [("feature".toList, ["Fa".toList]), ("scenarioOutline".toList, ["So".toList]),
        ("examples".toList, ["Ex".toList]), ("scenario".toList, ["Sc".toList]),
        ("background".toList, ["Ba".toList]), ("given".toList, ["Gi ".toList, "Gi".toList]),
        ("when".toList, ["We ".toList]), ("then".toList, ["Th ".toList]), ("and".toList, []),
        ("but".toList, ["* ".toList])]⟩
    let catalog := ofSource
      ⟨"words".toList, fun _ _ => .ok (TextMap.ofList [("xx".toList, vocabulary)])⟩ "xx".toList
    let document := "  Fa: a \r\n# no\n\n\tGi b".toList
    let result : RecognisedDocument := ⟨"xx".toList,
      [⟨1, .feature, "Fa: ".toList, "a".toList⟩, ⟨4, .givenStep, "Gi ".toList, "b".toList⟩]⟩
    (catalog.classify files document).1 = .ok result
      ∧ ∃ shared lines, (catalog.tableOf files "xx".toList).1 = .ok shared
        ∧ SplitsInto document lines ∧ Reports shared.table lines result.lines := by
  intro files vocabulary catalog document result
  have h : catalog.classify files document = (.ok result, (catalog.classify files document).2) :=
    rfl
  obtain ⟨shared, lines, -, htable, hlines, hreports, -⟩ := reports_of_classify h
  exact ⟨rfl, shared, lines, htable, (hlines lines).mpr rfl, hreports⟩

end Catalog

end FeatureLines
