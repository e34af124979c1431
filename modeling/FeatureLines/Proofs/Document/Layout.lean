import FeatureLines.Proofs.Document.Recognition
import FeatureLines.Proofs.Document.Seam

/-!
# What the layout of a document does not change

Three things about a document are layout: the white space in front of its lines,
the lines of which nothing is reported, and which of its lines end with a carriage
return and a line feed.

White space in front of a line is seen by nobody: the directive, the comments and
the search of the table all begin behind it (`declaredLanguage_trimStart`,
`Table.recognise_trimStart`). A line of which nothing is reported leaves the
classifier as it is, so a run passes over such lines as if they were not there,
but counts them (`recognisedLines_append_of_unrecognised`). Where they may stand
anywhere, `recognisedLines_withPadding` carries how many of them have been passed
so far. Line ends are gone before anything else is looked at (`linesOf_withReturns`).

The first line of a document is left in its place throughout, because it may
declare the language.
-/

namespace FeatureLines

/-! ## White space in front of lines -/

theorem declaredLanguage_trimStart (line : Text) :
    declaredLanguage (trimStart line) = declaredLanguage line := by
  unfold declaredLanguage
  rw [trimStart_trimStart]

theorem Table.recognise_trimStart (table : Table) (line : Text) :
    table.recognise (trimStart line) = table.recognise line := by
  unfold recognise
  rw [trimStart_trimStart]

theorem Classifier.classify_trimStart (classifier : Classifier) (number : Nat) (line : Text) :
    classifier.classify number (trimStart line) = classifier.classify number line := by
  unfold classify
  rw [Table.recognise_trimStart]

theorem Classifier.recognisedLines_map_trimStart (classifier : Classifier) (number : Nat)
    (lines : List Text) :
    classifier.recognisedLines number (lines.map trimStart) =
      classifier.recognisedLines number lines := by
  induction lines generalizing classifier number with
  | nil => rfl
  | cons line lines ih =>
    rw [List.map_cons, recognisedLines_cons, recognisedLines_cons, classify_trimStart, ih]

section

variable {document other : Text}

theorem documentLanguage_eq_of_map_trimStart
    (h : (linesOf document).map trimStart = (linesOf other).map trimStart) (default : Text) :
    documentLanguage document default = documentLanguage other default := by
  have htrimmed : ∀ text, documentLanguage text default =
      ((((linesOf text).map trimStart).head?).bind declaredLanguage).getD default := by
    intro text
    unfold documentLanguage
    cases linesOf text with
    | nil => rfl
    | cons line lines => simp [declaredLanguage_trimStart]
  rw [htrimmed, htrimmed, h]

theorem Table.classify_eq_of_map_trimStart (table : Table)
    (h : (linesOf document).map trimStart = (linesOf other).map trimStart) :
    table.classify document = table.classify other := by
  unfold classify
  rw [← Classifier.recognisedLines_map_trimStart, h, Classifier.recognisedLines_map_trimStart]

/-- All that a catalog sees of a document is its lines behind their leading white space. -/
theorem Catalog.classify_eq_of_map_trimStart (files : Files) (catalog : Catalog)
    (h : (linesOf document).map trimStart = (linesOf other).map trimStart) :
    catalog.classify files document = catalog.classify files other := by
  rw [classify_eq, classify_eq, documentLanguage_eq_of_map_trimStart h]
  simp only [Table.classify_eq_of_map_trimStart _ h]

end

/-! ## Lines of which nothing is reported -/

/-- A line, and the lines that are put in front of it. -/
structure PaddedLine where
  padding : List Text
  line : Text
  deriving Repr, DecidableEq

/-- The lines, each behind its padding, and further lines behind the last. -/
def withPadding (parts : List PaddedLine) (last : List Text) : List Text :=
  (parts.flatMap fun part => part.padding ++ [part.line]) ++ last

/-- All lines that are put in. -/
def paddingOf (parts : List PaddedLine) (last : List Text) : List Text :=
  (parts.flatMap fun part => part.padding) ++ last

/-- How many lines are put in front of the first lines, up to this many of them. -/
def paddingBefore (parts : List PaddedLine) (count : Nat) : Nat :=
  ((parts.take count).flatMap fun part => part.padding).length

/-- The document with each line as much further down as there are lines put in front of it. The
first line is none of the parts. -/
def RecognisedDocument.pad (parts : List PaddedLine) (document : RecognisedDocument) :
    RecognisedDocument :=
  { document with
    lines := document.lines.map fun report =>
      report.lower (paddingBefore parts (report.number - 1)) }

@[simp] theorem paddingBefore_zero (parts : List PaddedLine) : paddingBefore parts 0 = 0 := by
  simp [paddingBefore]

@[simp] theorem paddingBefore_cons_succ (part : PaddedLine) (parts : List PaddedLine)
    (count : Nat) :
    paddingBefore (part :: parts) (count + 1) =
      part.padding.length + paddingBefore parts count := by
  simp [paddingBefore]

theorem withPadding_cons (part : PaddedLine) (parts : List PaddedLine) (last : List Text) :
    withPadding (part :: parts) last = part.padding ++ part.line :: withPadding parts last := by
  simp [withPadding]

theorem paddingOf_cons (part : PaddedLine) (parts : List PaddedLine) (last : List Text) :
    paddingOf (part :: parts) last = part.padding ++ paddingOf parts last := by
  simp [paddingOf]

@[simp] theorem RecognisedLine.lower_zero (report : RecognisedLine) : report.lower 0 = report :=
  rfl

namespace Classifier

/-- Lines of which nothing is reported are passed over and counted. -/
theorem recognisedLines_append_of_unrecognised {classifier : Classifier} {padding : List Text}
    (h : ∀ line ∈ padding, ¬ classifier.table.CanRecognise line) (number : Nat)
    (lines : List Text) :
    classifier.recognisedLines number (padding ++ lines) =
      classifier.recognisedLines (number + padding.length) lines := by
  induction padding generalizing number with
  | nil => rfl
  | cons line padding ih =>
    obtain ⟨hline, hpadding⟩ := List.forall_mem_cons.mp h
    rw [List.cons_append, recognisedLines_cons,
      classify_of_recognise_eq_none (Table.recognise_eq_none_iff.mpr hline), Option.toList_none,
      List.nil_append, ih hpadding, List.length_cons, Nat.add_right_comm, Nat.add_assoc]

/-- A run over lines with others between them reports the same, each line as much further down as
others have been passed. `passed` counts those in front of the first line of the run, and the lines
of the run are told apart by how far their numbers are from its first. -/
theorem recognisedLines_withPadding {classifier : Classifier} {parts : List PaddedLine}
    {last : List Text} (h : ∀ line ∈ paddingOf parts last, ¬ classifier.table.CanRecognise line)
    (number passed : Nat) :
    classifier.recognisedLines (number + passed) (withPadding parts last) =
      (classifier.recognisedLines number (parts.map (·.line))).map fun report =>
        report.lower (passed + paddingBefore parts (report.number + 1 - number)) := by
  induction parts generalizing classifier number passed with
  | nil =>
    have hlast : classifier.recognisedLines (number + passed) (last ++ []) = [] := by
      rw [recognisedLines_append_of_unrecognised (by simpa [paddingOf] using h)]
      rfl
    rwa [List.append_nil] at hlast
  | cons part parts ih =>
    rw [paddingOf_cons, List.forall_mem_append] at h
    obtain ⟨hpadding, hrest⟩ := h
    have hbehind : ∀ line ∈ paddingOf parts last,
        ¬ (classifier.classify number part.line).2.table.CanRecognise line := by
      rw [classify_table]
      exact hrest
    rw [withPadding_cons, recognisedLines_append_of_unrecognised hpadding, Nat.add_assoc,
      List.map_cons, recognisedLines_cons, recognisedLines_cons, classify_add,
      Nat.add_right_comm, ih hbehind, List.map_append, ← Option.toList_map]
    congr 1
    · congr 1
      refine Option.map_congr ?_
      intro report hreport
      obtain ⟨hnumber, -⟩ := describes_of_classify hreport
      simp [hnumber]
    · refine List.map_congr_left ?_
      intro report hreport
      obtain ⟨i, -, -, hnumber, -⟩ := exists_line_of_mem_recognisedLines hreport
      have hplace : report.number + 1 - number = report.number + 1 - (number + 1) + 1 := by omega
      rw [hplace, paddingBefore_cons_succ, Nat.add_assoc]

end Classifier

theorem Table.classify_withPadding {table : Table} {document other first : Text}
    {parts : List PaddedLine} {last : List Text}
    (hdocument : linesOf document = first :: parts.map (·.line))
    (hother : linesOf other = first :: withPadding parts last)
    (unrecognised : ∀ line ∈ paddingOf parts last, ¬ table.CanRecognise line) :
    table.classify other = (table.classify document).map fun report =>
      report.lower (paddingBefore parts (report.number - 1)) := by
  have hbehind : ∀ line ∈ paddingOf parts last,
      ¬ ((Classifier.ofTable table).classify 1 first).2.table.CanRecognise line := by
    rw [Classifier.classify_table]
    exact unrecognised
  unfold classify
  rw [hdocument, hother, Classifier.recognisedLines_cons, Classifier.recognisedLines_cons,
    List.map_append, ← Option.toList_map]
  congr 1
  · -- The first line has nothing in front of it.
    cases hreport : ((Classifier.ofTable table).classify 1 first).1 with
    | none => rfl
    | some report =>
      obtain ⟨hnumber, -⟩ := Classifier.describes_of_classify hreport
      simp [hnumber]
  · have hrun := Classifier.recognisedLines_withPadding hbehind 2 0
    simp only [Nat.zero_add] at hrun
    exact hrun

/-! ## Line ends -/

/-- The text with a carriage return put in front of some line feeds, which are chosen by their
positions. -/
def withReturns (chosen : Nat → Bool) : Text → Text
  | [] => []
  | c :: text =>
    if c = '\n' ∧ chosen 0 = true then
      '\r' :: '\n' :: withReturns (fun i => chosen (i + 1)) text
    else c :: withReturns (fun i => chosen (i + 1)) text

example : withReturns (fun i => i == 3) "a\nb\n".toList = "a\nb\r\n".toList := by decide

/-- A text without carriage returns of its own keeps its lines. -/
theorem linesOf_withReturns {text : Text} (noReturn : '\r' ∉ text) (chosen : Nat → Bool) :
    linesOf (withReturns chosen text) = linesOf text := by
  induction text generalizing chosen with
  | nil => rfl
  | cons c text ih =>
    obtain ⟨hc, htext⟩ := not_or.mp (mt List.mem_cons.mpr noReturn)
    have hrest := ih htext fun i => chosen (i + 1)
    unfold withReturns
    by_cases hfeed : c = '\n'
    · subst hfeed
      by_cases hchosen : chosen 0 = true
      · rw [if_pos ⟨rfl, hchosen⟩, linesOf_returnFeed, linesOf_feed, hrest]
      · rw [if_neg (fun h => hchosen h.2), linesOf_feed, linesOf_feed, hrest]
    · have hplain : ∀ rest : Text, c = '\r' → rest.head? ≠ some '\n' :=
        fun _ h => absurd h.symm hc
      rw [if_neg (fun h => hfeed h.1), linesOf_cons hfeed (hplain _),
        linesOf_cons hfeed (hplain _), hrest]

/-! ## Documents -/

namespace Catalog

/-- Documents whose lines are the same behind their leading white space come to the same. Lines of
which nothing is reported may be put in anywhere behind the first line of a document, or taken out
again: it fails as before, or has the same language and the same reports, each with a number that is
higher by as many lines as are put in front of it. -/
theorem classify_eq_of_layout (files : Files) (catalog : Catalog) :
    (∀ document other : Text, (linesOf document).map trimStart = (linesOf other).map trimStart →
      catalog.classify files document = catalog.classify files other)
      ∧ ∀ (document other first : Text) (parts : List PaddedLine) (last : List Text),
        linesOf document = first :: parts.map (·.line) →
        linesOf other = first :: withPadding parts last →
        (∀ shared, (catalog.tableOf files
            (documentLanguage document catalog.defaultLanguage)).1 = .ok shared →
          ∀ line ∈ paddingOf parts last, ¬ shared.table.CanRecognise line) →
        (catalog.classify files other).1 =
            (catalog.classify files document).1.map (RecognisedDocument.pad parts)
          ∧ (catalog.classify files other).2 = (catalog.classify files document).2 := by
  refine ⟨fun document other => classify_eq_of_map_trimStart files catalog, ?_⟩
  intro document other first parts last hdocument hother unrecognised
  have hlanguage : documentLanguage other catalog.defaultLanguage =
      documentLanguage document catalog.defaultLanguage := by
    unfold documentLanguage
    rw [hdocument, hother]
    rfl
  cases htable : (catalog.tableOf files
      (documentLanguage document catalog.defaultLanguage)).1 with
  | error failure =>
    rw [classify_of_error htable, classify_of_error (hlanguage ▸ htable), hlanguage]
    exact ⟨rfl, rfl⟩
  | ok shared =>
    rw [classify_of_ok htable, classify_of_ok (hlanguage ▸ htable), hlanguage,
      Table.classify_withPadding hdocument hother (unrecognised shared htable)]
    exact ⟨rfl, rfl⟩

/-- The document is indented, and then a comment, an empty line and others without a keyword are put
into it; the continuation still continues its step. -/
theorem classify_eq_of_layout_padded :
    let files : Files := ⟨fun _ => false, fun _ => .error .notFound⟩
    let vocabulary : Vocabulary := ⟨none, none, TextMap.ofList
      [("feature".toList, ["Fa".toList]), ("scenarioOutline".toList, ["So".toList]),
        ("examples".toList, ["Ex".toList]), ("scenario".toList, ["Sc".toList]),
        ("background".toList, ["Ba".toList]), ("given".toList, ["Gi ".toList]),
        ("when".toList, ["We ".toList]), ("then".toList, ["Th ".toList]), ("and".toList, []),
        ("but".toList, ["* ".toList])]⟩
    let catalog := ofSource
      ⟨"words".toList, fun _ _ => .ok (TextMap.ofList [("xx".toList, vocabulary)])⟩ "yy".toList
    let document := "#language:xx\nWe b\n* c".toList
    let indented := "\t #language:xx\n We b\n\t\t* c".toList
    let padded := "#language:xx\n# d\n\nWe b\nGi\n* c\n ".toList
    catalog.classify files indented = catalog.classify files document
      ∧ (catalog.classify files document).1 = .ok ⟨"xx".toList,
        [⟨2, .whenStep, "We ".toList, "b".toList⟩, ⟨3, .whenStep, "* ".toList, "c".toList⟩]⟩
      ∧ (catalog.classify files padded).1 = .ok ⟨"xx".toList,
        [⟨4, .whenStep, "We ".toList, "b".toList⟩, ⟨6, .whenStep, "* ".toList, "c".toList⟩]⟩ := by
  intro files vocabulary catalog document indented padded
  obtain ⟨hindented, hpadded⟩ := classify_eq_of_layout files catalog
  have unrecognised : ∀ shared, (catalog.tableOf files
        (documentLanguage document catalog.defaultLanguage)).1 = .ok shared →
      ∀ line ∈ paddingOf [⟨["# d".toList, []], "We b".toList⟩, ⟨["Gi".toList], "* c".toList⟩]
        [" ".toList], ¬ shared.table.CanRecognise line := by
    intro shared hshared
    obtain rfl := Except.ok.inj hshared
    simp only [← Table.recognise_eq_none_iff]
    decide
  obtain ⟨hresult, -⟩ := hpadded document padded _ _ _ rfl rfl unrecognised
  refine ⟨hindented _ _ (by decide), rfl, ?_⟩
  rw [hresult]
  rfl

/-- It does not matter which line feeds of a document have a carriage return in front of them. -/
theorem classify_withReturns (files : Files) (catalog : Catalog) {document : Text}
    (noReturn : '\r' ∉ document) (chosen : Nat → Bool) :
    catalog.classify files (withReturns chosen document) = catalog.classify files document := by
  refine classify_eq_of_map_trimStart files catalog ?_
  rw [linesOf_withReturns noReturn]

/-- The directive, a keyword that ends in white space and the last line feed. -/
theorem classify_withReturns_directive :
    let files : Files := ⟨fun _ => false, fun _ => .error .notFound⟩
    let vocabulary : Vocabulary := ⟨none, none, TextMap.ofList
      [("feature".toList, ["Fa".toList]), ("scenarioOutline".toList, ["So".toList]),
        ("examples".toList, ["Ex".toList]), ("scenario".toList, ["Sc".toList]),
        ("background".toList, ["Ba".toList]), ("given".toList, ["Gi ".toList]),
        ("when".toList, ["We ".toList]), ("then".toList, ["Th ".toList]), ("and".toList, []),
        ("but".toList, ["* ".toList])]⟩
    let catalog := ofSource
      ⟨"words".toList, fun _ _ => .ok (TextMap.ofList [("xx".toList, vocabulary)])⟩ "yy".toList
    let document := "# language: xx\nGi \n* c\n".toList
    '\r' ∉ document
      ∧ withReturns (fun i => i != 18) document = "# language: xx\r\nGi \n* c\r\n".toList
      ∧ (catalog.classify files (withReturns (fun i => i != 18) document)).1 = .ok ⟨"xx".toList,
        [⟨2, .givenStep, "Gi ".toList, []⟩, ⟨3, .givenStep, "* ".toList, "c".toList⟩]⟩ := by
  intro files vocabulary catalog document
  have noReturn : '\r' ∉ document := by decide
  refine ⟨noReturn, by decide, ?_⟩
  rw [classify_withReturns files catalog noReturn]
  rfl

end Catalog

end FeatureLines
