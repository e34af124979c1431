import FeatureLines.Document.Classify
import FeatureLines.Proofs.Document.Continuation
import FeatureLines.Proofs.Keyword.Reordered

/-!
# The order of keywords in documents

The order of keywords decides which keyword and which text are reported of a
line. It does not decide the kind: classifiers whose tables give every text the
same kind, and which have the same step in force, mark a line alike and have the
same step in force behind it. So they mark whole documents alike, although the
kind of a continuation depends on all lines before it.

`outline_classify_eq_of_sameKeywords` says this of catalogs, errors included,
whether their tables are published already or not.
-/

namespace FeatureLines

/-! ## Classifying -/

theorem Table.SameKinds.recognise {table other : Table} (h : table.SameKinds other)
    (line : Text) :
    (table.recognise line).map (fun found => found.1.kind) =
      (other.recognise line).map fun found => found.1.kind := by
  unfold Table.recognise
  split
  · rfl
  · rfl
  · exact h _

/-- What does not depend on the order of keywords: the place and the kind of the line. -/
def RecognisedLine.mark (line : RecognisedLine) : Nat × LineKind := (line.number, line.kind)

namespace Classifier

/-- The classifiers give lines the same kinds, and the same step is in force in both. -/
structure SameKinds (classifier other : Classifier) : Prop where
  table : classifier.table.SameKinds other.table
  step : classifier.step = other.step

/-- Both classifiers mark a line alike or not at all, and they stay alike. -/
theorem SameKinds.classify {classifier other : Classifier} (h : classifier.SameKinds other)
    (number : Nat) (line : Text) :
    (classifier.classify number line).1.map RecognisedLine.mark =
        (other.classify number line).1.map RecognisedLine.mark
      ∧ (classifier.classify number line).2.SameKinds (other.classify number line).2 := by
  have hkinds := h.table.recognise line
  cases hfound : classifier.table.recognise line with
  | none =>
    cases hother : other.table.recognise line with
    | none =>
      rw [classify_of_recognise_eq_none hfound, classify_of_recognise_eq_none hother]
      exact ⟨rfl, h⟩
    | some otherFound => simp [hfound, hother] at hkinds
  | some found =>
    cases hother : other.table.recognise line with
    | none => simp [hfound, hother] at hkinds
    | some otherFound =>
      obtain ⟨entry, rest⟩ := found
      obtain ⟨otherEntry, otherRest⟩ := otherFound
      have hkind : entry.kind = otherEntry.kind := by simpa [hfound, hother] using hkinds
      rw [classify_of_recognise hfound, classify_of_recognise hother, h.step, hkind]
      exact ⟨rfl, h.table, rfl⟩

theorem SameKinds.recognisedLines {classifier other : Classifier} (h : classifier.SameKinds other)
    (number : Nat) (lines : List Text) :
    (classifier.recognisedLines number lines).map RecognisedLine.mark =
      (other.recognisedLines number lines).map RecognisedLine.mark := by
  induction lines generalizing classifier other number with
  | nil => rfl
  | cons line lines ih =>
    obtain ⟨hmark, hafter⟩ := h.classify number line
    rw [recognisedLines_cons, recognisedLines_cons, List.map_append, List.map_append,
      ih hafter, ← Option.toList_map, ← Option.toList_map, hmark]

end Classifier

theorem Table.SameKinds.classify {table other : Table} (h : table.SameKinds other)
    (document : Text) :
    (table.classify document).map RecognisedLine.mark =
      (other.classify document).map RecognisedLine.mark := by
  have hfresh : (Classifier.ofTable table).SameKinds (Classifier.ofTable other) := ⟨h, rfl⟩
  exact hfresh.recognisedLines 1 (linesOf document)

/-! ## Catalogs -/

/-- The language of a document with the marks of its lines. -/
def RecognisedDocument.outline (document : RecognisedDocument) : Text × List (Nat × LineKind) :=
  (document.language, document.lines.map RecognisedLine.mark)

namespace Catalog

/-- The tables of the catalog are those of the lexicon, whether they are published or not. -/
inductive Serves (files : Files) (lexicon : Lexicon) (catalog : Catalog) : Prop where
  | unasked (unpublished : catalog.published = none)
      (loads : catalog.source.load files catalog.loads = .ok lexicon)
  | asked {publication : Publication} (published : catalog.published = some publication)
      (built : lexicon.tables = .ok publication.tables)

/-- Published or not, what is prepared is what a load of the lexicon comes to. -/
theorem Serves.exists_prepare_eq {files : Files} {lexicon : Lexicon} {catalog : Catalog}
    (h : catalog.Serves files lexicon) :
    ∃ attempt, (catalog.prepare files).1 = Publication.ofLoad attempt (.ok lexicon) := by
  cases h with
  | unasked unpublished loads =>
    exact ⟨catalog.loads, by rw [prepare_fst_of_unpublished unpublished, loads]⟩
  | @asked publication published built =>
    rw [prepare_of_published published]
    exact ⟨publication.attempt, by simp only [Publication.ofLoad, built]⟩

theorem alike_ofLoad {lexicon other : Lexicon} (h : lexicon.SameKeywords other)
    (attempt otherAttempt : Nat) :
    Alike (fun publication others => ∀ code,
        Option.Rel Table.SameKinds (publication.tables.get? code) (others.tables.get? code))
      (Publication.ofLoad attempt (.ok lexicon))
      (Publication.ofLoad otherAttempt (.ok other)) := by
  simp only [Publication.ofLoad]
  rcases h.alike_tables.outcomes with
    ⟨fault, hfault, hother⟩ | ⟨tables, others, htables, hothers, hcodes⟩
  · rw [hfault, hother]
    exact .error _
  · rw [htables, hothers]
    exact .ok hcodes

theorem Serves.alike_tableOf {files otherFiles : Files} {lexicon otherLexicon : Lexicon}
    {catalog other : Catalog} (h : catalog.Serves files lexicon)
    (hother : other.Serves otherFiles otherLexicon) (hsame : lexicon.SameKeywords otherLexicon)
    (code : Text) :
    Alike (fun shared otherShared => shared.table.SameKinds otherShared.table)
      (catalog.tableOf files code).1 (other.tableOf otherFiles code).1 := by
  obtain ⟨attempt, hprepare⟩ := h.exists_prepare_eq
  obtain ⟨otherAttempt, hotherPrepare⟩ := hother.exists_prepare_eq
  rw [tableOf_fst, tableOf_fst, hprepare, hotherPrepare]
  rcases (alike_ofLoad hsame attempt otherAttempt).outcomes with
    ⟨fault, hfault, hother⟩ | ⟨publication, others, hpublication, hothers, hcodes⟩
  · rw [hfault, hother]
    exact .error _
  · rw [hpublication, hothers]
    unfold Publication.tableOf
    rcases outcomes_of_rel (hcodes code) with
      ⟨hnone, hother⟩ | ⟨table, otherTable, htable, hother, hkinds⟩
    · simp only [hnone, hother]
      exact .error _
    · simp only [htable, hother]
      exact .ok hkinds

/-- Catalogs whose lexicons have the same keywords, in whatever order, and whose default languages
are the same, fail on a document with the same error or recognise its lines as the same kinds. -/
theorem outline_classify_eq_of_sameKeywords {files otherFiles : Files}
    {lexicon otherLexicon : Lexicon} {catalog other : Catalog}
    (h : catalog.Serves files lexicon) (hother : other.Serves otherFiles otherLexicon)
    (hsame : lexicon.SameKeywords otherLexicon)
    (hdefault : catalog.defaultLanguage = other.defaultLanguage) (document : Text) :
    (catalog.classify files document).1.map RecognisedDocument.outline =
      (other.classify otherFiles document).1.map RecognisedDocument.outline := by
  rw [classify_eq, classify_eq, hdefault]
  have htables := h.alike_tableOf hother hsame (documentLanguage document other.defaultLanguage)
  rcases htables.outcomes with
    ⟨fault, hfault, hother⟩ | ⟨shared, otherShared, hshared, hother, hkinds⟩
  · simp only [hfault, hother]
  · have hlines := hkinds.classify document
    simp only [hshared, hother, Except.map, RecognisedDocument.outline, hlines]

/-- The keyword that comes first is matched, and so the keyword and the text that are reported
differ; the kind does not. -/
theorem outline_classify_eq_of_sameKeywords_reordered :
    let files : Files := ⟨fun _ => false, fun _ => .error .notFound⟩
    let lexicon (name : Option Text) (words : List Text) : Lexicon := TextMap.ofList
      [("xx".toList, ⟨name, none, TextMap.ofList
        [("feature".toList, ["Fa".toList]), ("scenarioOutline".toList, ["So".toList]),
          ("examples".toList, ["Ex".toList]), ("scenario".toList, ["Sc".toList]),
          ("background".toList, ["Ba".toList]), ("given".toList, words),
          ("when".toList, ["We ".toList]), ("then".toList, ["Th ".toList]), ("and".toList, []),
          ("but".toList, ["* ".toList])]⟩)]
    let one := lexicon none ["Gi ".toList, "Gi b ".toList]
    let other := lexicon (some "X".toList) ["Gi b ".toList, "Gi ".toList, "Gi b ".toList]
    let catalog (lexicon : Lexicon) := ofSource ⟨[], fun _ _ => .ok lexicon⟩ "xx".toList
    let document := "Gi b c".toList
    ((catalog one).classify files document).1 =
        .ok ⟨"xx".toList, [⟨1, .givenStep, "Gi ".toList, "b c".toList⟩]⟩
      ∧ ((catalog other).classify files document).1 =
        .ok ⟨"xx".toList, [⟨1, .givenStep, "Gi b ".toList, "c".toList⟩]⟩
      ∧ ((catalog one).classify files document).1.map RecognisedDocument.outline =
        ((catalog other).classify files document).1.map RecognisedDocument.outline := by
  intro files lexicon one other catalog document
  have hone : (catalog one).Serves files one := .unasked rfl rfl
  have hother : (catalog other).Serves files other := .unasked rfl rfl
  have hsame : one.SameKeywords other := by
    intro code
    simp only [one, other, lexicon, TextMap.ofList, List.foldl, TextMap.get?_insert]
    by_cases hcode : code = "xx".toList
    · rw [if_pos hcode, if_pos hcode]
      refine .some ?_
      simp only [Vocabulary.SameKeywords, keywordLists, List.forall_mem_cons]
      refine ⟨.some ?_, .some ?_, .some ?_, .some ?_, .some ?_, .some ?_, .some ?_, .some ?_,
        .some ?_, .some ?_, by simp⟩ <;> decide
    · rw [if_neg hcode, if_neg hcode]
      exact .none
  exact ⟨rfl, rfl, outline_classify_eq_of_sameKeywords hone hother hsame rfl document⟩

end Catalog

end FeatureLines
