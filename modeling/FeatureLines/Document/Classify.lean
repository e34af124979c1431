import FeatureLines.Catalog.Basic
import FeatureLines.Document.Classifier
import FeatureLines.Document.Directive

/-!
# Classifying documents

The language of a document is looked up before any line is classified, so a
document either fails as a whole or is classified to its end.
-/

namespace FeatureLines

/-- The recognised lines of a document and the language they were recognised in. -/
structure RecognisedDocument where
  language : Text
  lines : List RecognisedLine
  deriving Repr, DecidableEq

/-- The recognised lines of a document, with the table of its language. -/
def Table.classify (table : Table) (document : Text) : List RecognisedLine :=
  (Classifier.ofTable table).recognisedLines 1 (linesOf document)

/-- Classifies a document in the language that it declares, or else in the default language of
the catalog. -/
def Catalog.classify (files : Files) (document : Text) (catalog : Catalog) :
    Except Catalog.Failure RecognisedDocument × Catalog :=
  let language := documentLanguage document catalog.defaultLanguage
  match catalog.tableOf files language with
  | (.error failure, catalog) => (.error failure, catalog)
  | (.ok shared, catalog) => (.ok ⟨language, shared.table.classify document⟩, catalog)

/-- The document plays no part in the look-up but by its language. -/
theorem Catalog.classify_eq (files : Files) (document : Text) (catalog : Catalog) :
    let language := documentLanguage document catalog.defaultLanguage
    catalog.classify files document =
      ((catalog.tableOf files language).1.map fun shared =>
          ⟨language, shared.table.classify document⟩,
        (catalog.tableOf files language).2) := by
  intro language
  unfold classify
  cases htable : catalog.tableOf files language with
  | mk answer after => cases answer <;> simp only [language, htable] <;> rfl

theorem Catalog.classify_of_error {files : Files} {document : Text} {catalog : Catalog}
    {failure : Catalog.Failure}
    (h : (catalog.tableOf files (documentLanguage document catalog.defaultLanguage)).1 =
      .error failure) :
    catalog.classify files document = (.error failure,
      (catalog.tableOf files (documentLanguage document catalog.defaultLanguage)).2) := by
  simp only [classify_eq, h, Except.map]

theorem Catalog.classify_of_ok {files : Files} {document : Text} {catalog : Catalog}
    {shared : SharedTable}
    (h : (catalog.tableOf files (documentLanguage document catalog.defaultLanguage)).1 =
      .ok shared) :
    catalog.classify files document =
      (.ok ⟨documentLanguage document catalog.defaultLanguage, shared.table.classify document⟩,
        (catalog.tableOf files (documentLanguage document catalog.defaultLanguage)).2) := by
  simp only [classify_eq, h, Except.map]

end FeatureLines
