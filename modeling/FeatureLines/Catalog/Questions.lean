import FeatureLines.Catalog.Basic

/-!
# Questions to a catalog

A catalog is asked for a table, for its codes, or whether it has been built.
`askAll` asks questions one after the other, each with the files as they are at
that moment, so a run says everything that a catalog can show of itself.
-/

namespace FeatureLines

/-- What a catalog can be asked. -/
inductive Question where
  | tableOf (code : Text)
  | codes
  | isBuilt
  deriving Repr, DecidableEq

/-- What a catalog answers. -/
inductive Answer where
  | table (answer : Except Catalog.Failure SharedTable)
  | codes (answer : Except LexiconError (List Text))
  | isBuilt (answer : Bool)

namespace Catalog

/-- Asks one question. -/
def ask (files : Files) (catalog : Catalog) : Question → Answer × Catalog
  | .tableOf code =>
    let (answer, catalog) := catalog.tableOf files code
    (.table answer, catalog)
  | .codes =>
    let (answer, catalog) := catalog.codes files
    (.codes answer, catalog)
  | .isBuilt => (.isBuilt catalog.isBuilt, catalog)

/-- Asks questions one after the other, and gives the answers with the catalog behind each. -/
def askAll (catalog : Catalog) : List (Files × Question) → List (Answer × Catalog)
  | [] => []
  | (files, question) :: questions =>
    let answered := catalog.ask files question
    answered :: askAll answered.2 questions

end Catalog

end FeatureLines
