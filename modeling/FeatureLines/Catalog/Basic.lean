import FeatureLines.Catalog.Source

/-!
# Catalogs

A catalog serves the tables of a lexicon by language code. The first question
loads the source and builds every table; once that has succeeded the tables are
published and the source is never loaded again. A failed attempt leaves nothing
behind but its count, so the next question makes another one.

Tables are shared: two answers are the same table when they come from the same
attempt under the same code, and not merely when their entries are equal.
-/

namespace FeatureLines

/-- The language of documents that do not declare one, unless a catalog says otherwise. -/
def standardLanguage : Text := "en".toList

/-- Why a catalog did not give the table of a language. The first may pass when the catalog is
asked again, the second does not. -/
inductive Catalog.Failure where
  /-- There are no tables. -/
  | noTables (error : LexiconError)
  /-- The lexicon has no language with this code. -/
  | unknownLanguage (code : Text)
  deriving Repr, DecidableEq

/-- The failure in words, up to the account of a fault in a JSON text. -/
def Catalog.Failure.heading : Catalog.Failure → String
  | .noTables error => error.heading
  | .unknownLanguage code => "no translation for language code '" ++ String.ofList code ++ "'"

def Catalog.Failure.message : Catalog.Failure → String
  | .noTables error => error.message
  | failure => failure.heading

/-! ## Published tables -/

/-- The tables that one attempt has published. -/
structure Publication where
  /-- The number of the load whose tables these are. -/
  attempt : Nat
  tables : TextMap Table
  deriving Repr, DecidableEq

/-- A published table: which attempt published it under which code, and what it holds. -/
structure SharedTable where
  attempt : Nat
  code : Text
  table : Table
  deriving Repr, DecidableEq

def Publication.codes (publication : Publication) : List Text := publication.tables.keys

def Publication.tableOf (publication : Publication) (code : Text) :
    Except Catalog.Failure SharedTable :=
  match publication.tables.get? code with
  | some table => .ok ⟨publication.attempt, code, table⟩
  | none => .error (.unknownLanguage code)

/-- The outcome of an attempt: all tables of what was loaded, or why there are none. -/
def Publication.ofLoad (attempt : Nat) (loaded : Except LexiconError Lexicon) :
    Except LexiconError Publication :=
  match loaded with
  | .error error => .error error
  | .ok lexicon =>
    match lexicon.tables with
    | .error error => .error (.unbuildable error)
    | .ok tables => .ok ⟨attempt, tables⟩

/-! ## Catalogs -/

/-- A source, and the tables built from it so far. -/
structure Catalog where
  source : Source
  defaultLanguage : Text
  /-- How often the source has been loaded. -/
  loads : Nat
  published : Option Publication

namespace Catalog

/-- A catalog that has not been asked anything. -/
def ofSource (source : Source) (defaultLanguage : Text) : Catalog :=
  ⟨source, defaultLanguage, 0, none⟩

/-- The catalog with this language for documents that do not declare one. -/
def withDefaultLanguage (code : Text) (catalog : Catalog) : Catalog :=
  { catalog with defaultLanguage := code }

/-- The catalog of the lexicon that comes with the library. -/
def bundled : Catalog := ofSource .bundled standardLanguage

def isBuilt (catalog : Catalog) : Bool := catalog.published.isSome

/-- The published tables, after an attempt to build them if there are none. -/
def prepare (files : Files) (catalog : Catalog) : Except LexiconError Publication × Catalog :=
  match catalog.published with
  | some publication => (.ok publication, catalog)
  | none =>
    let tried := { catalog with loads := catalog.loads + 1 }
    match Publication.ofLoad catalog.loads (catalog.source.load files catalog.loads) with
    | .error error => (.error error, tried)
    | .ok publication => (.ok publication, { tried with published := some publication })

def tableOf (files : Files) (code : Text) (catalog : Catalog) :
    Except Failure SharedTable × Catalog :=
  match catalog.prepare files with
  | (.error error, catalog) => (.error (.noTables error), catalog)
  | (.ok publication, catalog) => (publication.tableOf code, catalog)

def codes (files : Files) (catalog : Catalog) : Except LexiconError (List Text) × Catalog :=
  match catalog.prepare files with
  | (.error error, catalog) => (.error error, catalog)
  | (.ok publication, catalog) => (.ok publication.codes, catalog)

/-! ## A look-up asks the prepared tables -/

theorem prepare_fst_of_unpublished {catalog : Catalog} (h : catalog.published = none)
    (files : Files) :
    (catalog.prepare files).1 =
      Publication.ofLoad catalog.loads (catalog.source.load files catalog.loads) := by
  simp only [prepare, h]
  split
  · next error herror => exact herror.symm
  · next publication hpublication => exact hpublication.symm

theorem tableOf_fst (files : Files) (code : Text) (catalog : Catalog) :
    (catalog.tableOf files code).1 =
      match (catalog.prepare files).1 with
      | .error error => .error (.noTables error)
      | .ok publication => publication.tableOf code := by
  unfold tableOf
  rcases catalog.prepare files with ⟨_ | _, _⟩ <;> rfl

/-! ## The default language plays no part in a look-up -/

theorem prepare_withDefaultLanguage (files : Files) (code : Text) (catalog : Catalog) :
    (catalog.withDefaultLanguage code).prepare files =
      ((catalog.prepare files).1, (catalog.prepare files).2.withDefaultLanguage code) := by
  simp only [prepare, withDefaultLanguage]
  split
  · rfl
  · split <;> rfl

theorem tableOf_withDefaultLanguage (files : Files) (default code : Text) (catalog : Catalog) :
    (catalog.withDefaultLanguage default).tableOf files code =
      ((catalog.tableOf files code).1, (catalog.tableOf files code).2.withDefaultLanguage default) := by
  simp only [tableOf, prepare_withDefaultLanguage]
  rcases catalog.prepare files with ⟨_ | _, _⟩ <;> rfl

/-! ## Once published, always published -/

theorem prepare_of_published {catalog : Catalog} {publication : Publication}
    (h : catalog.published = some publication) (files : Files) :
    catalog.prepare files = (.ok publication, catalog) := by
  simp [prepare, h]

end Catalog

end FeatureLines
