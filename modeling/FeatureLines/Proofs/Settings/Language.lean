import FeatureLines.Proofs.Document.Directive
import FeatureLines.Proofs.Settings.Source

/-!
# The language that is looked up

The language of a document comes from one of two places that know nothing of
each other: a first line that declares it, or the settings that were held when
the catalog was made. `DecidedBy` says which of them decides, and it sees no more
of the document than its first line.

Either place vouches for the code in its own way. A declared code ends before
the first white space behind it and is not taken at all if it is empty
(`DecidedBy.isCode`); a default language was validated when it was taken over,
which `Reachable.valid` has for any loads, and no call to the catalog changes it
(`defaultLanguage_afterCalls`). Both mean the same characters by white space.
-/

namespace FeatureLines

/-- A code as it can be looked up: not empty, and without white space. -/
structure IsCode (code : Text) : Prop where
  nonempty : code ≠ []
  plain : ∀ c ∈ code, isBlank c = false

theorem Settings.Valid.isCode {settings : Settings} (h : settings.Valid) :
    IsCode settings.defaultLanguage :=
  ⟨h.language, h.plain⟩

theorem Declares.isCode {line code : Text} (h : Declares line code) : IsCode code := by
  cases h with
  | mk _ _ _ _ _ nonempty plain _ => exact ⟨nonempty, plain⟩

/-- A declared code stands behind a colon, with nothing but white space in between. -/
theorem Declares.exists_colon {line code : Text} (h : Declares line code) :
    ∃ before blank tail, line = before ++ ':' :: (blank ++ code ++ tail)
      ∧ allBlank blank = true := by
  cases h with
  | mk _ _ _ _ behindBlank _ _ _ => exact ⟨_, _, _, rfl, behindBlank⟩

/-! ## What decides the language of a document -/

/-- The language of a document with this first line, in a catalog with this default language. -/
inductive DecidedBy (default : Text) : Option Text → Text → Prop where
  | directive {line code : Text} (declares : Declares line code) :
      DecidedBy default (some line) code
  | otherLine {line : Text} (undeclared : ∀ code, ¬ Declares line code) :
      DecidedBy default (some line) default
  | noLine : DecidedBy default none default

theorem DecidedBy.isCode {default language : Text} {line : Option Text} (h : IsCode default)
    (decided : DecidedBy default line language) : IsCode language := by
  cases decided with
  | directive declares => exact declares.isCode
  | otherLine => exact h
  | noLine => exact h

theorem decidedBy_documentLanguage (document default : Text) :
    DecidedBy default (linesOf document).head? (documentLanguage document default) := by
  unfold documentLanguage
  cases (linesOf document).head? with
  | none => exact .noLine
  | some line =>
    rw [Option.bind_some]
    cases hread : declaredLanguage line with
    | none =>
      refine .otherLine fun code declares => ?_
      cases hread.symm.trans declares.declaredLanguage_eq
    | some code => exact .directive (declares_of_declaredLanguage hread)

/-- A first line leaves no choice of a language. -/
theorem DecidedBy.unique {default language other : Text} {line : Option Text}
    (h : DecidedBy default line language) (hother : DecidedBy default line other) :
    language = other := by
  cases h with
  | directive declares =>
    cases hother with
    | directive declares' =>
      exact Option.some.inj (declares.declaredLanguage_eq.symm.trans declares'.declaredLanguage_eq)
    | otherLine undeclared => exact absurd declares (undeclared _)
  | otherLine undeclared =>
    cases hother with
    | directive declares => exact absurd declares (undeclared _)
    | otherLine => rfl
  | noLine =>
    cases hother
    rfl

theorem DecidedBy.eq_default {default language : Text} {line : Option Text}
    (decided : DecidedBy default line language)
    (undeclared : ∀ said code, line = some said → ¬ Declares said code) : language = default := by
  cases decided with
  | directive declares => exact absurd declares (undeclared _ _ rfl)
  | otherLine => rfl
  | noLine => rfl

/-- No-break, ideographic and em spaces are white space to a directive too. -/
example : documentLanguage "#\u00a0language:\u3000x#y\u2003z\nFeature: a".toList "en".toList =
    "x#y".toList := by decide

/-! ## What is looked up, and reported -/

namespace Catalog

/-- Classifying the document comes to looking up this language, and what it comes to names no other
language. -/
structure LooksUp (files : Files) (document : Text) (catalog : Catalog) (language : Text) :
    Prop where
  failed : ∀ failure, (catalog.tableOf files language).1 = .error failure →
    (catalog.classify files document).1 = .error failure
  found : ∀ shared, (catalog.tableOf files language).1 = .ok shared →
    (catalog.classify files document).1 = .ok ⟨language, shared.table.classify document⟩
  left : (catalog.classify files document).2 = (catalog.tableOf files language).2
  reported : ∀ recognised, (catalog.classify files document).1 = .ok recognised →
    recognised.language = language
  missed : ∀ code, (catalog.classify files document).1 = .error (.unknownLanguage code) →
    code = language

/-- The code that is reported to be missing is the one that was looked up. -/
theorem eq_of_tableOf_unknownLanguage {files : Files} {catalog : Catalog} {language code : Text}
    (h : (catalog.tableOf files language).1 = .error (.unknownLanguage code)) :
    code = language := by
  rw [tableOf_fst] at h
  cases hprepare : (catalog.prepare files).1 with
  | error error =>
    rw [hprepare] at h
    cases h
  | ok publication =>
    rw [hprepare] at h
    simp only [Publication.tableOf] at h
    cases hget : publication.tables.get? language with
    | none =>
      rw [hget] at h
      cases h
      rfl
    | some table =>
      rw [hget] at h
      cases h

theorem looksUp_documentLanguage (files : Files) (document : Text) (catalog : Catalog) :
    catalog.LooksUp files document (documentLanguage document catalog.defaultLanguage) := by
  have hclassify := classify_eq files document catalog
  refine ⟨fun failure h => ?_, fun shared h => ?_, ?_, fun recognised h => ?_, fun code h => ?_⟩
  · rw [classify_of_error h]
  · rw [classify_of_ok h]
  · rw [hclassify]
  · cases htable : (catalog.tableOf files
        (documentLanguage document catalog.defaultLanguage)).1 with
    | error failure =>
      rw [classify_of_error htable] at h
      cases h
    | ok shared =>
      rw [classify_of_ok htable] at h
      cases h
      rfl
  · cases htable : (catalog.tableOf files
        (documentLanguage document catalog.defaultLanguage)).1 with
    | error failure =>
      rw [classify_of_error htable] at h
      cases h
      exact eq_of_tableOf_unknownLanguage htable
    | ok shared =>
      rw [classify_of_ok htable] at h
      cases h

/-! ## Calls keep the default language -/

theorem defaultLanguage_prepare (files : Files) (catalog : Catalog) :
    (catalog.prepare files).2.defaultLanguage = catalog.defaultLanguage := by
  unfold prepare
  split
  · rfl
  · split <;> rfl

theorem defaultLanguage_tableOf (files : Files) (code : Text) (catalog : Catalog) :
    (catalog.tableOf files code).2.defaultLanguage = catalog.defaultLanguage := by
  rw [← defaultLanguage_prepare files catalog]
  unfold tableOf
  rcases catalog.prepare files with ⟨_ | _, _⟩ <;> rfl

theorem defaultLanguage_codes (files : Files) (catalog : Catalog) :
    (catalog.codes files).2.defaultLanguage = catalog.defaultLanguage := by
  rw [← defaultLanguage_prepare files catalog]
  unfold codes
  rcases catalog.prepare files with ⟨_ | _, _⟩ <;> rfl

theorem defaultLanguage_serve (files : Files) (catalog : Catalog) (call : Call) :
    (catalog.serve files call).2.defaultLanguage = catalog.defaultLanguage := by
  cases call with
  | ask question =>
    cases question with
    | tableOf code => exact defaultLanguage_tableOf files code catalog
    | codes => exact defaultLanguage_codes files catalog
    | isBuilt => rfl
  | classify document =>
    have hleft := (looksUp_documentLanguage files document catalog).left
    exact (congrArg defaultLanguage hleft).trans (defaultLanguage_tableOf files _ catalog)

/-- The catalog behind calls, each with the files as they are at its moment. -/
def afterCalls (catalog : Catalog) : List (Files × Call) → Catalog
  | [] => catalog
  | (files, call) :: calls => afterCalls (catalog.serve files call).2 calls

theorem defaultLanguage_afterCalls (catalog : Catalog) (calls : List (Files × Call)) :
    (catalog.afterCalls calls).defaultLanguage = catalog.defaultLanguage := by
  induction calls generalizing catalog with
  | nil => rfl
  | cons next calls ih => exact (ih _).trans (defaultLanguage_serve next.1 catalog next.2)

end Catalog

/-! ## Any loads, any document -/

namespace HeldSettings

/-- The language that is looked up for a document in a catalog of the held settings, after any loads
and any calls to this catalog. It is not empty and holds no white space, and a document with the
same first line has the same language. On a directive it is the declared code, a part of this line
behind a colon; otherwise it is the default language that is held. -/
theorem exists_looksUp_behind_initial (loads : List (Files × Text)) (document : Text) :
    let held := initial.behind loads
    ∃ language,
      (∀ calls files other, (linesOf other).head? = (linesOf document).head? →
          (held.catalog.afterCalls calls).LooksUp files other language)
        ∧ language ≠ [] ∧ (∀ c ∈ language, isBlank c = false)
        ∧ (∀ line code, (linesOf document).head? = some line → Declares line code →
          language = code ∧ ∃ before blank tail,
            line = before ++ ':' :: (blank ++ language ++ tail) ∧ allBlank blank = true)
        ∧ ((∀ line code, (linesOf document).head? = some line → ¬ Declares line code) →
          language = held.current.defaultLanguage) := by
  intro held
  have hvalid : held.current.Valid := (Reachable.initial.behind loads).valid
  have decided := decidedBy_documentLanguage document held.current.defaultLanguage
  have hcode := decided.isCode hvalid.isCode
  refine ⟨documentLanguage document held.current.defaultLanguage, fun calls files other hline => ?_,
    hcode.nonempty, hcode.plain, fun line code hline declares => ?_, fun undeclared => ?_⟩
  · have hdefault : (held.catalog.afterCalls calls).defaultLanguage =
        held.current.defaultLanguage := Catalog.defaultLanguage_afterCalls held.catalog calls
    have hlookup := Catalog.looksUp_documentLanguage files other (held.catalog.afterCalls calls)
    have hother := decidedBy_documentLanguage other held.current.defaultLanguage
    rw [hline] at hother
    rwa [hdefault, hother.unique decided] at hlookup
  · rw [hline] at decided
    have hsame := decided.unique (.directive declares)
    rw [hsame]
    exact ⟨rfl, declares.exists_colon⟩
  · exact decided.eq_default undeclared

end HeldSettings

end FeatureLines
