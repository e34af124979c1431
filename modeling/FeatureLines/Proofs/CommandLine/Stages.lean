import FeatureLines.CommandLine.Run
import FeatureLines.Proofs.Catalog.Attempts
import FeatureLines.Proofs.Settings.Held

/-!
# The stages of a run

Much can be wrong with a run at once: an option that does not exist, settings
that are not JSON, a document that is not there, a lexicon that cannot be built,
a language that it does not have. One error is reported, that of the first stage
that fails, and nothing is written then.

How far a run gets is said stage by stage: `Located` knows its arguments and its
folder, `Configured` its settings too, and `Opened` its document. `RunFails`
gives each error the stages that have to be behind it and nothing of the stages
after it, so an error hides all that would come later; `RunClassifies` has every
stage behind it. The catalog loads its source only when the document asks for a
table, which is why the source comes after the document here and before the
language (`Catalog.tableOf_cases`).

Every run takes one of these ways (`runProgram_cases`), and whichever it takes
determines what is seen of it (`RunClassifies.runProgram_eq`,
`RunFails.runProgram_eq`); `runOutcome_stages` puts them together.
-/

namespace FeatureLines

/-! ## Reading a text -/

namespace Files

variable {files : Files} {path : Text}

theorem readText_of_read {text : Text} (h : files.read path = .ok (Utf8.encode text)) :
    files.readText path = .ok text := by
  unfold readText
  simp only [h, Utf8.decode_eq_ok_iff.mpr rfl]

theorem readText_of_error {cause : FileError} (h : files.read path = .error cause) :
    files.readText path = .error cause := by
  unfold readText
  simp only [h]

theorem readText_of_malformed {bytes : List UInt8} (h : files.read path = .ok bytes)
    (malformed : ¬ Utf8.WellFormed bytes) : files.readText path = .error .notText := by
  unfold readText
  cases hdecode : Utf8.decode bytes with
  | error fault => simp only [h, hdecode]
  | ok text => exact absurd ⟨text, Utf8.decode_eq_ok_iff.mp hdecode⟩ malformed

end Files

/-! ## The first look-up of a catalog -/

namespace Catalog

variable {files : Files} {catalog : Catalog} {code : Text}

theorem tableOf_of_failsAt {error : LexiconError} (h : catalog.published = none)
    (fails : catalog.source.FailsAt files catalog.loads error) :
    (catalog.tableOf files code).1 = .error (.noTables error) := by
  rw [tableOf_fst, prepare_fst_of_unpublished h]
  cases fails with
  | load failed => simp only [failed, Publication.ofLoad]
  | build loaded failed => simp only [loaded, failed, Publication.ofLoad]

theorem tableOf_of_yieldsAt {lexicon : Lexicon} (h : catalog.published = none)
    (yields : catalog.source.YieldsAt files catalog.loads lexicon)
    (absent : lexicon.get? code = none) :
    (catalog.tableOf files code).1 = .error (.unknownLanguage code) := by
  obtain ⟨hload, tables, hbuild⟩ := yields
  have hcode : tables.get? code = none := by
    have hget := TextMap.get?_of_traverse hbuild code
    rwa [absent] at hget
  rw [tableOf_fst, prepare_fst_of_unpublished h, hload]
  simp only [Publication.ofLoad, Publication.tableOf, hbuild, hcode]

/-- The first look-up has one load to go by: it fails with that load, or with the language, or it
does not fail. -/
theorem tableOf_cases (h : catalog.published = none) (files : Files) (code : Text) :
    (∃ error, catalog.source.FailsAt files catalog.loads error)
      ∨ (∃ lexicon, catalog.source.YieldsAt files catalog.loads lexicon
          ∧ lexicon.get? code = none)
      ∨ ∃ shared, (catalog.tableOf files code).1 = .ok shared := by
  rcases catalog.source.ofLoad_cases files catalog.loads with
    ⟨error, hfails, -⟩ | ⟨lexicon, tables, hload, hbuild, hof⟩
  · exact Or.inl ⟨error, hfails⟩
  · refine Or.inr ?_
    cases hcode : lexicon.get? code with
    | none => exact Or.inl ⟨lexicon, ⟨hload, tables, hbuild⟩, hcode⟩
    | some vocabulary =>
      have hget := TextMap.get?_of_traverse hbuild code
      rw [hcode] at hget
      obtain ⟨table, -, htable⟩ := hget
      refine Or.inr ⟨⟨catalog.loads, code, table⟩, ?_⟩
      rw [tableOf_fst, prepare_fst_of_unpublished h, hof]
      simp only [Publication.tableOf, htable]

end Catalog

/-! ## How far a run gets -/

section

variable (files : Files) (current : Except FileError Text) (arguments : List Text)

/-- The arguments are in order, and the folder of the settings is known. -/
structure Located (parsed : Arguments) (root : Text) : Prop where
  inOrder : Arguments.parse arguments = .ok parsed
  folder : parsed.workspace = some root ∨ parsed.workspace = none ∧ current = .ok root

/-- The settings are known too. -/
structure Configured (parsed : Arguments) (root : Text) (settings : Settings) : Prop
    extends Located current arguments parsed root where
  loaded : Settings.LoadsTo root (files.settingsAt root) (.ok settings)

/-- And so is the document. -/
structure Opened (parsed : Arguments) (root : Text) (settings : Settings) (document : Text) : Prop
    extends Configured files current arguments parsed root settings where
  read : files.read parsed.document = .ok (Utf8.encode document)

/-- Every stage succeeds, and the lines of the document are recognised as these. -/
def RunClassifies (recognised : RecognisedDocument) : Prop :=
  ∃ parsed root settings document,
    Opened files current arguments parsed root settings document
      ∧ (settings.catalog.classify files document).1 = .ok recognised

/-- A stage fails with this error, and none before it fails. -/
inductive RunFails : RunError → Prop where
  | usage {error : UsageError} (refused : Arguments.parse arguments = .error error) :
      RunFails (.usage error)
  /-- No workspace is given, and the folder that the run is in cannot be told. -/
  | nowhere {parsed : Arguments} {cause : FileError}
      (inOrder : Arguments.parse arguments = .ok parsed) (notGiven : parsed.workspace = none)
      (unknown : current = .error cause) : RunFails (.unreadable ['.'] cause)
  | settings {parsed : Arguments} {root : Text} {failure : Settings.Failure}
      (located : Located current arguments parsed root)
      (failed : Settings.LoadsTo root (files.settingsAt root) (.error failure)) :
      RunFails (.settings failure)
  | unreadable {parsed : Arguments} {root : Text} {settings : Settings} {cause : FileError}
      (configured : Configured files current arguments parsed root settings)
      (failed : files.read parsed.document = .error cause) :
      RunFails (.unreadable parsed.document cause)
  | notText {parsed : Arguments} {root : Text} {settings : Settings} {bytes : List UInt8}
      (configured : Configured files current arguments parsed root settings)
      (read : files.read parsed.document = .ok bytes) (malformed : ¬ Utf8.WellFormed bytes) :
      RunFails (.unreadable parsed.document .notText)
  /-- The lexicon of the settings cannot be loaded, or not be built. -/
  | lexicon {parsed : Arguments} {root document : Text} {settings : Settings}
      {error : LexiconError}
      (opened : Opened files current arguments parsed root settings document)
      (failed : settings.catalog.source.FailsAt files 0 error) :
      RunFails (.catalog (.noTables error))
  /-- The lexicon does not have the language of the document. -/
  | language {parsed : Arguments} {root document : Text} {settings : Settings}
      {lexicon : Lexicon}
      (opened : Opened files current arguments parsed root settings document)
      (yields : settings.catalog.source.YieldsAt files 0 lexicon)
      (absent : lexicon.get? (documentLanguage document settings.defaultLanguage) = none) :
      RunFails (.catalog (.unknownLanguage (documentLanguage document settings.defaultLanguage)))

end

variable {files : Files} {current : Except FileError Text} {arguments : List Text}
  {parsed : Arguments} {root : Text} {settings : Settings} {document : Text}

/-! ## Each stage hands on to the next -/

/-- With arguments in order and a folder, a run comes to what classifying there comes to. -/
theorem Located.runProgram_eq (h : Located current arguments parsed root) :
    runProgram files current arguments =
      (parsed.classify files root).map fun recognised => Row.writeAll recognised.rows := by
  have hroot : parsed.root current = .ok root := by
    unfold Arguments.root
    rcases h.folder with hgiven | ⟨hnone, hcurrent⟩
    · rw [hgiven]
    · rw [hnone, hcurrent]
  unfold runProgram
  simp only [h.inOrder, hroot]
  cases parsed.classify files root <;> rfl

/-- With settings, it goes on to the document. -/
theorem Configured.classify_eq (h : Configured files current arguments parsed root settings) :
    parsed.classify files root =
      match files.readText parsed.document with
      | .error cause => .error (.unreadable parsed.document cause)
      | .ok document => (settings.catalog.classify files document).1.mapError .catalog := by
  have hfirst : (HeldSettings.initial.load files root).1 = .ok settings := by
    rw [HeldSettings.load_eq, h.loaded.load_eq]
  have hload : HeldSettings.initial.load files root = (.ok settings, ⟨settings⟩) :=
    Prod.ext hfirst (HeldSettings.load_of_ok hfirst)
  unfold Arguments.classify
  simp only [hload, HeldSettings.catalog]
  cases files.readText parsed.document with
  | error cause => rfl
  | ok document =>
    simp only []
    cases (settings.catalog.classify files document).1 <;> rfl

/-- With a document, it goes on to the catalog. -/
theorem Opened.classify_eq
    (h : Opened files current arguments parsed root settings document) :
    parsed.classify files root =
      (settings.catalog.classify files document).1.mapError .catalog := by
  rw [h.toConfigured.classify_eq, Files.readText_of_read h.read]

theorem RunClassifies.runProgram_eq {recognised : RecognisedDocument}
    (h : RunClassifies files current arguments recognised) :
    runProgram files current arguments = .ok (Row.writeAll recognised.rows) := by
  obtain ⟨parsed, root, settings, document, hopened, hclassified⟩ := h
  rw [hopened.toLocated.runProgram_eq, hopened.classify_eq, hclassified]
  rfl

/-- A stage that fails ends the run, whatever the stages after it would have come to. -/
theorem RunFails.runProgram_eq {error : RunError}
    (h : RunFails files current arguments error) :
    runProgram files current arguments = .error error := by
  cases h with
  | usage refused =>
    unfold runProgram
    rw [refused]
  | nowhere inOrder notGiven unknown =>
    unfold runProgram Arguments.root
    simp only [inOrder, notGiven, unknown]
  | @settings parsed root failure located failed =>
    have hload : HeldSettings.initial.load files root = (.error failure, .initial) := by
      unfold HeldSettings.load
      rw [failed.load_eq]
    rw [located.runProgram_eq]
    unfold Arguments.classify
    rw [hload]
    rfl
  | unreadable configured failed =>
    rw [configured.toLocated.runProgram_eq, configured.classify_eq,
      Files.readText_of_error failed]
    rfl
  | notText configured read malformed =>
    rw [configured.toLocated.runProgram_eq, configured.classify_eq,
      Files.readText_of_malformed read malformed]
    rfl
  | lexicon opened failed =>
    rw [opened.toLocated.runProgram_eq, opened.classify_eq,
      Catalog.classify_of_error (Catalog.tableOf_of_failsAt rfl failed)]
    rfl
  | language opened yields absent =>
    rw [opened.toLocated.runProgram_eq, opened.classify_eq,
      Catalog.classify_of_error (Catalog.tableOf_of_yieldsAt rfl yields absent)]
    rfl

theorem RunClassifies.runOutcome_eq {recognised : RecognisedDocument}
    (h : RunClassifies files current arguments recognised) :
    runOutcome files current arguments = ⟨0, Row.writeAll recognised.rows, none⟩ := by
  unfold runOutcome
  rw [h.runProgram_eq]

theorem RunFails.runOutcome_eq {error : RunError}
    (h : RunFails files current arguments error) :
    runOutcome files current arguments = ⟨1, [], some error⟩ := by
  unfold runOutcome
  rw [h.runProgram_eq]

/-! ## A run takes one of these ways -/

theorem Opened.cases (h : Opened files current arguments parsed root settings document) :
    (∃ recognised, RunClassifies files current arguments recognised)
      ∨ ∃ error, RunFails files current arguments error := by
  have hunasked : settings.catalog.published = none := rfl
  rcases Catalog.tableOf_cases hunasked files
      (documentLanguage document settings.defaultLanguage) with
    ⟨error, hfails⟩ | ⟨lexicon, hyields, habsent⟩ | ⟨shared, hshared⟩
  · exact Or.inr ⟨_, .lexicon h hfails⟩
  · exact Or.inr ⟨_, .language h hyields habsent⟩
  · exact Or.inl ⟨_, parsed, root, settings, document, h,
      congrArg Prod.fst (Catalog.classify_of_ok hshared)⟩

theorem Configured.cases (h : Configured files current arguments parsed root settings) :
    (∃ recognised, RunClassifies files current arguments recognised)
      ∨ ∃ error, RunFails files current arguments error := by
  cases hread : files.read parsed.document with
  | error cause => exact Or.inr ⟨_, .unreadable h hread⟩
  | ok bytes =>
    by_cases hformed : Utf8.WellFormed bytes
    · obtain ⟨document, rfl⟩ := hformed
      exact Opened.cases ⟨h, hread⟩
    · exact Or.inr ⟨_, .notText h hread hformed⟩

theorem Located.cases (h : Located current arguments parsed root) (files : Files) :
    (∃ recognised, RunClassifies files current arguments recognised)
      ∨ ∃ error, RunFails files current arguments error := by
  have hloads := Settings.load_loadsTo files root
  cases hload : Settings.load files root with
  | error failure => exact Or.inr ⟨_, .settings h (hload ▸ hloads)⟩
  | ok settings => exact Configured.cases ⟨h, hload ▸ hloads⟩

/-- A run that fails at no stage classifies. -/
theorem runProgram_cases (files : Files) (current : Except FileError Text)
    (arguments : List Text) :
    (∃ recognised, RunClassifies files current arguments recognised)
      ∨ ∃ error, RunFails files current arguments error := by
  cases hparse : Arguments.parse arguments with
  | error error => exact Or.inr ⟨_, .usage hparse⟩
  | ok parsed =>
    cases hworkspace : parsed.workspace with
    | some root => exact Located.cases ⟨hparse, Or.inl hworkspace⟩ files
    | none =>
      cases hcurrent : current with
      | error cause => exact Or.inr ⟨_, .nowhere hparse hworkspace rfl⟩
      | ok root => exact Located.cases ⟨hparse, Or.inr ⟨hworkspace, rfl⟩⟩ files

theorem runOutcome_code_eq_zero_iff :
    (runOutcome files current arguments).code = 0 ↔
      ∃ recognised, RunClassifies files current arguments recognised := by
  constructor
  · intro hcode
    rcases runProgram_cases files current arguments with hclassifies | ⟨error, hfails⟩
    · exact hclassifies
    · rw [hfails.runOutcome_eq] at hcode
      cases hcode
  · rintro ⟨recognised, hclassifies⟩
    rw [hclassifies.runOutcome_eq]

theorem runOutcome_error_eq_some_iff {error : RunError} :
    (runOutcome files current arguments).error = some error ↔
      RunFails files current arguments error := by
  constructor
  · intro herror
    rcases runProgram_cases files current arguments with ⟨recognised, hclassifies⟩ | ⟨other, hfails⟩
    · rw [hclassifies.runOutcome_eq] at herror
      cases herror
    · rw [hfails.runOutcome_eq] at herror
      cases herror
      exact hfails
  · intro hfails
    rw [hfails.runOutcome_eq]

theorem writeAll_rows (recognised : RecognisedDocument) :
    Row.writeAll recognised.rows = recognised.lines.flatMap fun line =>
      decimal line.number ++ '\t' :: line.kind.name.toList ++ '\t' :: line.text ++ ['\n'] :=
  List.flatMap_map RecognisedLine.row Row.write recognised.lines

/-- A run succeeds exactly when every stage of it does, and then it has written one row for each
recognised line, in their order. Otherwise nothing is written, and the error is that of the first
stage that fails. -/
theorem runOutcome_stages (files : Files) (current : Except FileError Text)
    (arguments : List Text) :
    let outcome := runOutcome files current arguments
    (outcome.code = 0 ↔ ∃ recognised, RunClassifies files current arguments recognised)
      ∧ (∀ recognised, RunClassifies files current arguments recognised →
        outcome.error = none ∧ outcome.output = recognised.lines.flatMap fun line =>
          decimal line.number ++ '\t' :: line.kind.name.toList ++ '\t' :: line.text ++ ['\n'])
      ∧ (outcome.code ≠ 0 → outcome.output = []
        ∧ ∃ error, outcome.error = some error)
      ∧ ∀ error, outcome.error = some error ↔ RunFails files current arguments error := by
  intro outcome
  refine ⟨runOutcome_code_eq_zero_iff, fun recognised hclassifies => ?_, fun hcode => ?_,
    fun error => runOutcome_error_eq_some_iff⟩
  · simp only [outcome, hclassifies.runOutcome_eq, true_and]
    exact writeAll_rows recognised
  · rcases runProgram_cases files current arguments with hclassifies | ⟨error, hfails⟩
    · exact absurd (runOutcome_code_eq_zero_iff.mpr hclassifies) hcode
    · simp only [outcome, hfails.runOutcome_eq, true_and]
      exact ⟨error, rfl⟩

end FeatureLines
