import FeatureLines.Catalog.Questions
import FeatureLines.Proofs.Text.Utf8

/-!
# Loading until it succeeds, and never again

A catalog may be asked anything in any order while its source changes under it:
every load may have its own outcome. What a catalog answers is fixed by one
thing, the first load whose lexicon could be loaded and built.

`occasions` lists the files at the questions that take the tables, in order; the
`n`-th of them would be there for load `n`. `Standing` is the invariant of a run:
as long as every load has failed there has been one for each occasion and nothing
is published, and from the first one that succeeds the number of loads and the
publication stay. `Standing.ask` is the step, `Standing.behind` the run, and
`askAll_getElem?_answered` says from there what each question is answered.
-/

namespace FeatureLines

/-! ## Attempts -/

namespace Source

/-- The load with this number gives no tables: it fails, or what it gives has none. -/
inductive FailsAt (source : Source) (files : Files) (n : Nat) : LexiconError → Prop where
  | load {error : LexiconError} (failed : source.load files n = .error error) :
      FailsAt source files n error
  | build {lexicon : Lexicon} {error : BuildError} (loaded : source.load files n = .ok lexicon)
      (failed : lexicon.tables = .error error) : FailsAt source files n (.unbuildable error)

/-- The load with this number gives this lexicon, and the lexicon has tables. -/
def YieldsAt (source : Source) (files : Files) (n : Nat) (lexicon : Lexicon) : Prop :=
  source.load files n = .ok lexicon ∧ ∃ tables, lexicon.tables = .ok tables

/-- Every load below `m` fails, the files for each of them being those of its occasion. -/
def FailsBelow (source : Source) (made : List Files) (m : Nat) : Prop :=
  ∀ n files, n < m → made[n]? = some files → ∃ error, source.FailsAt files n error

/-- An attempt either fails as `FailsAt` says or publishes the tables of what was loaded. -/
theorem ofLoad_cases (source : Source) (files : Files) (n : Nat) :
    (∃ error, source.FailsAt files n error
        ∧ Publication.ofLoad n (source.load files n) = .error error)
      ∨ ∃ lexicon tables, source.load files n = .ok lexicon ∧ lexicon.tables = .ok tables
        ∧ Publication.ofLoad n (source.load files n) = .ok ⟨n, tables⟩ := by
  cases hload : source.load files n with
  | error error => exact Or.inl ⟨error, .load hload, rfl⟩
  | ok lexicon =>
    cases hbuild : lexicon.tables with
    | error error =>
      exact Or.inl ⟨.unbuildable error, .build hload hbuild, by simp [Publication.ofLoad, hbuild]⟩
    | ok tables =>
      exact Or.inr ⟨lexicon, tables, rfl, hbuild, by simp [Publication.ofLoad, hbuild]⟩

end Source

/-! ## Questions and their answers -/

/-- Whether answering a question takes the tables. -/
def Question.needsTables : Question → Bool
  | .tableOf _ | .codes => true
  | .isBuilt => false

/-- The files at the questions that take the tables, in the order of these questions. -/
def occasions (questions : List (Files × Question)) : List Files :=
  (questions.filter fun asked => asked.2.needsTables).map (·.1)

/-- What is answered where tables cannot be had; `fails` tells the errors that may be reported. -/
def AnswersWithout (fails : LexiconError → Prop) : Question → Answer → Prop
  | .tableOf _, answer => ∃ error, fails error ∧ answer = .table (.error (.noTables error))
  | .codes, answer => ∃ error, fails error ∧ answer = .codes (.error error)
  | .isBuilt, answer => answer = .isBuilt false

/-- What is answered from the tables of a lexicon that load `n` gave. -/
def AnswersFrom (n : Nat) (lexicon : Lexicon) : Question → Answer → Prop
  | .tableOf code, answer =>
    match lexicon.get? code with
    | some vocabulary =>
      ∃ table, vocabulary.table code = .ok table ∧ answer = .table (.ok ⟨n, code, table⟩)
    | none => answer = .table (.error (.unknownLanguage code))
  | .codes, answer =>
    ∃ codes, answer = .codes (.ok codes)
      ∧ codes.Pairwise (fun a b => Utf8.encode a < Utf8.encode b)
      ∧ ∀ code, code ∈ codes ↔ (lexicon.get? code).isSome
  | .isBuilt, answer => answer = .isBuilt true

/-- The published table of a language is the one built from its vocabulary. -/
theorem tableOf_of_tables {n : Nat} {lexicon : Lexicon} {tables : TextMap Table}
    (h : lexicon.tables = .ok tables) (code : Text) :
    AnswersFrom n lexicon (.tableOf code) (.table (Publication.tableOf ⟨n, tables⟩ code)) := by
  have hget := TextMap.get?_of_traverse h code
  simp only [AnswersFrom, Publication.tableOf]
  cases hcode : lexicon.get? code with
  | none =>
    rw [hcode] at hget
    simp [show tables.get? code = none from hget]
  | some vocabulary =>
    rw [hcode] at hget
    obtain ⟨table, hbuilt, htable⟩ := hget
    exact ⟨table, hbuilt, by rw [htable]⟩

/-- The published codes are those of the lexicon, in the order of their bytes. -/
theorem codes_of_tables {n : Nat} {lexicon : Lexicon} {tables : TextMap Table}
    (h : lexicon.tables = .ok tables) :
    AnswersFrom n lexicon .codes (.codes (.ok (Publication.codes ⟨n, tables⟩))) := by
  refine ⟨_, rfl, ?_, fun code => ?_⟩
  · exact tables.pairwise_keys.imp Utf8.encode_lt_encode
  · have hget := TextMap.get?_of_traverse h code
    show code ∈ tables.keys ↔ _
    rw [TextMap.mem_keys_iff]
    cases hcode : lexicon.get? code with
    | none =>
      rw [hcode] at hget
      simp [show tables.get? code = none from hget]
    | some vocabulary =>
      rw [hcode] at hget
      obtain ⟨table, -, htable⟩ := hget
      simp [htable]

namespace Catalog

/-! ## One question -/

/-- What preparing the tables does: nothing once they are published, and otherwise one load,
whose outcome is the outcome. -/
theorem prepare_cases (files : Files) (catalog : Catalog) :
    (∃ publication, catalog.published = some publication
        ∧ catalog.prepare files = (.ok publication, catalog))
      ∨ (catalog.published = none ∧ ∃ error, catalog.source.FailsAt files catalog.loads error
        ∧ catalog.prepare files = (.error error, { catalog with loads := catalog.loads + 1 }))
      ∨ (catalog.published = none ∧ ∃ lexicon tables,
        catalog.source.load files catalog.loads = .ok lexicon ∧ lexicon.tables = .ok tables
        ∧ catalog.prepare files = (.ok ⟨catalog.loads, tables⟩,
          { catalog with
            loads := catalog.loads + 1, published := some ⟨catalog.loads, tables⟩ })) := by
  cases hpub : catalog.published with
  | some publication =>
    exact Or.inl ⟨publication, rfl, prepare_of_published hpub files⟩
  | none =>
    rcases catalog.source.ofLoad_cases files catalog.loads with
      ⟨error, hfails, hof⟩ | ⟨lexicon, tables, hload, hbuild, hof⟩
    · exact Or.inr (Or.inl ⟨rfl, error, hfails, by simp [prepare, hpub, hof]⟩)
    · exact Or.inr (Or.inr ⟨rfl, lexicon, tables, hload, hbuild, by simp [prepare, hpub, hof]⟩)

/-- Asking when no tables can be had. -/
theorem ask_of_prepare_error {files : Files} {catalog next : Catalog} {error : LexiconError}
    (h : catalog.prepare files = (.error error, next)) {question : Question}
    (hneeds : question.needsTables = true) {fails : LexiconError → Prop} (hfails : fails error) :
    AnswersWithout fails question (catalog.ask files question).1
      ∧ (catalog.ask files question).2 = next := by
  cases question with
  | tableOf code =>
    simp only [ask, tableOf, h]
    exact ⟨⟨error, hfails, rfl⟩, trivial⟩
  | codes =>
    simp only [ask, codes, h]
    exact ⟨⟨error, hfails, rfl⟩, trivial⟩
  | isBuilt => cases hneeds

/-- Asking when the tables of a lexicon are at hand. -/
theorem ask_of_prepare_ok {files : Files} {catalog next : Catalog} {n : Nat} {lexicon : Lexicon}
    {tables : TextMap Table} (hbuild : lexicon.tables = .ok tables)
    (h : catalog.prepare files = (.ok ⟨n, tables⟩, next)) {question : Question}
    (hneeds : question.needsTables = true) :
    AnswersFrom n lexicon question (catalog.ask files question).1
      ∧ (catalog.ask files question).2 = next := by
  cases question with
  | tableOf code =>
    simp only [ask, tableOf, h]
    exact ⟨tableOf_of_tables hbuild code, trivial⟩
  | codes =>
    simp only [ask, codes, h]
    exact ⟨codes_of_tables hbuild, trivial⟩
  | isBuilt => cases hneeds

/-! ## Runs -/

/-- The catalog behind some questions. -/
def behind (catalog : Catalog) : List (Files × Question) → Catalog
  | [] => catalog
  | (files, question) :: questions => behind (catalog.ask files question).2 questions

theorem askAll_getElem?_append (catalog : Catalog) (earlier : List (Files × Question))
    (files : Files) (question : Question) (later : List (Files × Question)) :
    (catalog.askAll (earlier ++ (files, question) :: later))[earlier.length]? =
      some ((catalog.behind earlier).ask files question) := by
  induction earlier generalizing catalog with
  | nil => rfl
  | cons asked earlier ih => exact ih (catalog.ask asked.1 asked.2).2

/-- Where a catalog stands after occasions to load. -/
inductive Standing (source : Source) (made : List Files) (catalog : Catalog) : Prop where
  | unpublished (same : catalog.source = source) (failed : source.FailsBelow made made.length)
      (loads : catalog.loads = made.length) (published : catalog.published = none)
  | published {m : Nat} {files : Files} {lexicon : Lexicon} {tables : TextMap Table}
      (same : catalog.source = source) (occasion : made[m]? = some files)
      (loaded : source.load files m = .ok lexicon) (built : lexicon.tables = .ok tables)
      (failed : source.FailsBelow made m) (loads : catalog.loads = m + 1)
      (published : catalog.published = some ⟨m, tables⟩)

theorem FailsBelow_append {source : Source} {made : List Files} {m : Nat} (hm : m ≤ made.length)
    (h : source.FailsBelow made m) (more : List Files) : source.FailsBelow (made ++ more) m := by
  intro n files hn hfiles
  rw [List.getElem?_append_left (by omega)] at hfiles
  exact h n files hn hfiles

theorem FailsBelow_concat {source : Source} {made : List Files} {files : Files}
    (h : source.FailsBelow made made.length) {error : LexiconError}
    (hfails : source.FailsAt files made.length error) :
    source.FailsBelow (made ++ [files]) (made ++ [files]).length := by
  intro n occasion hn hoccasion
  rcases Nat.lt_or_ge n made.length with hlt | hge
  · exact FailsBelow_append (Nat.le_refl _) h [files] n occasion hlt hoccasion
  · rw [List.length_append, List.length_singleton] at hn
    obtain rfl : n = made.length := by omega
    rw [List.getElem?_concat_length] at hoccasion
    exact Option.some.inj hoccasion ▸ ⟨error, hfails⟩

/-- What a catalog answers, given the occasions up to this question and the catalog behind it:
either every load up to here has failed, this one included if the question made one, or one of
them was the first to succeed. -/
def Answered (source : Source) (made : List Files) (files : Files) (question : Question)
    (answer : Answer) (catalog : Catalog) : Prop :=
  (source.FailsBelow made made.length ∧ catalog.loads = made.length ∧ catalog.isBuilt = false
      ∧ AnswersWithout (source.FailsAt files (made.length - 1)) question answer)
    ∨ ∃ m occasion lexicon, made[m]? = some occasion ∧ source.FailsBelow made m
      ∧ source.YieldsAt occasion m lexicon ∧ catalog.loads = m + 1 ∧ catalog.isBuilt = true
      ∧ AnswersFrom m lexicon question answer

/-- One question: it moves the catalog on as its occasion says, and is answered accordingly. -/
theorem Standing.ask {source : Source} {made : List Files} {catalog : Catalog}
    (h : Standing source made catalog) (files : Files) (question : Question) :
    Standing source (made ++ occasions [(files, question)]) (catalog.ask files question).2
      ∧ Answered source (made ++ occasions [(files, question)]) files question
        (catalog.ask files question).1 (catalog.ask files question).2 := by
  cases hneeds : question.needsTables with
  | false =>
    obtain rfl : question = .isBuilt := by cases question <;> first | rfl | cases hneeds
    have hnone : occasions [(files, Question.isBuilt)] = [] := rfl
    rw [hnone, List.append_nil]
    refine ⟨h, ?_⟩
    cases h with
    | unpublished same failed loads published =>
      have hbuilt : catalog.isBuilt = false := by rw [isBuilt, published]; rfl
      exact Or.inl ⟨failed, loads, hbuilt, congrArg Answer.isBuilt hbuilt⟩
    | @published m occasion lexicon tables same hoccasion loaded built failed loads published =>
      have hbuilt : catalog.isBuilt = true := by rw [isBuilt, published]; rfl
      exact Or.inr ⟨m, occasion, lexicon, hoccasion, failed, ⟨loaded, tables, built⟩, loads,
        hbuilt, congrArg Answer.isBuilt hbuilt⟩
  | true =>
    have hone : occasions [(files, question)] = [files] := by simp [occasions, hneeds]
    rw [hone]
    cases h with
    | unpublished same failed loads published =>
      rcases catalog.prepare_cases files with
        ⟨publication, hpub, -⟩ | ⟨-, error, hfails, hprep⟩
          | ⟨-, lexicon, tables, hload, hbuild, hprep⟩
      · rw [published] at hpub; cases hpub
      · rw [same, loads] at hfails
        obtain ⟨hanswer, hnext⟩ := ask_of_prepare_error hprep hneeds hfails
        have hfailed := FailsBelow_concat failed hfails
        rw [hnext]
        exact ⟨.unpublished same hfailed (by simp [loads]) published,
          Or.inl ⟨hfailed, by simp [loads], by simp [isBuilt, published],
            by simpa using hanswer⟩⟩
      · rw [same, loads] at hload
        rw [loads] at hprep
        obtain ⟨hanswer, hnext⟩ := ask_of_prepare_ok hbuild hprep hneeds
        have hoccasion : (made ++ [files])[made.length]? = some files :=
          List.getElem?_concat_length ..
        have hfailed := FailsBelow_append (Nat.le_refl _) failed [files]
        rw [hnext]
        exact ⟨.published same hoccasion hload hbuild hfailed rfl rfl,
          Or.inr ⟨_, _, lexicon, hoccasion, hfailed, ⟨hload, tables, hbuild⟩, rfl, rfl, hanswer⟩⟩
    | @published m occasion lexicon tables same hoccasion loaded built failed loads published =>
      have hm : m < made.length := (List.getElem?_eq_some_iff.mp hoccasion).1
      have hoccasion' : (made ++ [files])[m]? = some occasion := by
        rw [List.getElem?_append_left hm]; exact hoccasion
      have hfailed := FailsBelow_append (Nat.le_of_lt hm) failed [files]
      obtain ⟨hanswer, hnext⟩ :=
        ask_of_prepare_ok built (prepare_of_published published files) hneeds
      rw [hnext]
      exact ⟨.published same hoccasion' loaded built hfailed loads published,
        Or.inr ⟨m, occasion, lexicon, hoccasion', hfailed, ⟨loaded, tables, built⟩, loads,
          by rw [isBuilt, published]; rfl, hanswer⟩⟩

theorem occasions_append (a b : List (Files × Question)) :
    occasions (a ++ b) = occasions a ++ occasions b := by
  simp [occasions]

theorem Standing.behind {source : Source} {made : List Files} {catalog : Catalog}
    (h : Standing source made catalog) (questions : List (Files × Question)) :
    Standing source (made ++ occasions questions) (catalog.behind questions) := by
  induction questions generalizing made catalog with
  | nil => simpa [occasions, Catalog.behind] using h
  | cons asked questions ih =>
    have hnext := ih (h.ask asked.1 asked.2).1
    rwa [List.append_assoc, ← occasions_append] at hnext

/-- A new catalog has been loaded once for each question that took the tables as long as every
load failed, and reported just these failures. From the first load on that succeeded it has not
been loaded again, and every question is answered from that one lexicon. -/
theorem askAll_getElem?_answered (source : Source) (language : Text)
    (earlier : List (Files × Question)) (files : Files) (question : Question)
    (later : List (Files × Question)) :
    ∃ answer catalog,
      ((ofSource source language).askAll (earlier ++ (files, question) :: later))[earlier.length]?
          = some (answer, catalog)
        ∧ Answered source (occasions (earlier ++ [(files, question)])) files question answer
          catalog := by
  have hstart : Standing source [] (ofSource source language) :=
    .unpublished rfl (fun n files hn => absurd hn (Nat.not_lt_zero n)) rfl rfl
  obtain ⟨-, hanswered⟩ := (hstart.behind earlier).ask files question
  rw [List.nil_append, ← occasions_append] at hanswered
  exact ⟨_, _, askAll_getElem?_append _ earlier files question later, hanswered⟩

end Catalog

end FeatureLines
