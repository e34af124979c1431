import FeatureLines.Keyword.Lexicon
import FeatureLines.Keyword.Table

/-!
# Building tables

Ten keyword lists make up the table of a language. `keywordLists` gives their
order, the kind that each of them marks, and the separator that is put behind
each of its keywords to form the lead. Section headers come before steps, so a
line that starts with a header is never taken for a step.

A vocabulary has a table if all ten lists are there and the eight lists of the
required kinds are not empty; otherwise the first list at fault is named.
-/

namespace FeatureLines

def tagLead : Text := "@".toList

/-- One keyword list and how its keywords become leads. -/
structure KeywordList where
  key : Text
  kind : LineKind
  separator : Text
  deriving Repr, DecidableEq

def KeywordList.entry (list : KeywordList) (keyword : Text) : Entry :=
  ⟨keyword ++ list.separator, list.kind⟩

/-- The keyword lists in the order in which their entries stand in a table. -/
def keywordLists : List KeywordList :=
  [⟨"feature".toList, .feature, ": ".toList⟩,
    ⟨"scenarioOutline".toList, .scenarioOutline, ": ".toList⟩,
    ⟨"examples".toList, .examples, ":".toList⟩,
    ⟨"scenario".toList, .scenario, ": ".toList⟩,
    ⟨"background".toList, .background, ":".toList⟩,
    ⟨"given".toList, .givenStep, []⟩,
    ⟨"when".toList, .whenStep, []⟩,
    ⟨"then".toList, .thenStep, []⟩,
    ⟨"and".toList, .continuation, []⟩,
    ⟨"but".toList, .continuation, []⟩]

/-- The lists stand in the order of their kinds. -/
theorem pairwise_kind_keywordLists : keywordLists.Pairwise (fun a b => a.kind ≤ b.kind) := by
  decide

/-- Why a vocabulary has no table. -/
inductive BuildError where
  /-- The vocabulary of the language does not have the list. -/
  | missingList (language : Text) (key : Text)
  /-- The list is there, but a required kind has no keyword in it. -/
  | emptyList (language : Text) (key : Text)
  deriving Repr, DecidableEq

def BuildError.message : BuildError → String
  | .missingList language key =>
    "gherkin language definition for '" ++ String.ofList language ++
      "' is incomplete. it does not have '" ++ String.ofList key ++ "'"
  | .emptyList language key =>
    "gherkin language definition for '" ++ String.ofList language ++
      "' has no keyword for '" ++ String.ofList key ++ "'"

namespace Vocabulary

/-- The entries of some keyword lists, list after list; the first list at fault stops. -/
def entriesOf (language : Text) (vocabulary : Vocabulary) :
    List KeywordList → Except BuildError (List Entry)
  | [] => .ok []
  | list :: lists =>
    match vocabulary.list? list.key with
    | none => .error (.missingList language list.key)
    | some keywords =>
      if keywords.isEmpty && list.kind.isRequired then .error (.emptyList language list.key)
      else
        match entriesOf language vocabulary lists with
        | .error error => .error error
        | .ok entries => .ok (keywords.map list.entry ++ entries)

/-- The table of a language: the tag lead, then the entries of all keyword lists. -/
def table (language : Text) (vocabulary : Vocabulary) : Except BuildError Table :=
  match vocabulary.entriesOf language keywordLists with
  | .error error => .error error
  | .ok entries => .ok ⟨⟨tagLead, .tag⟩ :: entries⟩

end Vocabulary

/-- The tables of all languages; the first language that has none, in the order of codes, is
the fault of the whole. -/
def Lexicon.tables (lexicon : Lexicon) : Except BuildError (TextMap Table) :=
  lexicon.traverse fun code vocabulary => vocabulary.table code

end FeatureLines
