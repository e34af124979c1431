import FeatureLines.Keyword.Lexicon

/-!
# Bundled languages

How the languages that come with the library are written down: every one of
them has the same lists.
-/

namespace FeatureLines

/-- A language that comes with the library. -/
structure BundledLanguage where
  code : String
  name : String
  native : String
  feature : List String
  background : List String
  rule : List String
  scenario : List String
  scenarioOutline : List String
  examples : List String
  givenStep : List String
  whenStep : List String
  thenStep : List String
  andStep : List String
  butStep : List String
  deriving Repr, DecidableEq

namespace BundledLanguage

def lists (language : BundledLanguage) : List (String × List String) :=
  [("feature", language.feature), ("background", language.background), ("rule", language.rule),
    ("scenario", language.scenario), ("scenarioOutline", language.scenarioOutline),
    ("examples", language.examples), ("given", language.givenStep), ("when", language.whenStep),
    ("then", language.thenStep), ("and", language.andStep), ("but", language.butStep)]

def vocabulary (language : BundledLanguage) : Vocabulary where
  name := some language.name.toList
  native := some language.native.toList
  lists := TextMap.ofList (language.lists.map fun list =>
    (list.1.toList, list.2.map String.toList))

end BundledLanguage

end FeatureLines
