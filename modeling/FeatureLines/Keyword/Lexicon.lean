import FeatureLines.TextMap

/-!
# Lexicons

A lexicon gives, for each language code, the vocabulary of that language: what
the language is called, and its keyword lists. The lists are found by their key
(`feature`, `given`, ...); what the keys mean is the business of
`Keyword.Build`.
-/

namespace FeatureLines

/-- What a lexicon says of one language. -/
structure Vocabulary where
  /-- The name of the language in English. -/
  name : Option Text
  /-- The name of the language in the language itself. -/
  native : Option Text
  /-- The keyword lists by their keys, each in its own order. -/
  lists : TextMap (List Text)
  deriving Repr, DecidableEq

def Vocabulary.list? (vocabulary : Vocabulary) (key : Text) : Option (List Text) :=
  vocabulary.lists.get? key

/-- Vocabularies by language codes. -/
abbrev Lexicon := TextMap Vocabulary

end FeatureLines
