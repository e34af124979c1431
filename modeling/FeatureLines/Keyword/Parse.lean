import FeatureLines.Json.Reader
import FeatureLines.Keyword.Error

/-!
# Reading a lexicon

A lexicon is written as a JSON object of languages, each an object in which
`name` and `native` stand at most once and are strings or null, and every other
member is a list of strings. Of a language or a list that stands more than once
the last one counts, but all of them must have their shape.

The shape of `name` and `native` is checked where they stand. That the other
members are lists of strings is checked at the closing brace of the language, so
a text that stops being JSON within the language is reported as such even after
a member of another shape.
-/

namespace FeatureLines

/-- The places of a lexicon text. -/
inductive LexiconPlace where
  | lexicon
  /-- One of its languages. -/
  | language
  /-- A name of a language. -/
  | label
  /-- Anything else in a language. -/
  | content
  deriving Repr, DecidableEq

def nameKey : Text := "name".toList

def nativeKey : Text := "native".toList

/-- Whether a key of a language holds one of its names. -/
def isNameKey (key : Text) : Bool := key == nameKey || key == nativeKey

/-- Whether every member of a language that does not name it is a list of strings. -/
def haveKeywordLists (members : List (Text × Json.Value)) : Bool :=
  members.all fun member => isNameKey member.1 || member.2.isTextList

/-- What may stand where in a lexicon text. -/
def lexiconSchema : Json.Schema LexiconPlace where
  fits
    | .lexicon, _ => false
    | .language, _ => false
    | .label, value => value.isLabel
    | .content, _ => true
  takesArray
    | .content => true
    | _ => false
  takesObject
    | .label => false
    | _ => true
  item
    | .content, _ => some .content
    | _, _ => none
  member
    | .lexicon, _, _ => some .language
    | .language, members, key =>
      if isNameKey key then
        if members.any fun member => member.1 == key then none else some .label
      else some .content
    | .label, _, _ => none
    | .content, _, _ => some .content
  mayClose
    | .language, members => haveKeywordLists members
    | _, _ => true
  skips _ := false

def labelOf (key : Text) (members : List (Text × Json.Value)) : Option Text :=
  (members.lookup key).bind Json.Value.text?

/-- The vocabulary that the members of a language give. -/
def Vocabulary.ofMembers (members : List (Text × Json.Value)) : Vocabulary where
  name := labelOf nameKey members
  native := labelOf nativeKey members
  lists := TextMap.ofList
    ((members.filter fun member => !isNameKey member.1).map fun member =>
      (member.1, member.2.texts))

/-- The lexicon that its members give. -/
def Lexicon.ofMembers (members : List (Text × Json.Value)) : Lexicon :=
  TextMap.ofList (members.map fun member => (member.1, Vocabulary.ofMembers member.2.members))

def Lexicon.ofText (text : Text) : Except Json.Fault Lexicon :=
  match lexiconSchema.read .lexicon text with
  | .error fault => .error fault
  | .ok value => .ok (ofMembers value.members)

/-- The lexicon that the bytes of a resource give. -/
def Lexicon.parse (resource : Text) (bytes : List UInt8) : Except LexiconError Lexicon :=
  match Utf8.decode bytes with
  | .error fault => .error (.notUtf8 resource fault)
  | .ok text =>
    match ofText text with
    | .error fault => .error (.unparsable resource fault)
    | .ok lexicon => .ok lexicon

end FeatureLines
