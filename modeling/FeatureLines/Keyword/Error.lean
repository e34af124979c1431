import FeatureLines.Files.Basic
import FeatureLines.Json.Value
import FeatureLines.Keyword.Build

/-!
# Errors of a lexicon

Why the tables of a lexicon could not be had: its resource could not be read, is
not text, does not say a lexicon, or says one that has no tables. Every error
but the last names the resource; the last names the language and the list.
-/

namespace FeatureLines

/-- Why the tables of a lexicon could not be had. -/
inductive LexiconError where
  | unreadable (resource : Text) (cause : FileError)
  | notUtf8 (resource : Text) (fault : Utf8.Fault)
  | unparsable (resource : Text) (fault : Json.Fault)
  | unbuildable (error : BuildError)
  deriving Repr, DecidableEq

def Json.Fault.message : Json.Fault → String
  | .truncated => "the text ends too early"
  | .misshapen => "a value does not have the shape that is wanted in its place"
  | .malformed => "the text is not JSON"

/-- The error in words, up to the account of a fault in the JSON text. -/
def LexiconError.heading : LexiconError → String
  | .unreadable resource cause =>
    "Failed to read keyword source '" ++ String.ofList resource ++ "': " ++ cause.message
  | .notUtf8 resource fault =>
    "Keyword source '" ++ String.ofList resource ++ "' is not valid UTF-8: " ++ fault.message
  | .unparsable resource _ =>
    "Failed to parse keyword source '" ++ String.ofList resource ++ "': "
  | .unbuildable error => error.message

def LexiconError.message (error : LexiconError) : String :=
  match error with
  | .unparsable _ fault => error.heading ++ fault.message
  | _ => error.heading

end FeatureLines
