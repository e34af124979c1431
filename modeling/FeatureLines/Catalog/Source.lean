import FeatureLines.Bundled.Lexicon
import FeatureLines.Keyword.Parse

/-!
# Where lexicons come from

A source has a name for error messages and can be loaded. Loads are counted from
zero, and each of them may have its own outcome: a file may have changed since
the last one.
-/

namespace FeatureLines

/-- Where a catalog takes its lexicon from. -/
structure Source where
  /-- The name of the source in error messages. -/
  resource : Text
  /-- The outcome of the load with this number, with these files. -/
  load : Files → Nat → Except LexiconError Lexicon

namespace Source

def bundledName : Text := "gherkin-languages.json".toList

def bundled : Source := ⟨bundledName, fun _ _ => .ok bundledLexicon⟩

/-- A text held in memory. -/
def ofText (resource content : Text) : Source :=
  ⟨resource, fun _ _ => Lexicon.parse resource (Utf8.encode content)⟩

/-- A file, read anew at each load. Its path is its resource name. -/
def ofFile (path : Text) : Source :=
  ⟨path, fun files _ =>
    match files.read path with
    | .error cause => .error (.unreadable path cause)
    | .ok bytes => Lexicon.parse path bytes⟩

/-- Contents that take turns: the n-th load reads the n-th, and the last one stays. -/
def ofSeries (resource : Text) (contents : List (List UInt8)) : Source :=
  ⟨resource, fun _ n =>
    Lexicon.parse resource ((contents[n]?.or contents.getLast?).getD [])⟩

end Source

end FeatureLines
