import FeatureLines.Text.Blank
import FeatureLines.Text.Lines

/-!
# The language directive

A line declares a language if it says, after white space and at most one `#`
with white space behind it, the word `language` in any case, a colon, white
space, and a code. The code reaches to the next white space. Only the first line
of a document is asked.
-/

namespace FeatureLines

/-- An ASCII letter in lower case; every other character as it is. -/
def lowerLetter (c : Char) : Char :=
  if 'A' ≤ c ∧ c ≤ 'Z' then Char.ofNat (c.toNat + 32) else c

/-- What follows `word` in `line`, if the line starts with it in any case. -/
def stripWord : Text → Text → Option Text
  | [], line => some line
  | _ :: _, [] => none
  | c :: word, d :: line => if c = lowerLetter d then stripWord word line else none

/-- The line without one leading `#`. -/
def dropHash : Text → Text
  | '#' :: line => line
  | line => line

def directiveWord : Text := "language:".toList

/-- The language code that a line declares. -/
def declaredLanguage (line : Text) : Option Text :=
  match stripWord directiveWord (trimStart (dropHash (trimStart line))) with
  | none => none
  | some rest =>
    match (trimStart rest).takeWhile fun c => !isBlank c with
    | [] => none
    | code => some code

/-- The language of a document: the one its first line declares, or else the default. -/
def documentLanguage (document default : Text) : Text :=
  (((linesOf document).head?).bind declaredLanguage).getD default

example : declaredLanguage "  #\tLanguage:  en-lol and more".toList = some "en-lol".toList := by
  decide

example : declaredLanguage "# language : fr".toList = none := by decide

end FeatureLines
