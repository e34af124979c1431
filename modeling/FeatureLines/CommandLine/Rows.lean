import FeatureLines.Document.Classify
import FeatureLines.Text.Decimal

/-!
# Rows

What the program writes: one row per recognised line, with its number, its kind
and its text, tabs between them and a line feed behind them. The number and the
name of a kind hold no tab, and no text holds a line feed, so rows can be told
apart and taken apart again; `Row.readAll` does so.
-/

namespace FeatureLines

/-- What is written of a recognised line. -/
structure Row where
  number : Nat
  kind : LineKind
  text : Text
  deriving Repr, DecidableEq

def RecognisedLine.row (line : RecognisedLine) : Row := ⟨line.number, line.kind, line.text⟩

namespace Row

def write (row : Row) : Text :=
  decimal row.number ++ '\t' :: row.kind.name.toList ++ '\t' :: row.text ++ ['\n']

def writeAll (rows : List Row) : Text := rows.flatMap write

/-! ## Taking rows apart -/

/-- What stands before and behind the first `mark`. -/
def cutAt (mark : Char) : Text → Option (Text × Text)
  | [] => none
  | c :: text =>
    if c = mark then some ([], text)
    else
      match cutAt mark text with
      | none => none
      | some (before, behind) => some (c :: before, behind)

/-- The kind with this name. -/
def kindNamed (name : Text) : Option LineKind :=
  LineKind.all.find? fun kind => kind.name.toList == name

/-- The row that a line writes. -/
def read (line : Text) : Option Row :=
  match cutAt '\t' line with
  | none => none
  | some (number, rest) =>
    match cutAt '\t' rest with
    | none => none
    | some (kind, text) =>
      match ofDecimal? number, kindNamed kind with
      | some number, some kind => some ⟨number, kind, text⟩
      | _, _ => none

/-- The pieces of a text that end with a line feed; none if the text does not end with one. -/
def pieces : Text → Option (List Text)
  | [] => some []
  | c :: text =>
    match pieces text with
    | none => none
    | some lines =>
      if c = '\n' then some ([] :: lines)
      else
        match lines with
        | [] => none
        | line :: lines => some ((c :: line) :: lines)

/-- The rows that a text writes. -/
def readAll (text : Text) : Option (List Row) :=
  match pieces text with
  | none => none
  | some lines => lines.mapM read

end Row

def RecognisedDocument.rows (document : RecognisedDocument) : List Row :=
  document.lines.map RecognisedLine.row

example : Row.readAll (Row.writeAll [⟨3, .scenarioOutline, "a\tb".toList⟩, ⟨12, .tag, []⟩]) =
    some [⟨3, .scenarioOutline, "a\tb".toList⟩, ⟨12, .tag, []⟩] := by cbv

end FeatureLines
