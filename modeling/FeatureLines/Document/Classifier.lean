import FeatureLines.Keyword.Table
import FeatureLines.Text.Blank

/-!
# Classifying lines

A classifier takes the lines of a document one after the other. Leading white
space does not count; an empty line, a comment and a line without a keyword are
not recognised. A continuation takes the kind of the concrete step that is in
force: the last one since the last section header. Tags leave that step alone,
and so does every line that is not recognised.
-/

namespace FeatureLines

/-- A line that starts with a keyword of the language. -/
structure RecognisedLine where
  /-- The place of the line in the document, counted from one. -/
  number : Nat
  /-- The kind of the line, that of its step for a continuation. -/
  kind : LineKind
  /-- The lead that the line starts with. -/
  keyword : Text
  /-- The rest of the line without white space at its ends. -/
  text : Text
  deriving Repr, DecidableEq

/-- The table of a language and the concrete step in force. -/
structure Classifier where
  table : Table
  step : Option LineKind
  deriving Repr, DecidableEq

/-- The kind of a line whose entry has this kind, while a step is in force. -/
def resolveKind (step : Option LineKind) : LineKind → LineKind
  | .continuation => step.getD .continuation
  | kind => kind

/-- A kind of its own is reported as it is, whatever step is in force. -/
theorem resolveKind_of_ne_continuation {kind : LineKind} (h : kind ≠ .continuation)
    (step : Option LineKind) : resolveKind step kind = kind := by
  cases kind with
  | continuation => exact absurd rfl h
  | _ => rfl

/-- The step in force after a line whose entry has this kind. -/
def nextStep (step : Option LineKind) (kind : LineKind) : Option LineKind :=
  if kind.isConcreteStep then some kind
  else if kind.isSection then none
  else step

theorem nextStep_eq (step : Option LineKind) (kind : LineKind) :
    nextStep step kind =
      if kind ∈ LineKind.steps then some kind
      else if kind ∈ LineKind.sections then none
      else step := by
  simp only [nextStep, LineKind.isConcreteStep_iff, LineKind.isSection_iff]

/-- The entry that recognises a line, with the rest of the line behind its lead. -/
def Table.recognise (table : Table) (line : Text) : Option (Entry × Text) :=
  match trimStart line with
  | [] => none
  | '#' :: _ => none
  | trimmed => table.match? trimmed

namespace Classifier

def ofTable (table : Table) : Classifier := ⟨table, none⟩

def classify (classifier : Classifier) (number : Nat) (line : Text) :
    Option RecognisedLine × Classifier :=
  match classifier.table.recognise line with
  | none => (none, classifier)
  | some (entry, rest) =>
    (some ⟨number, resolveKind classifier.step entry.kind, entry.lead, trim rest⟩,
      { classifier with step := nextStep classifier.step entry.kind })

/-- Classifies lines one after the other, the first of them being the line with this number. -/
def classifyAll (classifier : Classifier) (number : Nat) :
    List Text → List (Option RecognisedLine)
  | [] => []
  | line :: lines =>
    let (answer, classifier) := classifier.classify number line
    answer :: classifyAll classifier (number + 1) lines

def recognisedLines (classifier : Classifier) (number : Nat) (lines : List Text) :
    List RecognisedLine :=
  (classifier.classifyAll number lines).filterMap id

/-! ## Lines that are not recognised leave no trace -/

theorem classify_of_recognise_eq_none {classifier : Classifier} {line : Text}
    (h : classifier.table.recognise line = none) (number : Nat) :
    classifier.classify number line = (none, classifier) := by
  simp [classify, h]

@[simp] theorem classify_table (classifier : Classifier) (number : Nat) (line : Text) :
    (classifier.classify number line).2.table = classifier.table := by
  unfold classify
  split <;> rfl

end Classifier

end FeatureLines
