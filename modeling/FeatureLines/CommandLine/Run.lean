import FeatureLines.CommandLine.Arguments
import FeatureLines.CommandLine.Rows
import FeatureLines.Settings.Held

/-!
# A run of the program

The stages of a run follow one another, and the first that fails is reported:
the arguments, the settings, the document, the lexicon, the language. Rows are
written only when all stages have succeeded, and then the exit code is zero.
-/

namespace FeatureLines

/-- Why a run failed. -/
inductive RunError where
  | usage (error : UsageError)
  | settings (failure : Settings.Failure)
  /-- The document could not be read. -/
  | unreadable (path : Text) (cause : FileError)
  | catalog (failure : Catalog.Failure)
  deriving Repr, DecidableEq

/-- The error in words, up to the account of a fault in a JSON text. -/
def RunError.heading : RunError → String
  | .usage error =>
    error.message ++ "\nusage: gherkin-i18n <file.feature> [--workspace <dir>]"
  | .settings failure => failure.heading
  | .unreadable path cause => "I/O error on '" ++ String.ofList path ++ "': " ++ cause.message
  | .catalog failure => failure.heading

def RunError.message (error : RunError) : String :=
  match error with
  | .settings failure => failure.message
  | .catalog failure => failure.message
  | error => error.heading

namespace Arguments

/-- The folder whose settings a run takes: the workspace that is given, or else the folder that it
runs in; `current` is the path of that one, if it can be told. -/
def root (arguments : Arguments) (current : Except FileError Text) : Except RunError Text :=
  match arguments.workspace with
  | some folder => .ok folder
  | none =>
    match current with
    | .error cause => .error (.unreadable ['.'] cause)
    | .ok folder => .ok folder

/-- The document that a run classifies, with its lines recognised, under the settings of the folder
at `root`. -/
def classify (files : Files) (root : Text) (arguments : Arguments) :
    Except RunError RecognisedDocument :=
  match HeldSettings.initial.load files root with
  | (.error failure, _) => .error (.settings failure)
  | (.ok _, held) =>
    match files.readText arguments.document with
    | .error cause => .error (.unreadable arguments.document cause)
    | .ok document =>
      match (held.catalog.classify files document).1 with
      | .error failure => .error (.catalog failure)
      | .ok recognised => .ok recognised

end Arguments

/-- What a run writes, or why it fails. -/
def runProgram (files : Files) (current : Except FileError Text) (arguments : List Text) :
    Except RunError Text :=
  match Arguments.parse arguments with
  | .error error => .error (.usage error)
  | .ok arguments =>
    match arguments.root current with
    | .error error => .error error
    | .ok root =>
      match arguments.classify files root with
      | .error error => .error error
      | .ok recognised => .ok (Row.writeAll recognised.rows)

/-- What is seen of a run from outside. -/
structure RunOutcome where
  /-- The exit code. -/
  code : UInt32
  /-- What has been written. -/
  output : Text
  /-- The error that is reported. -/
  error : Option RunError
  deriving Repr, DecidableEq

/-- Rows are written only when all of them are known, and an error is reported otherwise. -/
def runOutcome (files : Files) (current : Except FileError Text) (arguments : List Text) :
    RunOutcome :=
  match runProgram files current arguments with
  | .ok rows => ⟨0, rows, none⟩
  | .error error => ⟨1, [], some error⟩

end FeatureLines
