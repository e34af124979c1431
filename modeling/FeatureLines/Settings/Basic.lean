import FeatureLines.Catalog.Basic
import FeatureLines.Text.Blank

/-!
# Settings

Which keywords a catalog uses and which language it takes for documents that
declare none. `Settings.faults` lists what is wrong with settings; settings are
valid when it is empty.
-/

namespace FeatureLines

/-- The settings of a workspace. -/
structure Settings where
  /-- The path of a keyword source to use instead of the bundled one. -/
  keywordSource : Option Text
  /-- The language of documents that do not declare one. -/
  defaultLanguage : Text
  deriving Repr, DecidableEq

/-- What is wrong with one field of the settings. -/
structure FieldError where
  field : String
  message : String
  deriving Repr, DecidableEq

def FieldError.display (error : FieldError) : String :=
  "Configuration error in '" ++ error.field ++ "': " ++ error.message

/-- Why settings could not be taken over. -/
inductive Settings.Failure where
  | invalid (errors : List FieldError)
  | unreadable (cause : FileError)
  | unparsable (fault : Json.Fault)
  deriving Repr, DecidableEq

/-- Errors as numbered lines, counted from `n`. -/
def numberedLines (n : Nat) : List FieldError → List String
  | [] => []
  | error :: errors =>
    ("  " ++ toString n ++ ". " ++ error.field ++ " - " ++ error.message) ::
      numberedLines (n + 1) errors

/-- The error in words, up to the account of a fault in the JSON text. -/
def Settings.Failure.heading : Settings.Failure → String
  | .invalid errors =>
    "Configuration validation failed:\n" ++ String.intercalate "\n" (numberedLines 1 errors)
  | .unreadable cause => "Failed to load configuration file: " ++ cause.message
  | .unparsable _ => "Failed to parse configuration: "

def Settings.Failure.message (error : Settings.Failure) : String :=
  match error with
  | .unparsable fault => error.heading ++ fault.message
  | _ => error.heading

namespace Settings

/-- The settings that hold where none are given. -/
def standard : Settings := ⟨none, standardLanguage⟩

instance : Inhabited Settings := ⟨standard⟩

def languageFaults (code : Text) : List FieldError :=
  if code.isEmpty then
    [⟨"defaultLanguage", "The language code cannot be empty. Example: \"en\""⟩]
  else if code.any isBlank then
    [⟨"defaultLanguage",
      "Invalid language code '" ++ String.ofList code ++ "': must not contain whitespace"⟩]
  else []

def sourceFaults (path : Option Text) : List FieldError :=
  if path = some [] then
    [⟨"keywordSource",
      "The path cannot be empty. Please specify a JSON file, or remove this field"⟩]
  else []

/-- Everything that is wrong with settings. -/
def faults (settings : Settings) : List FieldError :=
  languageFaults settings.defaultLanguage ++ sourceFaults settings.keywordSource

/-- The settings, unless something is wrong with them. -/
def validate (settings : Settings) : Except Settings.Failure Settings :=
  if settings.faults.isEmpty then .ok settings else .error (.invalid settings.faults)

def catalog (settings : Settings) : Catalog :=
  Catalog.ofSource
    (match settings.keywordSource with
      | some path => .ofFile path
      | none => .bundled)
    settings.defaultLanguage

end Settings

end FeatureLines
