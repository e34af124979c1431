import FeatureLines.Settings.Json

/-!
# Settings of a workspace

A workspace is a folder, and its settings are in one file there. Without the
file the standard settings hold. A relative keyword source is seen from the
workspace. An empty one is not, so that it is still refused as empty when the
settings are validated.

The held settings are those that were taken over last. They change only when
settings have been read and found valid, so whatever is held is valid, and is
what the last successful load found.
-/

namespace FeatureLines

def settingsFile : Text := ".gherkin-i18n.json".toList

namespace Settings

/-- The settings with their keyword source seen from a workspace. -/
def seenFrom (root : Text) (settings : Settings) : Settings :=
  { settings with
    keywordSource := settings.keywordSource.map fun path =>
      if path.isEmpty then path else joinPath root path }

/-- The settings of a workspace, whether or not they are valid. -/
def ofWorkspace (files : Files) (root : Text) : Except Failure Settings :=
  let path := joinPath root settingsFile
  if files.present path then
    match files.readText path with
    | .error cause => .error (.unreadable cause)
    | .ok text =>
      match ofText text with
      | .error fault => .error (.unparsable fault)
      | .ok settings => .ok (settings.seenFrom root)
  else .ok standard

/-- The settings of a workspace, if they are valid. -/
def load (files : Files) (root : Text) : Except Failure Settings :=
  match ofWorkspace files root with
  | .error failure => .error failure
  | .ok settings => settings.validate

end Settings

/-- The settings taken over last. -/
structure HeldSettings where
  current : Settings
  deriving Repr, DecidableEq

namespace HeldSettings

/-- Nothing has been taken over yet, so the standard settings hold. -/
def initial : HeldSettings := ⟨.standard⟩

/-- Takes over the settings of a workspace, if they can be read and are valid. -/
def load (files : Files) (root : Text) (held : HeldSettings) :
    Except Settings.Failure Settings × HeldSettings :=
  match Settings.load files root with
  | .error failure => (.error failure, held)
  | .ok settings => (.ok settings, ⟨settings⟩)

def catalog (held : HeldSettings) : Catalog := held.current.catalog

/-- What can come to be held: any loads, each with the files as they are at that moment. -/
inductive Reachable : HeldSettings → Prop where
  | initial : Reachable initial
  | load {held : HeldSettings} (files : Files) (root : Text) (reached : Reachable held) :
      Reachable (held.load files root).2

end HeldSettings

end FeatureLines
