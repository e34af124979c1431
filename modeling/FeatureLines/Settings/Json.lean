import FeatureLines.Json.Reader
import FeatureLines.Settings.Basic

/-!
# Settings as JSON

Settings are written as an object with the fields `keywordSource` and
`defaultLanguage`. They are read from such an object, in which a missing field
has its standard value and other members are skipped, or from an array of the
same two values in that order, in which the last ones may be missing.
-/

namespace FeatureLines

/-- The places of a settings text. -/
inductive SettingsPlace where
  | settings
  | path
  | code
  /-- A member that settings do not have. -/
  | other
  deriving Repr, DecidableEq

def sourceKey : Text := "keywordSource".toList

def languageKey : Text := "defaultLanguage".toList

/-- What may stand where in a settings text. -/
def settingsSchema : Json.Schema SettingsPlace where
  fits
    | .settings, _ => false
    | .path, value => value.isLabel
    | .code, value => value.isText
    | .other, _ => true
  takesArray
    | .settings | .other => true
    | _ => false
  takesObject
    | .settings | .other => true
    | _ => false
  item
    | .settings, [] => some .path
    | .settings, [_] => some .code
    | .other, _ => some .other
    | _, _ => none
  member
    | .settings, members, key =>
      if key == sourceKey || key == languageKey then
        if members.any fun member => member.1 == key then none
        else if key == sourceKey then some .path
        else some .code
      else some .other
    | .other, _, _ => some .other
    | _, _, _ => none
  mayClose _ _ := true
  skips
    | .other => true
    | _ => false

namespace Settings

/-- The settings with these values; a missing one is the standard one. -/
def ofValues (path code : Option Json.Value) : Settings where
  keywordSource := path.bind Json.Value.text?
  defaultLanguage := (code.bind Json.Value.text?).getD standardLanguage

def ofValue : Json.Value → Settings
  | .array items => ofValues items[0]? items[1]?
  | value => ofValues (value.members.lookup sourceKey) (value.members.lookup languageKey)

def ofText (text : Text) : Except Json.Fault Settings :=
  match settingsSchema.read .settings text with
  | .error fault => .error fault
  | .ok value => .ok (ofValue value)

def toText (settings : Settings) : Text :=
  '\x7b' :: Json.quote sourceKey ++ ':' ::
    (match settings.keywordSource with
      | some path => Json.quote path
      | none => "null".toList) ++
    ',' :: Json.quote languageKey ++ ':' :: Json.quote settings.defaultLanguage ++ ['\x7d']

end Settings

end FeatureLines
