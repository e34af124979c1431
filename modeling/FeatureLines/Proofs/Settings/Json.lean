import FeatureLines.Proofs.Json.Values
import FeatureLines.Settings.Json

/-!
# Settings are read back as they are written

Whatever the two strings of settings hold, the text that is written for them is
read as the same settings (`Settings.ofText_toText`). So writing what has been
read loses nothing more: a text that gives settings need not be the text that is
written for them, but from there on reading and writing change nothing.

The written text is one object with two members. Each of the two values is read
in a region of its own, because behind other keys the schema skips, and no region
holds all places that a settings text can reach. The objects around the values
are read one step at a time.
-/

namespace FeatureLines

open Json

/-- The places of the two values of settings, which are scalars that are kept. -/
def SettingsPlace.IsField (place : SettingsPlace) : Prop := place = .path ∨ place = .code

theorem settingsSchema_region : settingsSchema.Region true SettingsPlace.IsField where
  skips h := by
    rcases h with rfl | rfl <;> rfl
  item h hitem := by
    rcases h with rfl | rfl <;> cases hitem
  member h hmember := by
    rcases h with rfl | rfl <;> cases hmember

namespace Settings

/-! ## What is written -/

/-- The value that stands for a keyword source, or for none. -/
def sourceValue : Option Text → Value
  | some path => .text path
  | none => .null

theorem text?_sourceValue (source : Option Text) : (sourceValue source).text? = source := by
  cases source <;> rfl

theorem spelling_quote (depth : Nat) (text : Text) :
    Spelling true depth (.text text) (quote text) :=
  .text depth (stringSpelling_flatMap_escapeChar true text)

/-- The text of a keyword source, or of none. -/
def sourceText : Option Text → Text
  | some path => quote path
  | none => "null".toList

theorem spelling_sourceText (depth : Nat) (source : Option Text) :
    Spelling true depth (sourceValue source) (sourceText source) := by
  cases source with
  | none => exact .null depth
  | some path => exact spelling_quote depth path

theorem accepts_sourceValue (source : Option Text) :
    settingsSchema.accepts .path (sourceValue source) = true := by
  cases source <;> rfl

/-- The members of the object that is written. -/
def writtenMembers (settings : Settings) : List (Text × Value) :=
  [(sourceKey, sourceValue settings.keywordSource),
    (languageKey, .text settings.defaultLanguage)]

/-! ## What is read -/

/-- A member with a quoted key is read behind earlier ones, if settings have such a member that has
not been given yet. -/
theorem readFrom_field {place : SettingsPlace} (isField : place.IsField) (key : Text)
    (earlier : List (Text × Value)) {value : Value} {s rest : Text}
    (hmember : settingsSchema.member .settings earlier key = some place)
    (spells : Spelling true 1 value s) (haccepts : settingsSchema.accepts place value = true)
    (stops : StopsNumber rest) :
    settingsSchema.readFrom (.nextKey .settings earlier []) (quote key ++ ':' :: (s ++ rest)) =
      settingsSchema.readFrom (.afterMember .settings ((key, value) :: earlier) []) rest := by
  have hnone : Spaces [] := by
    intro c hc
    cases hc
  have hvalue : ∀ following, StopsNumber following →
      settingsSchema.readFrom (.value place [.member .settings earlier key]) (s ++ following) =
        settingsSchema.readFrom (.afterMember .settings ((key, value) :: earlier) []) following := by
    intro following hfollowing
    exact settingsSchema_region.readFrom_of_spelling isField spells haccepts hfollowing
  have hread := Schema.readFrom_member hnone
    (stringSpelling_flatMap_escapeChar (!settingsSchema.skips .settings) key) hnone hmember hnone
    hvalue hnone stops
  have htext : quote key ++ ':' :: (s ++ rest) =
      [] ++ '"' :: (key.flatMap escapeChar ++ '"' :: ([] ++ ':' :: ([] ++ s ++ []))) ++ rest := by
    simp [quote]
  rw [htext, hread]

theorem toText_eq (settings : Settings) :
    settings.toText = '\x7b' :: (quote sourceKey ++ ':' :: (sourceText settings.keywordSource ++
      ',' :: (quote languageKey ++ ':' :: (quote settings.defaultLanguage ++ ['\x7d'])))) := by
  unfold toText
  cases settings.keywordSource <;> simp [sourceText]

/-- The text that is written is read as its two members. -/
theorem read_toText (settings : Settings) :
    settingsSchema.read .settings settings.toText = .ok (.object settings.writtenMembers) := by
  have hcomma : StopsNumber (',' :: (quote languageKey ++
      ':' :: (quote settings.defaultLanguage ++ ['\x7d']))) :=
    Schema.stopsNumber_cons (.inl rfl) _
  have hbrace : StopsNumber ['\x7d'] := Schema.stopsNumber_cons (.inr (.inr rfl)) _
  have hsource := readFrom_field (.inl rfl) sourceKey [] rfl
    (spelling_sourceText 1 settings.keywordSource) (accepts_sourceValue settings.keywordSource)
    hcomma
  have hlanguage := readFrom_field (.inr rfl) languageKey
    [(sourceKey, sourceValue settings.keywordSource)] rfl
    (spelling_quote 1 settings.defaultLanguage) rfl hbrace
  rw [toText_eq, Schema.read_eq_readFrom]
  calc
    settingsSchema.readFrom (.value .settings []) _
      = settingsSchema.readFrom (.firstKey .settings []) _ :=
        settingsSchema.readFrom_openObject rfl rfl _
    _ = settingsSchema.readFrom (.nextKey .settings [] []) _ := rfl
    _ = settingsSchema.readFrom (.afterMember .settings _ []) (',' :: _) := hsource
    _ = settingsSchema.readFrom (.nextKey .settings _ []) _ := rfl
    _ = settingsSchema.readFrom (.afterMember .settings _ []) ['\x7d'] := hlanguage
    _ = .ok (.object settings.writtenMembers) := rfl

theorem ofValue_writtenMembers (settings : Settings) :
    ofValue (.object settings.writtenMembers) = settings := by
  obtain ⟨source, language⟩ := settings
  show ofValues (some (sourceValue source)) (some (.text language)) = _
  unfold ofValues
  rw [Option.bind_some, text?_sourceValue]
  rfl

theorem ofText_toText (settings : Settings) : ofText settings.toText = .ok settings := by
  unfold ofText
  rw [read_toText]
  show Except.ok (ofValue (.object settings.writtenMembers)) = _
  rw [ofValue_writtenMembers]

/-- What is written for settings is read as these settings. So for a text that is read as settings,
writing them and reading them again gives the same settings, which are as valid as before and are
written in the same way. -/
theorem ofText_toText_eq_ok (settings : Settings) :
    ofText settings.toText = .ok settings
      ∧ ∀ text, ofText text = .ok settings →
        ∃ again, ofText settings.toText = .ok again ∧ again = settings
          ∧ again.validate = settings.validate ∧ again.toText = settings.toText := by
  have hwritten : ofText settings.toText = .ok settings := ofText_toText settings
  refine ⟨hwritten, ?_⟩
  intro text _
  exact ⟨settings, hwritten, rfl, rfl, rfl⟩

end Settings

end FeatureLines
