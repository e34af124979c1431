import FeatureLines.Proofs.Json.Members
import FeatureLines.Proofs.Settings.Json

/-!
# Settings among other members

Besides its two fields a settings object may have any other members. Their values
are skipped: they must be JSON, but neither their depth nor the size of their
numbers nor the surrogates in their strings matter, and they say nothing. So the
text of a settings object is not of one grammar. `SettingsMemberSpelling` chooses
between the two by the key, as the schema does, and the keys themselves are all
kept, since they have to be compared.

`readFrom_of_spelling` reads members of both kinds in one induction, up to what
follows the last of them. From there the closing brace gives the settings, and a
comma with a field that has been given is refused whatever may follow.
-/

namespace FeatureLines

open Json

/-- Whether settings have a field with this key. -/
def isSettingsKey (key : Text) : Bool := key == sourceKey || key == languageKey

/-- The text of a member of a settings object. -/
inductive SettingsMemberSpelling : Text × Value → Text → Prop where
  | mk {key : Text} {value : Value} {a k b c s d : Text} (before : Spaces a)
      (spellsKey : StringSpelling true key k) (beforeColon : Spaces b) (behindColon : Spaces c)
      (spells : Spelling (isSettingsKey key) 1 value s) (behind : Spaces d) :
      SettingsMemberSpelling (key, value)
        (a ++ '"' :: (k ++ '"' :: (b ++ ':' :: (c ++ s ++ d))))

/-- The text of the members of a settings object, of which there is at least one. -/
inductive SettingsMembersSpelling : List (Text × Value) → Text → Prop where
  | last {member : Text × Value} {s : Text} (spells : SettingsMemberSpelling member s) :
      SettingsMembersSpelling [member] s
  | more {member : Text × Value} {members : List (Text × Value)} {s r : Text}
      (spells : SettingsMemberSpelling member s) (rest : SettingsMembersSpelling members r) :
      SettingsMembersSpelling (member :: members) (s ++ ',' :: r)

/-- A whole text of a settings object. -/
inductive SpellsSettings : List (Text × Value) → Text → Prop where
  | empty {a s b : Text} (before : Spaces a) (spaces : Spaces s) (behind : Spaces b) :
      SpellsSettings [] (a ++ '\x7b' :: (s ++ '\x7d' :: b))
  | object {members : List (Text × Value)} {a s b : Text} (before : Spaces a)
      (spells : SettingsMembersSpelling members s) (behind : Spaces b) :
      SpellsSettings members (a ++ '\x7b' :: (s ++ '\x7d' :: b))

/-- The shape of a settings object: either field stands at most once, with a value of its kind. -/
structure SettingsShape (members : List (Text × Value)) : Prop where
  once : ∀ key, isSettingsKey key = true → (members.map (·.1)).count key ≤ 1
  source : ∀ value, (sourceKey, value) ∈ members → value = .null ∨ ∃ path, value = .text path
  language : ∀ value, (languageKey, value) ∈ members → ∃ code, value = .text code

namespace Settings

/-- The settings are what the members say, and otherwise the standard ones. -/
structure SaidBy (settings : Settings) (members : List (Text × Value)) : Prop where
  source : ∀ path, settings.keywordSource = some path ↔ (sourceKey, .text path) ∈ members
  language : ∀ code, (languageKey, .text code) ∈ members → settings.defaultLanguage = code
  standard : languageKey ∉ members.map (·.1) → settings.defaultLanguage = standardLanguage

end Settings

/-! ## What the schema accepts -/

theorem settingsSchema_skipped : settingsSchema.Region false (· = SettingsPlace.other) where
  skips h := by
    rw [h]
    rfl
  item h hitem := by
    subst h
    exact (Option.some.inj hitem).symm
  member h hmember := by
    subst h
    exact (Option.some.inj hmember).symm

theorem other_takesAll : settingsSchema.TakesAll (· = .other) where
  fits h _ := by rw [h]; rfl
  takesArray h := by rw [h]; rfl
  takesObject h := by rw [h]; rfl
  item h _ := ⟨.other, by rw [h]; rfl, rfl⟩
  member h _ _ := ⟨.other, by rw [h]; rfl, rfl⟩
  mayClose h _ := by rw [h]; rfl

/-- The place of the value behind a key. -/
def settingsPlaceOf (key : Text) : SettingsPlace :=
  if key == sourceKey then .path else if key == languageKey then .code else .other

theorem settings_takesOnce : settingsSchema.TakesOnce .settings isSettingsKey settingsPlaceOf := by
  intro earlier key
  have hany : (earlier.any fun member => member.1 == key) = true ↔ key ∈ earlier.map (·.1) := by
    simp [List.any_eq_true]
  show (if isSettingsKey key = true then
    if (earlier.any fun member => member.1 == key) = true then none
    else if key == sourceKey then some .path else some .code
    else some SettingsPlace.other) = _
  by_cases hknown : isSettingsKey key = true
  · simp only [hknown, hany, if_true, true_and]
    refine ite_congr rfl (fun _ => rfl) fun _ => ?_
    rw [isSettingsKey, Bool.or_eq_true] at hknown
    by_cases hsource : (key == sourceKey) = true
    · simp only [settingsPlaceOf, hsource, if_true]
    · simp only [settingsPlaceOf, hsource, hknown.resolve_left hsource, Bool.false_eq_true,
        if_false, if_true]
  · have hplace : settingsPlaceOf key = .other := by
      rw [isSettingsKey, Bool.or_eq_true, not_or] at hknown
      rw [settingsPlaceOf, if_neg hknown.1, if_neg hknown.2]
    rw [if_neg hknown, if_neg fun h => hknown h.1, hplace]

/-- Behind every key stands a value of one of two regions, the one that the grammar chooses. -/
theorem readFrom_settingsValue {key : Text} {value : Value} {stack : List (Frame SettingsPlace)}
    {s rest : Text} (h : Spelling (isSettingsKey key) stack.length value s)
    (haccepts : settingsSchema.accepts (settingsPlaceOf key) value = true)
    (stops : StopsNumber rest) :
    settingsSchema.readFrom (.value (settingsPlaceOf key) stack) (s ++ rest) =
      settingsSchema.readFrom (deliver value stack) rest := by
  by_cases hsource : (key == sourceKey) = true
  · rw [isSettingsKey, hsource, Bool.true_or] at h
    have hplace : (settingsPlaceOf key).IsField := .inl (if_pos hsource)
    exact settingsSchema_region.readFrom_of_spelling hplace h haccepts stops
  · by_cases hlanguage : (key == languageKey) = true
    · rw [isSettingsKey, hlanguage, Bool.or_true] at h
      have hplace : (settingsPlaceOf key).IsField :=
        .inr ((if_neg hsource).trans (if_pos hlanguage))
      exact settingsSchema_region.readFrom_of_spelling hplace h haccepts stops
    · rw [isSettingsKey, Bool.eq_false_iff.mpr hsource, Bool.eq_false_iff.mpr hlanguage] at h
      have hplace : settingsPlaceOf key = .other := (if_neg hsource).trans (if_neg hlanguage)
      exact settingsSchema_skipped.readFrom_of_spelling hplace h haccepts stops

/-! ## Members are read -/

theorem SettingsMemberSpelling.readFrom {member : Text × Value} {s : Text}
    (h : SettingsMemberSpelling member s) {earlier : List (Text × Value)}
    (hmember : settingsSchema.member .settings earlier member.1 = some (settingsPlaceOf member.1))
    (haccepts : settingsSchema.accepts (settingsPlaceOf member.1) member.2 = true) {rest : Text}
    (stops : StopsNumber rest) :
    settingsSchema.readFrom (.nextKey .settings earlier []) (s ++ rest) =
      settingsSchema.readFrom (.afterMember .settings (member :: earlier) []) rest := by
  cases h with
  | @mk key value a k b c s d before spellsKey beforeColon behindColon spells behind =>
    have inside : Spelling (isSettingsKey key) [Frame.member SettingsPlace.settings earlier key].length
      value s := spells
    exact Schema.readFrom_member before spellsKey beforeColon hmember behindColon
      (fun following => readFrom_settingsValue inside haccepts) behind stops

/-- Members are read behind earlier ones up to what follows the last. -/
theorem SettingsMembersSpelling.readFrom {members : List (Text × Value)} {s : Text}
    (h : SettingsMembersSpelling members s) {earlier : List (Text × Value)}
    (haccepts : settingsSchema.acceptsMembers .settings earlier members = true) {rest : Text}
    (stops : StopsNumber rest) :
    settingsSchema.readFrom (.nextKey .settings earlier []) (s ++ rest) =
      settingsSchema.readFrom (.afterMember .settings (members.reverse ++ earlier) []) rest := by
  induction h generalizing earlier with
  | last spells =>
    obtain ⟨hmember, hvalue, -⟩ := settings_takesOnce.acceptsMembers_cons haccepts
    exact spells.readFrom hmember hvalue stops
  | @more member members s r spells others ih =>
    obtain ⟨hmember, hvalue, hmembers⟩ := settings_takesOnce.acceptsMembers_cons haccepts
    rw [List.append_assoc, List.cons_append,
      spells.readFrom hmember hvalue (Schema.stopsNumber_cons (.inl rfl) _), Schema.readFrom_cons]
    show settingsSchema.readFrom (.nextKey .settings (member :: earlier) []) (r ++ rest) = _
    rw [ih hmembers]
    simp

theorem SettingsMemberSpelling.head {member : Text × Value} {s : Text}
    (h : SettingsMemberSpelling member s) : ∃ a s', s = a ++ '"' :: s' ∧ Spaces a := by
  cases h with
  | mk before => exact ⟨_, _, rfl, before⟩

theorem SettingsMembersSpelling.head {members : List (Text × Value)} {s : Text}
    (h : SettingsMembersSpelling members s) : ∃ a s', s = a ++ '"' :: s' ∧ Spaces a := by
  cases h with
  | last spells => exact spells.head
  | more spells _ =>
    obtain ⟨a, s', rfl, spaces⟩ := spells.head
    exact ⟨a, _, by rw [List.append_assoc, List.cons_append], spaces⟩

/-- From the start of a text its members are read, up to what follows the last. -/
theorem SettingsMembersSpelling.read {members : List (Text × Value)} {a s rest : Text}
    (before : Spaces a) (h : SettingsMembersSpelling members s)
    (haccepts : settingsSchema.acceptsMembers .settings [] members = true)
    (stops : StopsNumber rest) :
    settingsSchema.read .settings (a ++ '\x7b' :: (s ++ rest)) =
      settingsSchema.readFrom (.afterMember .settings members.reverse []) rest := by
  have hread := h.readFrom haccepts stops
  obtain ⟨b, s', rfl, spaces⟩ := h.head
  rw [List.append_assoc, List.cons_append] at hread ⊢
  rw [Schema.read_eq_readFrom,
    (settingsSchema.rests (.value .settings []) rfl).readFrom_append before,
    settingsSchema.readFrom_openObject rfl rfl, settingsSchema.readFrom_firstKey spaces, hread,
    List.append_nil]

/-! ## Whole objects -/

namespace SettingsShape

variable {members : List (Text × Value)}

theorem accepts (shape : SettingsShape members) :
    settingsSchema.acceptsMembers .settings [] members = true := by
  rw [settings_takesOnce.acceptsMembers_iff]
  refine ⟨fun member hmember => ?_, fun key hkey => ⟨shape.once key hkey, by simp⟩⟩
  obtain ⟨key, value⟩ := member
  by_cases hsource : key = sourceKey
  · subst hsource
    rcases shape.source value hmember with rfl | ⟨path, rfl⟩ <;> rfl
  · by_cases hlanguage : key = languageKey
    · subst hlanguage
      obtain ⟨code, rfl⟩ := shape.language value hmember
      rfl
    · have hplace : settingsPlaceOf key = .other := by
        simp [settingsPlaceOf, hsource, hlanguage]
      rw [hplace]
      exact other_takesAll.accepts rfl value

theorem read_of_spells (shape : SettingsShape members) {text : Text}
    (spells : SpellsSettings members text) :
    settingsSchema.read .settings text = .ok (.object members) := by
  cases spells with
  | @empty a s b before spaces behind =>
    rw [Schema.read_eq_readFrom,
      (settingsSchema.rests (.value .settings []) rfl).readFrom_append before,
      settingsSchema.readFrom_openObject rfl rfl,
      (settingsSchema.rests (.firstKey .settings []) rfl).readFrom_append spaces]
    exact Schema.readFrom_done_eq_ok_iff.mpr ⟨rfl, behind⟩
  | object before spells behind =>
    rw [spells.read before shape.accepts (Schema.stopsNumber_cons (.inr (.inr rfl)) _)]
    rw [Schema.readFrom_cons]
    show settingsSchema.readFrom (.done (.object members.reverse.reverse)) _ = _
    rw [List.reverse_reverse]
    exact Schema.readFrom_done_eq_ok_iff.mpr ⟨rfl, behind⟩

theorem saidBy_ofValue (shape : SettingsShape members) :
    (Settings.ofValue (.object members)).SaidBy members where
  source _ := lookup_bind_text?_eq_some_iff (shape.once sourceKey rfl)
  language code h := by
    show ((members.lookup languageKey).bind Value.text?).getD _ = code
    rw [(lookup_bind_text?_eq_some_iff (shape.once languageKey rfl)).mpr h]
    rfl
  standard h := by
    have hlookup : members.lookup languageKey = none :=
      List.lookup_eq_none_iff.mpr fun member hmember => by
        simpa using fun hkey => h (List.mem_map.mpr ⟨member, hmember, Eq.symm hkey⟩)
    show ((members.lookup languageKey).bind Value.text?).getD _ = _
    rw [hlookup]
    rfl

theorem ofText_of_spells (shape : SettingsShape members) {text : Text}
    (spells : SpellsSettings members text) :
    Settings.ofText text = .ok (Settings.ofValue (.object members)) := by
  unfold Settings.ofText
  rw [shape.read_of_spells spells]

/-- The shape is a matter of the two fields alone, in whatever order they stand. -/
theorem of_perm {others : List (Text × Value)} (shape : SettingsShape members)
    (same : (others.filter fun member => isSettingsKey member.1).Perm
      (members.filter fun member => isSettingsKey member.1)) : SettingsShape others where
  once key hkey := by
    have hcount (list : List (Text × Value)) : (list.map (·.1)).count key =
        (list.filter fun member => isSettingsKey member.1).countP fun member => member.1 == key := by
      rw [List.count, List.countP_map, List.countP_filter]
      refine List.countP_congr fun member _ => ?_
      simp only [Function.comp_apply, beq_iff_eq, Bool.and_eq_true]
      exact ⟨fun h => ⟨h, h ▸ hkey⟩, fun h => h.1⟩
    rw [hcount, same.countP_eq, ← hcount]
    exact shape.once key hkey
  source value h :=
    shape.source value (List.mem_filter.mp (same.mem_iff.mp (List.mem_filter.mpr ⟨h, rfl⟩))).1
  language value h :=
    shape.language value (List.mem_filter.mp (same.mem_iff.mp (List.mem_filter.mpr ⟨h, rfl⟩))).1

end SettingsShape

namespace Settings

variable {members : List (Text × Value)} {settings other : Settings}

/-- Members of the shape of settings leave no choice what the settings are. -/
theorem SaidBy.unique (shape : SettingsShape members) (h : settings.SaidBy members)
    (hother : other.SaidBy members) : settings = other := by
  obtain ⟨source, language⟩ := settings
  obtain ⟨source', language'⟩ := other
  have hsource : source = source' :=
    Option.ext fun path => (h.source path).trans (hother.source path).symm
  have hlanguage : language = language' := by
    by_cases hgiven : languageKey ∈ members.map (·.1)
    · obtain ⟨⟨_, value⟩, hmember, rfl⟩ := List.mem_map.mp hgiven
      obtain ⟨code, rfl⟩ := shape.language value hmember
      exact (h.language code hmember).trans (hother.language code hmember).symm
    · exact (h.standard hgiven).trans (hother.standard hgiven).symm
  rw [hsource, hlanguage]

/-- Members that settings do not have say nothing. -/
theorem SaidBy.of_perm {others : List (Text × Value)} (h : settings.SaidBy members)
    (same : (others.filter fun member => isSettingsKey member.1).Perm
      (members.filter fun member => isSettingsKey member.1)) : settings.SaidBy others := by
  have hmem {key : Text} (hkey : isSettingsKey key = true) (value : Value) :
      (key, value) ∈ others ↔ (key, value) ∈ members := by
    have hfilter := same.mem_iff (a := (key, value))
    simpa [List.mem_filter, hkey] using hfilter
  refine ⟨fun path => ?_, fun code hcode => ?_, fun hnone => ?_⟩
  · rw [hmem rfl]
    exact h.source path
  · exact h.language code ((hmem rfl _).mp hcode)
  · refine h.standard fun hgiven => hnone ?_
    obtain ⟨⟨_, value⟩, hmember, rfl⟩ := List.mem_map.mp hgiven
    exact List.mem_map.mpr ⟨_, (hmem rfl value).mpr hmember, rfl⟩

/-! ## Fields given again -/

/-- A field that stands once more is refused at the end of its key. -/
theorem ofText_of_repeated {key a s b k : Text} (shape : SettingsShape members)
    (isField : isSettingsKey key = true) (given : key ∈ members.map (·.1)) (before : Spaces a)
    (spells : SettingsMembersSpelling members s) (beforeKey : Spaces b)
    (spellsKey : StringSpelling true key k) (rest : Text) :
    ofText (a ++ '\x7b' :: (s ++ ',' :: (b ++ '"' :: (k ++ '"' :: rest)))) =
      .error .misshapen := by
  have hrefused : settingsSchema.member .settings members.reverse key = none := by
    rw [settings_takesOnce, if_pos ⟨isField, by simpa using given⟩]
  have hkey : settingsSchema.readFrom (.key .settings members.reverse .start [])
      (k ++ '"' :: rest) = .error .misshapen := by
    have hkept : (!settingsSchema.skips .settings) = true := rfl
    rw [Schema.readFrom_key, hkept, QuotedScan.read_start_eq_closed_iff.mpr ⟨k, spellsKey, rfl⟩,
      Schema.afterQuoted, Schema.closeKey, hrefused, Schema.readOn_error]
  have hread : settingsSchema.read .settings
      (a ++ '\x7b' :: (s ++ ',' :: (b ++ '"' :: (k ++ '"' :: rest)))) = .error .misshapen := by
    rw [spells.read before shape.accepts (Schema.stopsNumber_cons (.inl rfl) _)]
    calc
      settingsSchema.readFrom (.afterMember .settings members.reverse []) (',' :: _)
        = settingsSchema.readFrom (.nextKey .settings members.reverse []) _ := rfl
      _ = settingsSchema.readFrom (.nextKey .settings members.reverse []) ('"' :: _) :=
          (settingsSchema.rests (.nextKey .settings members.reverse []) rfl).readFrom_append
            beforeKey _
      _ = settingsSchema.readFrom (.key .settings members.reverse .start []) _ := rfl
      _ = .error .misshapen := hkey
  unfold ofText
  rw [hread]

/-! ## Settings as an array -/

theorem acceptsItems_settings {items : List Value} (few : items.length ≤ 2)
    (shape : SettingsShape ([sourceKey, languageKey].zip items)) :
    settingsSchema.acceptsItems .settings [] items = true := by
  have hsource : ∀ value, items[0]? = some value → settingsSchema.accepts .path value = true := by
    intro value hvalue
    have hmember : (sourceKey, value) ∈ [sourceKey, languageKey].zip items :=
      List.mem_iff_getElem?.mpr ⟨0, by simp [List.getElem?_zip_eq_some, hvalue]⟩
    rcases shape.source value hmember with rfl | ⟨path, rfl⟩ <;> rfl
  have hlanguage : ∀ value, items[1]? = some value → settingsSchema.accepts .code value = true := by
    intro value hvalue
    have hmember : (languageKey, value) ∈ [sourceKey, languageKey].zip items :=
      List.mem_iff_getElem?.mpr ⟨1, by simp [List.getElem?_zip_eq_some, hvalue]⟩
    obtain ⟨code, rfl⟩ := shape.language value hmember
    rfl
  match items with
  | [] => rfl
  | [path] =>
    exact settingsSchema.acceptsItems_cons_iff.mpr ⟨.path, rfl, hsource path rfl, rfl⟩
  | [path, code] =>
    refine settingsSchema.acceptsItems_cons_iff.mpr ⟨.path, rfl, hsource path rfl, ?_⟩
    exact settingsSchema.acceptsItems_cons_iff.mpr ⟨.code, rfl, hlanguage code rfl, rfl⟩
  | _ :: _ :: _ :: _ =>
    simp only [List.length_cons] at few
    omega

/-- The items of the array form stand at the fields. -/
theorem isField_of_item {items : List Value} {next : SettingsPlace}
    (h : settingsSchema.item .settings items = some next) : next.IsField := by
  match items with
  | [] => exact .inl (Option.some.inj h).symm
  | [_] => exact .inr (Option.some.inj h).symm
  | _ :: _ :: _ => cases h

theorem read_array {items : List Value} {text : Text} (few : items.length ≤ 2)
    (shape : SettingsShape ([sourceKey, languageKey].zip items))
    (spells : Spells (.array items) text) :
    settingsSchema.read .settings text = .ok (.array items) := by
  obtain ⟨a, s, b, before, hs, behind, rfl⟩ := spells
  rw [Schema.read_eq_readFrom, List.append_assoc,
    (settingsSchema.rests (.value .settings []) rfl).readFrom_append before]
  cases hs with
  | @emptyArray s _ room spaces =>
    rw [List.cons_append, settingsSchema.readFrom_openArray rfl rfl, List.append_assoc,
      (settingsSchema.rests (.firstItem .settings []) rfl).readFrom_append spaces]
    exact Schema.readFrom_done_eq_ok_iff.mpr ⟨rfl, behind⟩
  | @array _ s _ room spellsItems =>
    have inside : ItemsSpelling true (([] : List (Frame SettingsPlace)).length + 1) items s :=
      spellsItems
    obtain ⟨next, hitem, hread⟩ := settingsSchema_region.readFrom_items isField_of_item inside
      (acceptsItems_settings few shape) (Schema.stopsNumber_cons (.inr (.inl rfl)) b)
    obtain ⟨c, d, s', rfl, spaces, hspace, hbracket⟩ := Schema.head_of_itemsSpelling spellsItems
    rw [List.append_assoc, List.cons_append] at hread
    rw [List.cons_append, settingsSchema.readFrom_openArray rfl rfl]
    simp only [List.append_assoc, List.cons_append, List.nil_append]
    rw [settingsSchema.readFrom_firstItem hspace hbracket hitem spaces, hread,
      Schema.readFrom_cons, List.append_nil]
    show settingsSchema.readFrom (.done (.array items.reverse.reverse)) b = _
    rw [List.reverse_reverse]
    exact Schema.readFrom_done_eq_ok_iff.mpr ⟨rfl, behind⟩

/-- The array form says what its items say as fields. -/
theorem ofValue_array {items : List Value} (few : items.length ≤ 2) :
    ofValue (.array items) = ofValue (.object ([sourceKey, languageKey].zip items)) := by
  match items with
  | [] => rfl
  | [_] => rfl
  | [_, _] => rfl
  | _ :: _ :: _ :: _ =>
    simp only [List.length_cons] at few
    omega

/-! ## What settings are decoded to -/

/-- An object whose fields have their shape is decoded to the settings that its members say, however
it is spelled and whatever stands under other keys. Objects with the same fields say the same, and
so does the array of the fields. A field that is given again is refused whatever comes behind it. -/
theorem ofText_of_shape (shape : SettingsShape members) :
    (∀ text, SpellsSettings members text →
        ∃ settings, ofText text = .ok settings ∧ settings.SaidBy members)
      ∧ (∀ others text otherText,
        (others.filter fun member => isSettingsKey member.1).Perm
          (members.filter fun member => isSettingsKey member.1) →
        SpellsSettings members text → SpellsSettings others otherText →
        ofText otherText = ofText text)
      ∧ (∀ items text arrayText, items.length ≤ 2 → members = [sourceKey, languageKey].zip items →
        SpellsSettings members text → Spells (.array items) arrayText →
        ofText arrayText = ofText text)
      ∧ ∀ key a s b k rest, isSettingsKey key = true → key ∈ members.map (·.1) → Spaces a →
        SettingsMembersSpelling members s → Spaces b → StringSpelling true key k →
        ofText (a ++ '\x7b' :: (s ++ ',' :: (b ++ '"' :: (k ++ '"' :: rest)))) =
          .error .misshapen := by
  refine ⟨fun text spells => ⟨_, shape.ofText_of_spells spells, shape.saidBy_ofValue⟩,
    fun others text otherText same spells spellsOther => ?_,
    fun items text arrayText few hmembers spells spellsArray => ?_,
    fun key a s b k rest isField given before spells beforeKey spellsKey =>
      ofText_of_repeated shape isField given before spells beforeKey spellsKey rest⟩
  · have otherShape := shape.of_perm same
    have hothers := otherShape.saidBy_ofValue
    rw [shape.ofText_of_spells spells, otherShape.ofText_of_spells spellsOther,
      hothers.unique otherShape (shape.saidBy_ofValue.of_perm same)]
  · subst hmembers
    rw [shape.ofText_of_spells spells, ← ofValue_array few]
    unfold ofText
    rw [read_array few shape spellsArray]

/-- A number that is too large to be kept may stand under another key. -/
theorem ofText_of_shape_skipped :
    let large : Number := ⟨false, [1], [], false, [9, 9, 9]⟩
    let members := [("x".toList, .array [.number large]), (languageKey, .text "fr".toList)]
    large.inRange = false ∧ SettingsShape members
      ∧ ∃ settings, ofText "\x7b\"x\":[1e999],\"defaultLanguage\":\"fr\"\x7d".toList = .ok settings
        ∧ settings.SaidBy members := by
  intro large members
  have shape : SettingsShape members := by
    refine ⟨fun key hkey => ?_, fun value h => ?_, fun value h => ?_⟩
    · rw [isSettingsKey, Bool.or_eq_true, beq_iff_eq, beq_iff_eq] at hkey
      rcases hkey with rfl | rfl <;> decide
    · have hkey : sourceKey ∈ members.map (·.1) := List.mem_map_of_mem h
      exact absurd hkey (by decide)
    · have hlookup : members.lookup languageKey = some value :=
        (lookup_eq_some_iff_mem (by decide)).mpr h
      exact ⟨_, (Option.some.inj hlookup).symm⟩
  have hnone : Spaces [] := by
    intro c hc
    cases hc
  have hnumber : NumberSpelling large "1e999".toList :=
    .mk large [] "e999".toList (.inr (by decide)) .none
      (.plain 'e' [9, 9, 9] (.inl rfl) (by decide) (by decide))
  have hitem : Spelling false 2 (.number large) "1e999".toList := .number 2 large hnumber (by simp)
  have hskipped : Spelling false 1 (.array [.number large]) "[1e999]".toList :=
    .array 1 (by simp [HasRoom]) (.last hnone hitem hnone)
  have hfirst : SettingsMemberSpelling ("x".toList, .array [.number large])
      "\"x\":[1e999]".toList :=
    .mk hnone (stringSpelling_flatMap_escapeChar true "x".toList) hnone hnone hskipped hnone
  have hsecond : SettingsMemberSpelling (languageKey, .text "fr".toList)
      "\"defaultLanguage\":\"fr\"".toList :=
    .mk hnone (stringSpelling_flatMap_escapeChar true languageKey) hnone hnone
      (spelling_quote 1 "fr".toList) hnone
  have spells := SpellsSettings.object hnone (.more hfirst (.last hsecond)) hnone
  exact ⟨by decide, shape, (ofText_of_shape shape).1 _ spells⟩

end Settings

end FeatureLines
