import FeatureLines.Keyword.Parse
import FeatureLines.Proofs.Json.Members
import FeatureLines.Proofs.Text.Utf8

/-!
# Which texts are lexicons

`Lexicon.parse_eq_ok_iff` says which bytes give a lexicon, and which one: they
encode a JSON text of an object of languages, each in its shape, and the lexicon
says what this object says. `LanguageShape` is what is wanted of a language, and
`Lexicon.Holds` is what a lexicon holds of its members; of these the last counts
under its key.

The limits of the grammar on nesting and on numbers bind no lexicon: it is three
levels deep and holds no numbers.
-/

namespace FeatureLines

open Json TextMap

/-- The shape of a language: it is named at most once in either way, by a string or null, and its
other members are lists of strings. -/
structure LanguageShape (fields : List (Text × Value)) : Prop where
  once : ∀ key, isNameKey key = true → (fields.map (·.1)).count key ≤ 1
  label : ∀ field ∈ fields, isNameKey field.1 = true → field.2 = .null ∨ ∃ t, field.2 = .text t
  list : ∀ field ∈ fields, isNameKey field.1 = false →
    ∃ words : List Text, field.2 = .array (words.map .text)

/-- The vocabulary holds what these members of a language give. -/
structure Vocabulary.Holds (vocabulary : Vocabulary) (fields : List (Text × Value)) : Prop where
  name : ∀ t, vocabulary.name = some t ↔ (nameKey, .text t) ∈ fields
  native : ∀ t, vocabulary.native = some t ↔ (nativeKey, .text t) ∈ fields
  list : ∀ key words, vocabulary.list? key = some words ↔
    isNameKey key = false ∧ LastAt fields key (.array (words.map .text))

/-- The lexicon holds what these members give. -/
structure Lexicon.Holds (lexicon : Lexicon) (members : List (Text × Value)) : Prop where
  codes : ∀ code, code ∈ lexicon.keys ↔ code ∈ members.map (·.1)
  language : ∀ code vocabulary, lexicon.get? code = some vocabulary →
    ∃ fields, LastAt members code (.object fields) ∧ vocabulary.Holds fields

/-! ## What the schema accepts -/

theorem lexiconSchema_region : lexiconSchema.Region true fun _ => True where
  skips _ := rfl
  item _ _ := trivial
  member _ _ := trivial

theorem content_takesAll : lexiconSchema.TakesAll (· = .content) where
  fits h _ := by rw [h]; rfl
  takesArray h := by rw [h]; rfl
  takesObject h := by rw [h]; rfl
  item h _ := ⟨.content, by rw [h]; rfl, rfl⟩
  member h _ _ := ⟨.content, by rw [h]; rfl, rfl⟩
  mayClose h _ := by rw [h]; rfl

/-- Behind a key that is no name any value may stand, as far as the object has been read. -/
theorem accepts_content (value : Value) : lexiconSchema.accepts .content value = true :=
  content_takesAll.accepts rfl value

theorem accepts_label (value : Value) : lexiconSchema.accepts .label value = value.isLabel := by
  cases value <;> rfl

theorem isLabel_iff {value : Value} :
    value.isLabel = true ↔ value = .null ∨ ∃ t, value = .text t := by
  cases value <;> simp [Value.isLabel]

/-- A name may stand once. -/
theorem language_takesOnce : lexiconSchema.TakesOnce .language isNameKey fun key =>
    if isNameKey key = true then .label else .content := by
  intro earlier key
  have hany : (earlier.any fun member => member.1 == key) = true ↔ key ∈ earlier.map (·.1) := by
    simp [List.any_eq_true]
  show (if isNameKey key = true then
    if (earlier.any fun member => member.1 == key) = true then none else some LexiconPlace.label
    else some .content) = _
  by_cases hname : isNameKey key = true
  · simp only [hname, hany, if_true, true_and]
  · simp only [hname, Bool.false_eq_true, if_false, false_and]

/-- A name must be a label. -/
theorem accepts_behind_key_iff {key : Text} {value : Value} :
    lexiconSchema.accepts (if isNameKey key = true then .label else .content) value = true ↔
      (isNameKey key = true → value.isLabel = true) := by
  by_cases hname : isNameKey key = true
  · simp [hname, accepts_label]
  · simp [hname, accepts_content]

theorem acceptsMembers_language_iff {fields : List (Text × Value)} :
    lexiconSchema.acceptsMembers .language [] fields = true ↔
      (∀ field ∈ fields, isNameKey field.1 = true → field.2.isLabel = true)
        ∧ ∀ key, isNameKey key = true → (fields.map (·.1)).count key ≤ 1 := by
  rw [language_takesOnce.acceptsMembers_iff]
  simp [accepts_behind_key_iff]

theorem isTextList_iff {value : Value} :
    value.isTextList = true ↔ ∃ words : List Text, value = .array (words.map .text) := by
  constructor
  · intro h
    cases value with
    | array items =>
      refine ⟨items.filterMap Value.text?, ?_⟩
      rw [Value.isTextList] at h
      induction items with
      | nil => rfl
      | cons item items ih =>
        rw [List.all_cons, Bool.and_eq_true] at h
        cases item with
        | text t =>
          have hitems := Value.array.inj (ih h.2)
          have htexts : (Value.text t :: items).filterMap Value.text? =
            t :: items.filterMap Value.text? := rfl
          rw [htexts, List.map_cons, ← hitems]
        | _ => cases h.1
    | _ => cases h
  · rintro ⟨words, rfl⟩
    simp [Value.isTextList, Value.isText]

theorem haveKeywordLists_iff {fields : List (Text × Value)} :
    haveKeywordLists fields = true ↔ ∀ field ∈ fields, isNameKey field.1 = false →
      ∃ words : List Text, field.2 = .array (words.map .text) := by
  simp only [haveKeywordLists, List.all_eq_true, Bool.or_eq_true, ← isTextList_iff]
  refine forall_congr' fun field => forall_congr' fun _ => ?_
  cases isNameKey field.1 <;> simp

theorem accepts_language_iff {value : Value} :
    lexiconSchema.accepts .language value = true ↔
      ∃ fields, value = .object fields ∧ LanguageShape fields := by
  cases value with
  | object fields =>
    show (lexiconSchema.acceptsMembers .language [] fields && haveKeywordLists fields) = true ↔ _
    rw [Bool.and_eq_true, acceptsMembers_language_iff, haveKeywordLists_iff]
    constructor
    · rintro ⟨⟨hlabel, honce⟩, hlist⟩
      exact ⟨fields, rfl, honce,
        fun field hfield hname => isLabel_iff.mp (hlabel field hfield hname), hlist⟩
    · rintro ⟨_, hfields, shape⟩
      obtain rfl := Value.object.inj hfields
      exact ⟨⟨fun field hfield hname => isLabel_iff.mpr (shape.label field hfield hname),
        shape.once⟩, shape.list⟩
  | _ => exact ⟨fun h => (nomatch h), fun ⟨_, h, _⟩ => (nomatch h)⟩

theorem acceptsMembers_lexicon_iff {members earlier : List (Text × Value)} :
    lexiconSchema.acceptsMembers .lexicon earlier members = true ↔
      ∀ member ∈ members, ∃ fields, member.2 = .object fields ∧ LanguageShape fields := by
  induction members generalizing earlier with
  | nil => simp [Schema.acceptsMembers]
  | cons member members ih =>
    show (lexiconSchema.accepts .language member.2 && _) = true ↔ _
    rw [Bool.and_eq_true, accepts_language_iff, ih, List.forall_mem_cons]

theorem accepts_lexicon_iff {value : Value} :
    lexiconSchema.accepts .lexicon value = true ↔ ∃ members, value = .object members
      ∧ ∀ member ∈ members, ∃ fields, member.2 = .object fields ∧ LanguageShape fields := by
  cases value with
  | object members =>
    show (lexiconSchema.acceptsMembers .lexicon [] members && true) = true ↔ _
    rw [Bool.and_true, acceptsMembers_lexicon_iff]
    constructor
    · intro h
      exact ⟨members, rfl, h⟩
    · rintro ⟨_, hmembers, h⟩
      obtain rfl := Value.object.inj hmembers
      exact h
  | _ => exact ⟨fun h => (nomatch h), fun ⟨_, h, _⟩ => (nomatch h)⟩

/-! ## What the members say -/

theorem texts_array (words : List Text) : (Value.array (words.map .text)).texts = words := by
  rw [Value.texts, List.filterMap_map]
  exact List.filterMap_some

/-- The last list under a key that is no name is the last among the lists. -/
theorem lastAt_listsOf {fields : List (Text × Value)} {key : Text} {words : List Text}
    (hname : isNameKey key = false) (h : LastAt fields key (.array (words.map .text))) :
    LastAt ((fields.filter fun field => !isNameKey field.1).map fun field =>
      (field.1, field.2.texts)) key words := by
  have hchosen := (h.filter (fun key => !isNameKey key) (by simp [hname])).map Value.texts
  rwa [texts_array] at hchosen

theorem Vocabulary.holds_ofMembers {fields : List (Text × Value)} (shape : LanguageShape fields) :
    (ofMembers fields).Holds fields where
  name t := lookup_bind_text?_eq_some_iff (shape.once nameKey (by decide))
  native t := lookup_bind_text?_eq_some_iff (shape.once nativeKey (by decide))
  list key words := by
    show (TextMap.ofList _).get? key = some words ↔ _
    rw [get?_ofList_eq_some_iff]
    constructor
    · intro h
      have hmem := exists_lastAt_iff.mp ⟨words, h⟩
      simp only [List.map_map, List.mem_map, List.mem_filter, Function.comp_apply,
        Bool.not_eq_true'] at hmem
      obtain ⟨field, ⟨hfield, hname⟩, rfl⟩ := hmem
      obtain ⟨value, hlast⟩ := exists_lastAt_iff.mpr (List.mem_map_of_mem hfield)
      obtain ⟨words', rfl⟩ : ∃ words' : List Text, value = .array (words'.map .text) :=
        shape.list _ hlast.mem hname
      obtain rfl := h.unique (lastAt_listsOf hname hlast)
      exact ⟨hname, hlast⟩
    · rintro ⟨hname, hlast⟩
      exact lastAt_listsOf hname hlast

theorem Vocabulary.Holds.unique {fields : List (Text × Value)} {v w : Vocabulary}
    (hv : v.Holds fields) (hw : w.Holds fields) : v = w := by
  obtain ⟨name, native, lists⟩ := v
  obtain ⟨name', native', lists'⟩ := w
  have hname : name = name' := Option.ext fun t => (hv.name t).trans (hw.name t).symm
  have hnative : native = native' := Option.ext fun t => (hv.native t).trans (hw.native t).symm
  have hlists : lists = lists' := ext_get? fun key =>
    Option.ext fun words => (hv.list key words).trans (hw.list key words).symm
  rw [hname, hnative, hlists]

theorem Lexicon.holds_ofMembers {members : List (Text × Value)}
    (shape : ∀ member ∈ members, ∃ fields, member.2 = .object fields ∧ LanguageShape fields) :
    (ofMembers members).Holds members where
  codes code := by
    rw [ofMembers, mem_keys_ofList, List.map_map]
    rfl
  language code vocabulary h := by
    have hlast := get?_ofList_eq_some_iff.mp h
    have hcode := exists_lastAt_iff.mp ⟨vocabulary, hlast⟩
    rw [List.map_map] at hcode
    obtain ⟨value, hvalue⟩ := exists_lastAt_iff.mpr hcode
    obtain ⟨fields, rfl, hfields⟩ : ∃ fields, value = .object fields ∧ LanguageShape fields :=
      shape _ hvalue.mem
    obtain rfl := hlast.unique (hvalue.map fun value => Vocabulary.ofMembers value.members)
    exact ⟨fields, hvalue, Vocabulary.holds_ofMembers hfields⟩

theorem Lexicon.Holds.get?_eq_some {members : List (Text × Value)} {l m : Lexicon}
    (hl : l.Holds members) (hm : m.Holds members) {code : Text} {vocabulary : Vocabulary}
    (h : l.get? code = some vocabulary) : m.get? code = some vocabulary := by
  have hcode : code ∈ m.keys := (hm.codes code).mpr
    ((hl.codes code).mp (mem_keys_iff.mpr (Option.isSome_iff_exists.mpr ⟨vocabulary, h⟩)))
  obtain ⟨other, hother⟩ := Option.isSome_iff_exists.mp (mem_keys_iff.mp hcode)
  obtain ⟨fields, hlast, hholds⟩ := hl.language code vocabulary h
  obtain ⟨fields', hlast', hholds'⟩ := hm.language code other hother
  obtain rfl := Value.object.inj (hlast.unique hlast')
  rw [hother, hholds.unique hholds']

theorem Lexicon.Holds.unique {members : List (Text × Value)} {l m : Lexicon}
    (hl : l.Holds members) (hm : m.Holds members) : l = m :=
  ext_get? fun _ => Option.ext fun _ => ⟨hl.get?_eq_some hm, hm.get?_eq_some hl⟩

/-! ## Texts and bytes -/

theorem Lexicon.ofText_eq_ok_iff {text : Text} {lexicon : Lexicon} :
    ofText text = .ok lexicon ↔
      ∃ members, Spells (.object members) text
        ∧ (∀ member ∈ members, ∃ fields, member.2 = .object fields ∧ LanguageShape fields)
        ∧ lexicon.Holds members := by
  have hread (value : Value) : lexiconSchema.read .lexicon text = .ok value ↔
      Spells value text ∧ lexiconSchema.accepts .lexicon value = true :=
    lexiconSchema_region.read_eq_ok_iff trivial
  rw [ofText]
  constructor
  · intro h
    cases hvalue : lexiconSchema.read .lexicon text with
    | error fault => rw [hvalue] at h; cases h
    | ok value =>
      rw [hvalue] at h
      obtain rfl := Except.ok.inj h
      obtain ⟨spells, haccepts⟩ := (hread value).mp hvalue
      obtain ⟨members, rfl, shape⟩ := accepts_lexicon_iff.mp haccepts
      exact ⟨members, spells, shape, holds_ofMembers shape⟩
  · rintro ⟨members, spells, shape, holds⟩
    rw [(hread _).mpr ⟨spells, accepts_lexicon_iff.mpr ⟨members, rfl, shape⟩⟩,
      holds.unique (holds_ofMembers shape)]
    rfl

/-- Bytes are read as a lexicon exactly when they encode a JSON text of an object of languages in
their shape, and the lexicon holds what the object gives. -/
theorem Lexicon.parse_eq_ok_iff (resource : Text) (bytes : List UInt8) (lexicon : Lexicon) :
    parse resource bytes = .ok lexicon ↔
      ∃ text members, bytes = Utf8.encode text ∧ Spells (.object members) text
        ∧ (∀ member ∈ members, ∃ fields, member.2 = .object fields ∧ LanguageShape fields)
        ∧ lexicon.Holds members := by
  rw [parse]
  constructor
  · intro h
    cases htext : Utf8.decode bytes with
    | error fault => rw [htext] at h; cases h
    | ok text =>
      simp only [htext] at h
      cases hlexicon : ofText text with
      | error fault => rw [hlexicon] at h; cases h
      | ok lexicon' =>
        rw [hlexicon] at h
        obtain rfl := Except.ok.inj h
        obtain ⟨members, hmembers⟩ := ofText_eq_ok_iff.mp hlexicon
        exact ⟨text, members, Utf8.decode_eq_ok_iff.mp htext, hmembers⟩
  · rintro ⟨text, members, rfl, hmembers⟩
    simp only [Utf8.decode_eq_ok_iff.mpr rfl, ofText_eq_ok_iff.mpr ⟨members, hmembers⟩]

end FeatureLines
