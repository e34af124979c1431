import FeatureLines.Proofs.Json.Loosening
import FeatureLines.Proofs.Json.Truncation
import FeatureLines.Proofs.Keyword.Parse

/-!
# Within a language

Where the reading of a lexicon stands behind the start of a language. What comes
before is read as a lead (`LexiconLead.exists_readFrom`). From there on the
reading is compared with that of the same text by `Schema.shapeless`, which can
be completed exactly if the text begins an object
(`exists_readFrom_of_beginsObject`, `beginsObject_of_readFrom`). The second of
these needs that no object is the start of another one.

`Standing` gathers what is known of the state. A number that has not ended yet
does not show whether it fits its place. That it does is seen from the rest of
the object, read without a judgement at the closing brace (`Schema.unclosed`).
-/

namespace FeatureLines

open Json Schema

/-! ## Texts -/

/-- The text begins an object inside one other. -/
def BeginsObject (text : Text) : Prop :=
  ∃ fields rest, Spelling true 1 (.object fields) (text ++ rest)

/-- A language is named at most once in either way, by a string or null. -/
structure WellNamed (fields : List (Text × Value)) : Prop where
  once : ∀ key, isNameKey key = true → (fields.map (·.1)).count key ≤ 1
  label : ∀ field ∈ fields, isNameKey field.1 = true → field.2 = .null ∨ ∃ t, field.2 = .text t

/-- A member that is no name of a language is not a list of strings. -/
def Misshapen (fields : List (Text × Value)) : Prop :=
  ∃ field ∈ fields, isNameKey field.1 = false
    ∧ ∀ words : List Text, field.2 ≠ .array (words.map .text)

theorem haveKeywordLists_of_misshapen {fields : List (Text × Value)} (h : Misshapen fields) :
    haveKeywordLists fields = false := by
  obtain ⟨field, hfield, hname, hlist⟩ := h
  cases hlists : haveKeywordLists fields with
  | false => rfl
  | true =>
    obtain ⟨words, hwords⟩ := haveKeywordLists_iff.mp hlists field hfield hname
    exact absurd hwords (hlist words)

theorem WellNamed.acceptsMembers {fields : List (Text × Value)} (named : WellNamed fields) :
    lexiconSchema.acceptsMembers .language [] fields = true :=
  acceptsMembers_language_iff.mpr ⟨fun field hfield hname =>
    isLabel_iff.mpr (named.label field hfield hname), named.once⟩

/-- The text begins an object that names a language well, and ends before its closing brace. -/
def OpensLanguage (text : Text) : Prop :=
  ∃ fields rest, WellNamed fields ∧ rest ≠ [] ∧ Spelling true 1 (.object fields) (text ++ rest)

/-- The same of one in which a member is not a list of strings. -/
def OpensMisshapen (text : Text) : Prop :=
  ∃ fields rest, WellNamed fields ∧ Misshapen fields ∧ rest ≠ []
    ∧ Spelling true 1 (.object fields) (text ++ rest)

theorem OpensMisshapen.opensLanguage {text : Text} (h : OpensMisshapen text) :
    OpensLanguage text := by
  obtain ⟨fields, rest, named, -, hne, spells⟩ := h
  exact ⟨fields, rest, named, hne, spells⟩

/-- The text of the key of a member, up to the value behind its colon. -/
inductive KeyLead : Text → Prop where
  | mk {a key k b c : Text} (before : Spaces a) (spellsKey : StringSpelling true key k)
      (beforeColon : Spaces b) (behindColon : Spaces c) :
      KeyLead (a ++ '"' :: (k ++ '"' :: (b ++ ':' :: c)))

/-- The text of a lexicon up to one of its languages. Those before it have their shape. -/
inductive LexiconLead : Text → Prop where
  | first {a key : Text} (before : Spaces a) (leads : KeyLead key) :
      LexiconLead (a ++ '\x7b' :: key)
  | next {a s key : Text} {members : List (Text × Value)} (before : Spaces a)
      (spells : MembersSpelling true 1 members s)
      (shape : ∀ member ∈ members, ∃ fields, member.2 = .object fields ∧ LanguageShape fields)
      (leads : KeyLead key) :
      LexiconLead (a ++ '\x7b' :: (s ++ ',' :: key))

/-! ## Up to the language -/

/-- The reading stands before a language, behind these others. -/
def beforeLanguage (earlier : List (Text × Value)) (code : Text) : State LexiconPlace :=
  .value .language [.member .lexicon earlier code]

theorem KeyLead.exists_readFrom {key : Text} (h : KeyLead key) (earlier : List (Text × Value)) :
    ∃ code, ∀ text, lexiconSchema.readFrom (.nextKey .lexicon earlier []) (key ++ text) =
      lexiconSchema.readFrom (beforeLanguage earlier code) text := by
  obtain @⟨a, code, k, b, c, before, spellsKey, beforeColon, behindColon⟩ := h
  refine ⟨code, fun text => ?_⟩
  simp only [List.append_assoc, List.cons_append]
  rw [lexiconSchema.readFrom_nextKey_of_spelling before spellsKey beforeColon rfl,
    (lexiconSchema.rests (.value _ _) rfl).readFrom_append behindColon]
  rfl

theorem KeyLead.head {key : Text} (h : KeyLead key) : ∃ a k, key = a ++ '"' :: k ∧ Spaces a := by
  obtain ⟨before, _, _, _⟩ := h
  exact ⟨_, _, rfl, before⟩

/-- Behind its lead the text of a lexicon is read from where a language begins. -/
theorem LexiconLead.exists_readFrom {lead : Text} (h : LexiconLead lead) :
    ∃ earlier code, ∀ text, lexiconSchema.read .lexicon (lead ++ text) =
      lexiconSchema.readFrom (beforeLanguage earlier code) text := by
  have hopen (a text : Text) (before : Spaces a) :
      lexiconSchema.read .lexicon (a ++ '\x7b' :: text) =
        lexiconSchema.readFrom (.firstKey .lexicon []) text := by
    rw [read_eq_readFrom, (lexiconSchema.rests (.value .lexicon []) rfl).readFrom_append before,
      lexiconSchema.readFrom_openObject rfl rfl]
  cases h with
  | @first a key before leads =>
    obtain ⟨code, hread⟩ := leads.exists_readFrom []
    refine ⟨[], code, fun text => ?_⟩
    obtain ⟨b, k, rfl, spaces⟩ := leads.head
    rw [← hread, List.append_assoc, List.cons_append, hopen _ _ before, List.append_assoc,
      List.cons_append, lexiconSchema.readFrom_firstKey spaces]
  | @next a s key members before spells shape leads =>
    obtain ⟨code, hread⟩ := leads.exists_readFrom (members.reverse ++ [])
    refine ⟨members.reverse ++ [], code, fun text => ?_⟩
    have outermost : MembersSpelling true (([] : List (Frame LexiconPlace)).length + 1) members s :=
      spells
    have haccepts : lexiconSchema.acceptsMembers .lexicon [] members = true :=
      acceptsMembers_lexicon_iff.mpr shape
    have hmembers := lexiconSchema_region.readFrom_of_membersSpelling trivial outermost haccepts
      (stopsNumber_cons (.inl rfl) (key ++ text))
    obtain ⟨b, k, rfl, spaces⟩ := head_of_membersSpelling spells
    rw [List.append_assoc, List.cons_append] at hmembers
    simp only [List.append_assoc, List.cons_append]
    rw [hopen _ _ before, lexiconSchema.readFrom_firstKey spaces, hmembers, ← hread, readFrom_cons]
    rfl

/-! ## Objects inside one other -/

theorem lexiconSchema_shapeless_region :
    lexiconSchema.shapeless.Region true fun _ => True :=
  shapeless_region fun _ => rfl

/-- Whatever follows, an object is read up to its closing brace. -/
theorem readFrom_shapeless_of_objectSpelling {fields : List (Text × Value)} {s : Text}
    (h : Spelling true 1 (.object fields) s) (place : LexiconPlace) (frame : Frame LexiconPlace)
    (rest : Text) :
    lexiconSchema.shapeless.readFrom (.value place [frame]) (s ++ rest) =
      lexiconSchema.shapeless.readFrom (deliver (.object fields) [frame]) rest := by
  have inside : Spelling true [frame].length (.object fields) s := h
  have all := lexiconSchema.shapeless_takesAll
  have takes : lexiconSchema.shapeless.takesObject place = true := rfl
  obtain ⟨body, rfl, -, hread⟩ := lexiconSchema_shapeless_region.exists_of_objectSpelling trivial
    inside takes (all.acceptsMembers trivial fields)
  rw [List.append_assoc, List.singleton_append, hread, closeObject,
    if_pos (all.mayClose trivial _), readOn_ok, List.reverse_reverse]

theorem getLast?_of_objectSpelling {kept : Bool} {depth : Nat} {fields : List (Text × Value)}
    {s : Text} (h : Spelling kept depth (.object fields) s) : s.getLast? = some '\x7d' := by
  cases h with
  | @emptyObject s => rw [← List.cons_append, List.getLast?_concat]
  | @object _ s => rw [← List.cons_append, List.getLast?_concat]

/-- No object goes on behind its closing brace. -/
theorem eq_nil_of_objectSpelling_append {fields fields' : List (Text × Value)} {s y : Text}
    (h : Spelling true 1 (.object fields) s)
    (h' : Spelling true 1 (.object fields') (s ++ y)) : y = [] := by
  -- Both are read as the only item of an array.
  let frame : Frame LexiconPlace := .item .content []
  have hread : lexiconSchema.shapeless.readFrom (.afterItem .content [.object fields] [])
      (y ++ [']']) = .ok (.array [.object fields']) := by
    have hfirst := readFrom_shapeless_of_objectSpelling h .content frame (y ++ [']'])
    have hsecond := readFrom_shapeless_of_objectSpelling h' .content frame [']']
    rw [List.append_assoc, hfirst] at hsecond
    exact hsecond
  obtain ⟨a, c, text, hsplit, spaces, hspace, hstep⟩ :=
    (lexiconSchema.shapeless.rests (.afterItem .content [.object fields] []) rfl).exists_of_readFrom
      rfl hread
  rcases cases_of_readOn_afterItem hspace hstep with ⟨rfl, hdone⟩ | ⟨rfl, next, hitem, hmore⟩
  · obtain ⟨-, behind⟩ := readFrom_done_eq_ok_iff.mp hdone
    rcases List.eq_nil_or_concat y with hnil | ⟨before, last, hconcat⟩
    · exact hnil
    · have hlast := getLast?_of_objectSpelling h'
      rw [hconcat, List.concat_eq_append, ← List.append_assoc, List.getLast?_concat] at hlast
      obtain rfl := Option.some.inj hlast
      have hbrace : '\x7d' ∈ a ++ ']' :: text := by
        rw [← hsplit, hconcat]
        simp
      rcases List.mem_append.mp hbrace with hmem | hmem
      · exact absurd (spaces _ hmem) (by decide)
      rcases List.mem_cons.mp hmem with hmem | hmem
      · exact absurd hmem (by decide)
      · exact absurd (behind _ hmem) (by decide)
  · obtain ⟨items, _, _, -, spells, -, hdone⟩ :=
      lexiconSchema_shapeless_region.exists_itemsSpelling_of_readFrom trivial hitem hmore
    obtain ⟨heq, -⟩ := readFrom_done_eq_ok_iff.mp hdone
    obtain ⟨-, rfl⟩ : _ ∧ items = [] := by simpa using Value.array.inj heq
    cases spells

/-- Behind an object inside another one the outer one may be closed. -/
theorem exists_readFrom_of_beginsObject {text : Text} (h : BeginsObject text)
    (earlier : List (Text × Value)) (code : Text) :
    ∃ rest w, lexiconSchema.shapeless.readFrom (beforeLanguage earlier code) (text ++ rest) =
      .ok w := by
  obtain ⟨fields, rest, spells⟩ := h
  exact ⟨rest ++ ['\x7d'], _, by
    rw [← List.append_assoc]
    exact readFrom_shapeless_of_objectSpelling spells .language _ ['\x7d']⟩

theorem exists_object_of_brace {kept : Bool} {depth : Nat} {value : Value} {s : Text}
    (h : Spelling kept depth value s) (hhead : s.head? = some '\x7b') :
    ∃ fields, value = .object fields := by
  cases h with
  | emptyObject => exact ⟨_, rfl⟩
  | object => exact ⟨_, rfl⟩
  | number _ n spells =>
    obtain ⟨c, s', scan, rfl, hstart, -⟩ := NumberScan.read_of_spelling spells stopsNumber_nil
    obtain rfl := Option.some.inj hhead
    cases hstart
  | _ => cases hhead

theorem exists_brace_of_objectSpelling {kept : Bool} {depth : Nat} {fields : List (Text × Value)}
    {p b : Text} (h : Spelling kept depth (.object fields) (p ++ b)) (hp : p ≠ []) :
    ∃ q, p = '\x7b' :: q := by
  obtain ⟨c, q, rfl⟩ := List.exists_cons_of_ne_nil hp
  have hhead {s : Text} (h : Spelling kept depth (.object fields) s) : s.head? = some '\x7b' := by
    cases h <;> rfl
  obtain rfl := Option.some.inj (hhead h)
  exact ⟨q, rfl⟩

/-- What is read on within an object goes on with it. -/
theorem beginsObject_of_readFrom {fields : List (Text × Value)} {p b : Text} {c : Char}
    (spells : Spelling true 1 (.object fields) (p ++ b)) (hp : p ≠ []) (hb : b ≠ [])
    {earlier : List (Text × Value)} {code text : Text} {w : Value}
    (hread : lexiconSchema.shapeless.readFrom (beforeLanguage earlier code) (p ++ c :: text) =
      .ok w) : BeginsObject (p ++ [c]) := by
  obtain ⟨q, hq⟩ := exists_brace_of_objectSpelling spells hp
  obtain ⟨a, value, s, rest, hsplit, spaces, spells', -, -⟩ :=
    lexiconSchema_shapeless_region.exists_spelling_of_readFrom trivial hread
  -- The value that is read begins with the same brace.
  have hnil : a = [] := by
    cases a with
    | nil => rfl
    | cons d a =>
      rw [hq, List.cons_append, List.cons_append] at hsplit
      obtain ⟨rfl, -⟩ := List.cons.inj hsplit
      exact absurd (spaces _ List.mem_cons_self) (by decide)
  rw [hnil, List.nil_append] at hsplit
  obtain ⟨fields', rfl⟩ : ∃ fields', value = .object fields' := by
    refine exists_object_of_brace spells' ?_
    obtain ⟨d, s', rfl, -⟩ := head_of_spelling spells'
    rw [hq, List.cons_append, List.cons_append] at hsplit
    obtain ⟨rfl, -⟩ := List.cons.inj hsplit
    rfl
  rcases List.append_eq_append_iff.mp hsplit with ⟨z, rfl, hz⟩ | ⟨z, rfl, -⟩
  · cases z with
    | nil =>
      rw [List.append_nil] at spells'
      exact absurd (eq_nil_of_objectSpelling_append spells' spells) hb
    | cons d z =>
      obtain ⟨rfl, -⟩ := List.cons.inj hz
      exact ⟨fields', z, by simpa using spells'⟩
  · rw [List.append_assoc] at spells
    have hnil := eq_nil_of_objectSpelling_append spells' spells
    exact absurd (List.append_eq_nil_iff.mp hnil).2 hb

/-! ## Where the reading stands -/

/-- How deep the places of a lexicon stand. -/
theorem place_of_leads {place : LexiconPlace} {stack : List (Frame LexiconPlace)}
    (h : lexiconSchema.Leads .lexicon place stack) :
    (place = .lexicon ∧ stack.length = 0) ∨ (place = .language ∧ stack.length = 1)
      ∨ (place = .label ∧ stack.length = 2) ∨ place = .content := by
  induction h with
  | first => exact .inl ⟨rfl, rfl⟩
  | @item place next items stack leads hitem ih =>
    cases place with
    | content => exact .inr (.inr (.inr (Option.some.inj hitem).symm))
    | _ => cases hitem
  | @member place next members key stack leads hmember ih =>
    rcases ih with ⟨rfl, hlen⟩ | ⟨rfl, hlen⟩ | ⟨rfl, hlen⟩ | rfl
    · obtain rfl := Option.some.inj hmember
      exact .inr (.inl ⟨rfl, by rw [List.length_cons, hlen]⟩)
    · rw [language_takesOnce] at hmember
      split at hmember
      · cases hmember
      · obtain rfl := Option.some.inj hmember
        by_cases hname : isNameKey key = true
        · simp [hname, hlen]
        · simp [hname]
    · cases hmember
    · obtain rfl := Option.some.inj hmember
      exact .inr (.inr (.inr rfl))

theorem roomFor_of_leads {place : LexiconPlace} {stack : List (Frame LexiconPlace)}
    (h : lexiconSchema.Leads .lexicon place stack) : lexiconSchema.RoomFor place stack := by
  rcases place_of_leads h with ⟨-, hlen⟩ | ⟨-, hlen⟩ | ⟨-, hlen⟩ | rfl
  · exact fun _ => by rw [hlen]; decide
  · exact fun _ => by rw [hlen]; decide
  · exact fun _ => by rw [hlen]; decide
  · rintro (h | h) <;> cases h

theorem leadsTo_beforeLanguage (earlier : List (Text × Value)) (code : Text) :
    lexiconSchema.LeadsTo .lexicon (beforeLanguage earlier code) :=
  Leads.member .first rfl

/-- Where the reading stands behind the start of a language that names it well. -/
structure Standing (earlier : List (Text × Value)) (code : Text) (p : Text)
    (state : State LexiconPlace) : Prop where
  run : lexiconSchema.run (beforeLanguage earlier code) p = .ok state
  shapelessRun : lexiconSchema.shapeless.run (beforeLanguage earlier code) p = .ok state
  leadsTo : lexiconSchema.LeadsTo .lexicon state
  number : ∀ place scan stack, state = .number place scan stack → place = .content
  notDone : ∀ value, state ≠ .done value

theorem place_of_fits_number {place : LexiconPlace} {n : Number}
    (h : lexiconSchema.fits place (.number n) = true) : place = .content := by
  cases place <;> first | rfl | cases h

/-- Before its last brace a language that is named well is cut off, and at this brace the shape of
its other members is judged. -/
theorem exists_of_languageSpelling {fields : List (Text × Value)} {s : Text}
    (spells : Spelling true 1 (.object fields) s) (named : WellNamed fields)
    (earlier : List (Text × Value)) (code : Text) :
    ∃ body, s = body ++ ['\x7d']
      ∧ lexiconSchema.readFrom (beforeLanguage earlier code) body = .error .truncated
      ∧ ∀ rest, lexiconSchema.readFrom (beforeLanguage earlier code) (body ++ '\x7d' :: rest) =
          lexiconSchema.readOn (lexiconSchema.closeObject .language fields.reverse
            [.member .lexicon earlier code]) rest := by
  have inside : Spelling true [Frame.member LexiconPlace.lexicon earlier code].length
      (.object fields) s := spells
  exact lexiconSchema_region.exists_of_objectSpelling trivial inside rfl named.acceptsMembers

/-- Without the judgement of its shape such a language is read. -/
theorem exists_readFrom_unclosed {fields : List (Text × Value)} {s : Text}
    (spells : Spelling true 1 (.object fields) s) (named : WellNamed fields)
    (earlier : List (Text × Value)) (code : Text) :
    ∃ w, lexiconSchema.unclosed.readFrom (beforeLanguage earlier code) (s ++ ['\x7d']) = .ok w := by
  have inside : Spelling true [Frame.member LexiconPlace.lexicon earlier code].length
      (.object fields) s := spells
  have region : lexiconSchema.unclosed.Region true fun _ => True :=
    ⟨fun _ => rfl, fun _ _ => trivial, fun _ _ => trivial⟩
  have haccepts : lexiconSchema.unclosed.accepts .language (.object fields) = true := by
    rw [accepts, (unclosed_loosens lexiconSchema).acceptsMembers named.acceptsMembers]
    rfl
  exact ⟨_, region.readFrom_of_spelling trivial inside haccepts
    (stopsNumber_cons (.inr (.inr rfl)) [])⟩

theorem exists_standing {p : Text} (h : OpensLanguage p) (earlier : List (Text × Value))
    (code : Text) : ∃ state, Standing earlier code p state := by
  obtain ⟨fields, rest, named, hne, spells⟩ := h
  -- Before the last brace nothing is found to be wrong, whatever the shape of the other members.
  obtain ⟨state, hrun⟩ :
      ∃ state, lexiconSchema.run (beforeLanguage earlier code) p = .ok state := by
    obtain ⟨body, hbody, hcut, -⟩ := exists_of_languageSpelling spells named earlier code
    obtain ⟨before, last, rfl⟩ : ∃ before last, rest = before ++ [last] := by
      simpa [hne] using List.eq_nil_or_concat rest
    rw [← List.append_assoc] at hbody
    obtain ⟨rfl, -⟩ := List.append_inj' hbody rfl
    obtain ⟨_, hall⟩ := exists_run_of_truncated hcut
    obtain ⟨state, hstate, -⟩ := exists_run_of_run_append hall
    exact ⟨state, hstate⟩
  have hshapeless := (shapeless_loosens _).run_eq_ok (shapeless_takesAll _) hrun
  obtain ⟨w, hread⟩ : ∃ w, lexiconSchema.unclosed.readFrom state (rest ++ ['\x7d']) = .ok w := by
    obtain ⟨w, hall⟩ := exists_readFrom_unclosed spells named earlier code
    rw [List.append_assoc] at hall
    obtain ⟨later, hlater, hread⟩ := exists_run_of_readFrom_append hall
    have hsame := (shapeless_loosens lexiconSchema.unclosed).run_eq_ok (shapeless_takesAll _) hlater
    obtain rfl : state = later := Except.ok.inj (hshapeless.symm.trans hsame)
    exact ⟨w, hread⟩
  refine ⟨state, hrun, hshapeless, run_leadsTo (leadsTo_beforeLanguage earlier code) hrun, ?_, ?_⟩
  · rintro place scan stack rfl
    obtain ⟨n, hfits⟩ := exists_fits_of_readFrom_number hread
    exact place_of_fits_number hfits
  · rintro value rfl
    obtain ⟨-, spaces⟩ := readFrom_done_eq_ok_iff.mp hread
    exact absurd (spaces '\x7d' (by simp)) (by decide)

theorem Standing.hidesNothing {earlier : List (Text × Value)} {code p : Text}
    {state : State LexiconPlace} (h : Standing earlier code p state) :
    lexiconSchema.HidesNothing state := by
  have hleads := h.leadsTo
  cases state with
  | value place stack => exact roomFor_of_leads hleads
  | firstItem place stack => exact fun _ hitem => roomFor_of_leads (.item hleads hitem)
  | number place scan stack =>
    obtain rfl := h.number _ _ _ rfl
    exact fun _ => rfl
  | _ => exact trivial

end FeatureLines
