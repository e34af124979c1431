import FeatureLines.Keyword.Build

/-!
# Which vocabularies have tables

A vocabulary fills a keyword list if it has the list and, where the kind of the
list is required (`LineKind.required`: the five section headers and the three
steps), the list is not empty. `entriesOf_eq_ok_iff` and
`entriesOf_eq_error_iff` say of any keyword lists what the builder makes of
them: if all are filled, the entries of one list after the other, and otherwise
the fault of the first that is not. `table_iff_fills_keywordLists` is the case of the ten
lists of a table, with what can be read back from the table.
-/

namespace FeatureLines

/-- The keyword of an entry of the list, which is its lead without the separator. -/
def KeywordList.keywordOf (list : KeywordList) (entry : Entry) : Text :=
  entry.lead.take (entry.lead.length - list.separator.length)

theorem KeywordList.keywordOf_entry (list : KeywordList) (keyword : Text) :
    list.keywordOf (list.entry keyword) = keyword := by
  simp [keywordOf, entry]

theorem KeywordList.map_keywordOf_map_entry (list : KeywordList) (words : List Text) :
    (words.map list.entry).map list.keywordOf = words := by
  simp [Function.comp_def, keywordOf_entry]

namespace Vocabulary

/-- The vocabulary has the list, with a keyword in it if its kind is required. -/
def Fills (vocabulary : Vocabulary) (list : KeywordList) : Prop :=
  ∃ words, vocabulary.list? list.key = some words ∧ (list.kind ∈ LineKind.required → words ≠ [])

/-- The error that reports a list which is not filled. -/
inductive FaultAt (language : Text) (vocabulary : Vocabulary) (list : KeywordList) :
    BuildError → Prop where
  | missing (absent : vocabulary.list? list.key = none) :
      FaultAt language vocabulary list (.missingList language list.key)
  | empty (present : vocabulary.list? list.key = some [])
      (required : list.kind ∈ LineKind.required) :
      FaultAt language vocabulary list (.emptyList language list.key)

/-- The keywords under a key, none if there is no such list. -/
def wordsOf (vocabulary : Vocabulary) (key : Text) : List Text :=
  (vocabulary.list? key).getD []

theorem wordsOf_eq {vocabulary : Vocabulary} {key : Text} {words : List Text}
    (h : vocabulary.list? key = some words) : vocabulary.wordsOf key = words := by
  rw [wordsOf, h, Option.getD_some]

theorem Fills.list?_eq {vocabulary : Vocabulary} {list : KeywordList}
    (h : vocabulary.Fills list) :
    vocabulary.list? list.key = some (vocabulary.wordsOf list.key) := by
  obtain ⟨words, hwords, -⟩ := h
  rw [wordsOf_eq hwords, hwords]

theorem FaultAt.unique {language : Text} {vocabulary : Vocabulary} {list : KeywordList}
    {a b : BuildError} (ha : FaultAt language vocabulary list a)
    (hb : FaultAt language vocabulary list b) : a = b := by
  cases ha with
  | missing absent =>
    cases hb with
    | missing => rfl
    | empty present => rw [absent] at present; cases present
  | empty present =>
    cases hb with
    | missing absent => rw [absent] at present; cases present
    | empty => rfl

theorem FaultAt.not_fills {language : Text} {vocabulary : Vocabulary} {list : KeywordList}
    {error : BuildError} (h : FaultAt language vocabulary list error) :
    ¬ vocabulary.Fills list := by
  rintro ⟨words, hwords, hne⟩
  cases h with
  | missing absent => rw [absent] at hwords; cases hwords
  | empty present required =>
    rw [present] at hwords
    exact hne required (Option.some.inj hwords).symm

/-! ## One list after the other -/

/-- The builder passes a list that is filled and stops at one that is not. -/
theorem entriesOf_cons (language : Text) (vocabulary : Vocabulary) (list : KeywordList)
    (lists : List KeywordList) :
    (vocabulary.Fills list ∧ vocabulary.entriesOf language (list :: lists) =
        (vocabulary.entriesOf language lists).map
          ((vocabulary.wordsOf list.key).map list.entry ++ ·))
      ∨ ∃ error, FaultAt language vocabulary list error
        ∧ vocabulary.entriesOf language (list :: lists) = .error error := by
  simp only [entriesOf]
  cases hlist : vocabulary.list? list.key with
  | none => exact Or.inr ⟨_, .missing hlist, rfl⟩
  | some words =>
    by_cases hempty : words.isEmpty = true ∧ list.kind.isRequired = true
    · obtain ⟨hwords, hrequired⟩ := hempty
      obtain rfl := List.isEmpty_iff.mp hwords
      have hkind : list.kind ∈ LineKind.required := LineKind.isRequired_iff.mp hrequired
      exact Or.inr ⟨_, .empty hlist hkind, by simp [hrequired]⟩
    · refine Or.inl ⟨⟨words, hlist, fun hkind hwords => hempty ⟨?_, ?_⟩⟩, ?_⟩
      · rw [hwords]; rfl
      · exact LineKind.isRequired_iff.mpr hkind
      · rw [← Bool.and_eq_true] at hempty
        rw [wordsOf_eq hlist]
        dsimp only
        rw [if_neg hempty]
        cases vocabulary.entriesOf language lists <;> rfl

theorem entriesOf_eq_ok_iff {language : Text} {vocabulary : Vocabulary}
    {lists : List KeywordList} {entries : List Entry} :
    vocabulary.entriesOf language lists = .ok entries ↔
      (∀ list ∈ lists, vocabulary.Fills list)
        ∧ entries = lists.flatMap fun list => (vocabulary.wordsOf list.key).map list.entry := by
  induction lists generalizing entries with
  | nil => simp [entriesOf, eq_comm]
  | cons list lists ih =>
    rw [List.forall_mem_cons, List.flatMap_cons]
    rcases entriesOf_cons language vocabulary list lists with ⟨hfills, heq⟩ | ⟨error, hfault, heq⟩
    · rw [heq]
      constructor
      · intro h
        cases hrest : vocabulary.entriesOf language lists with
        | error error => rw [hrest] at h; cases h
        | ok following =>
          rw [hrest] at h
          obtain ⟨hall, hfollowing⟩ := ih.mp hrest
          exact ⟨⟨hfills, hall⟩, by rw [← Except.ok.inj h, hfollowing]⟩
      · rintro ⟨⟨-, hall⟩, rfl⟩
        rw [ih.mpr ⟨hall, rfl⟩]
        rfl
    · rw [heq]
      constructor
      · intro h; cases h
      · rintro ⟨⟨hfills, -⟩, -⟩
        exact absurd hfills hfault.not_fills

theorem entriesOf_eq_error_iff {language : Text} {vocabulary : Vocabulary}
    {lists : List KeywordList} {error : BuildError} :
    vocabulary.entriesOf language lists = .error error ↔
      ∃ before list after, lists = before ++ list :: after
        ∧ (∀ earlier ∈ before, vocabulary.Fills earlier)
        ∧ FaultAt language vocabulary list error := by
  induction lists with
  | nil => simp [entriesOf]
  | cons list lists ih =>
    rcases entriesOf_cons language vocabulary list lists with ⟨hfills, heq⟩ | ⟨fault, hfault, heq⟩
    · rw [heq]
      constructor
      · intro h
        cases hrest : vocabulary.entriesOf language lists with
        | ok following => rw [hrest] at h; cases h
        | error found =>
          rw [hrest] at h
          obtain rfl := Except.error.inj h
          obtain ⟨before, at', after, rfl, hbefore, hat⟩ := ih.mp hrest
          exact ⟨list :: before, at', after, rfl, List.forall_mem_cons.mpr ⟨hfills, hbefore⟩, hat⟩
      · rintro ⟨before, at', after, hsplit, hbefore, hat⟩
        cases before with
        | nil =>
          obtain ⟨rfl, -⟩ := List.cons.inj hsplit
          exact absurd hfills hat.not_fills
        | cons first before =>
          obtain ⟨-, rfl⟩ := List.cons.inj hsplit
          rw [ih.mpr ⟨before, at', after, rfl, (List.forall_mem_cons.mp hbefore).2, hat⟩]
          rfl
    · rw [heq]
      constructor
      · intro h
        obtain rfl := Except.error.inj h
        exact ⟨[], list, lists, rfl, by simp, hfault⟩
      · rintro ⟨before, at', after, hsplit, hbefore, hat⟩
        cases before with
        | nil =>
          obtain ⟨rfl, -⟩ := List.cons.inj hsplit
          rw [hat.unique hfault]
        | cons first before =>
          obtain ⟨rfl, -⟩ := List.cons.inj hsplit
          exact absurd (hbefore list (by simp)) hfault.not_fills

/-! ## Reading a table back -/

theorem filter_map_entry (list : KeywordList) (words : List Text) (kind : LineKind) :
    (words.map list.entry).filter (fun entry => entry.kind == kind) =
      if list.kind = kind then words.map list.entry else [] := by
  rw [List.filter_map]
  by_cases h : list.kind = kind
  · rw [if_pos h, List.filter_eq_self.mpr (fun word _ => by simp [KeywordList.entry, h])]
  · rw [if_neg h, List.filter_eq_nil_iff.mpr (fun word _ => by simp [KeywordList.entry, h])]
    rfl

/-- The entries of one kind are those of the lists of this kind. -/
theorem filter_flatMap_entry (vocabulary : Vocabulary) (lists : List KeywordList)
    (kind : LineKind) :
    (lists.flatMap fun list => (vocabulary.wordsOf list.key).map list.entry).filter
        (fun entry => entry.kind == kind) =
      (lists.filter fun list => list.kind == kind).flatMap fun list =>
        (vocabulary.wordsOf list.key).map list.entry := by
  induction lists with
  | nil => rfl
  | cons list lists ih =>
    rw [List.flatMap_cons, List.filter_append, ih, filter_map_entry, List.filter_cons]
    by_cases h : list.kind = kind <;> simp [h]

/-- Each required kind has one list. -/
theorem filter_keywordLists_of_required :
    ∀ list ∈ keywordLists, list.kind ∈ LineKind.required →
      keywordLists.filter (fun other => other.kind == list.kind) = [list] := by
  decide

theorem filter_keywordLists_continuation :
    keywordLists.filter (fun list => list.kind == .continuation) =
      [⟨"and".toList, .continuation, []⟩, ⟨"but".toList, .continuation, []⟩] := by
  decide

theorem table_eq_ok_iff {language : Text} {vocabulary : Vocabulary} {table : Table} :
    vocabulary.table language = .ok table ↔
      ∃ entries, vocabulary.entriesOf language keywordLists = .ok entries
        ∧ table.entries = ⟨tagLead, .tag⟩ :: entries := by
  obtain ⟨found⟩ := table
  rw [Vocabulary.table]
  cases vocabulary.entriesOf language keywordLists with
  | error error => simp
  | ok entries => simp [eq_comm]

theorem table_eq_error_iff {language : Text} {vocabulary : Vocabulary} {error : BuildError} :
    vocabulary.table language = .error error ↔
      vocabulary.entriesOf language keywordLists = .error error := by
  rw [Vocabulary.table]
  cases vocabulary.entriesOf language keywordLists <;> simp

/-- A vocabulary has a table exactly when it fills the ten lists. The table then holds the tag
lead and one entry for each keyword, list after list, and the lists can be read back from it.
Otherwise the error is that of the first list which is not filled. -/
theorem table_iff_fills_keywordLists (language : Text) (vocabulary : Vocabulary) :
    ((∃ table, vocabulary.table language = .ok table) ↔
        ∀ list ∈ keywordLists, vocabulary.Fills list)
      ∧ (∀ table, vocabulary.table language = .ok table →
        table.entries = ⟨tagLead, .tag⟩ :: (keywordLists.flatMap fun list =>
            (vocabulary.wordsOf list.key).map fun word => ⟨word ++ list.separator, list.kind⟩)
          ∧ (∀ list ∈ keywordLists, list.kind ∈ LineKind.required →
            vocabulary.list? list.key =
              some ((table.entries.filter fun entry => entry.kind == list.kind).map
                list.keywordOf))
          ∧ ∃ ands buts, vocabulary.list? "and".toList = some ands
            ∧ vocabulary.list? "but".toList = some buts
            ∧ (table.entries.filter fun entry => entry.kind == .continuation).map (·.lead) =
              ands ++ buts)
      ∧ ∀ error, vocabulary.table language = .error error ↔
        ∃ before list after, keywordLists = before ++ list :: after
          ∧ (∀ earlier ∈ before, vocabulary.Fills earlier)
          ∧ FaultAt language vocabulary list error := by
  refine ⟨⟨?_, fun hall => ?_⟩, ?_, fun error => ?_⟩
  · rintro ⟨table, htable⟩
    obtain ⟨entries, hentries, -⟩ := table_eq_ok_iff.mp htable
    exact (entriesOf_eq_ok_iff.mp hentries).1
  · exact ⟨⟨_⟩, table_eq_ok_iff.mpr ⟨_, entriesOf_eq_ok_iff.mpr ⟨hall, rfl⟩, rfl⟩⟩
  · intro table htable
    obtain ⟨entries, hentries, htable⟩ := table_eq_ok_iff.mp htable
    obtain ⟨hall, rfl⟩ := entriesOf_eq_ok_iff.mp hentries
    -- The tag lead stands in the way of no other kind.
    have hfilter : ∀ kind, kind ≠ LineKind.tag →
        table.entries.filter (fun entry => entry.kind == kind) =
          (keywordLists.filter fun list => list.kind == kind).flatMap fun list =>
            (vocabulary.wordsOf list.key).map list.entry := by
      intro kind hkind
      rw [htable, List.filter_cons_of_neg (by simpa using Ne.symm hkind), filter_flatMap_entry]
    refine ⟨htable, ?_, ?_⟩
    · intro list hlist hrequired
      have hkind : list.kind ≠ .tag := fun h => absurd (h ▸ hrequired) (by decide)
      rw [hfilter _ hkind, filter_keywordLists_of_required list hlist hrequired,
        List.flatMap_singleton, KeywordList.map_keywordOf_map_entry]
      exact (hall list hlist).list?_eq
    · refine ⟨_, _, (hall ⟨"and".toList, .continuation, []⟩ (by decide)).list?_eq,
        (hall ⟨"but".toList, .continuation, []⟩ (by decide)).list?_eq, ?_⟩
      rw [hfilter _ (by decide), filter_keywordLists_continuation]
      simp [KeywordList.entry, Function.comp_def]
  · rw [table_eq_error_iff, entriesOf_eq_error_iff]

end Vocabulary

end FeatureLines
