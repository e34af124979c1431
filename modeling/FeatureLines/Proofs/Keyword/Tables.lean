import FeatureLines.Keyword.Parse
import FeatureLines.Proofs.Keyword.Build
import FeatureLines.Proofs.Text.Utf8

/-!
# The tables of a lexicon

A lexicon has tables for all of its languages or for none. Each language is built
from its own vocabulary alone, in the order of codes, and the first that fails is
the failure of the whole (`TextMap.exists_traverse_eq_ok_iff`,
`TextMap.traverse_eq_error_iff`). A lexicon is sorted by its codes, so the order
in which a text gives its languages is lost before any table is built
(`Lexicon.ofMembers_eq_of_perm`).

`Table.Arranged` is what all tables have in common, whatever the language. The
order of kinds in a table is the order of the keyword lists, and the lists stand
in the order of their kinds.
-/

namespace FeatureLines

/-! ## What tables have in common -/

/-- The tag lead comes first and is the only entry for tags, every required kind has a lead, and
the kinds stand in their order. -/
structure Table.Arranged (table : Table) : Prop where
  tagFirst : table.entries.head? = some ⟨"@".toList, .tag⟩
  tagOnce : ∀ entry ∈ table.entries.tail, entry.kind ≠ .tag
  required : ∀ kind ∈ LineKind.required, table.contains kind = true
  ordered : (table.entries.map (·.kind)).Pairwise (· ≤ ·)

/-- No keyword list is one of tags. -/
theorem kind_ne_tag_of_mem_keywordLists : ∀ list ∈ keywordLists, list.kind ≠ .tag := by
  decide

theorem exists_mem_keywordLists_of_required :
    ∀ kind ∈ LineKind.required, ∃ list ∈ keywordLists, list.kind = kind := by
  decide

theorem LineKind.tag_le (kind : LineKind) : LineKind.tag ≤ kind := Nat.zero_le kind.rank

namespace Vocabulary

theorem kind_of_mem_flatMap_entry {vocabulary : Vocabulary} {lists : List KeywordList}
    {entry : Entry}
    (h : entry ∈ lists.flatMap fun list => (vocabulary.wordsOf list.key).map list.entry) :
    ∃ list ∈ lists, entry.kind = list.kind := by
  obtain ⟨list, hlist, hentry⟩ := List.mem_flatMap.mp h
  obtain ⟨word, -, rfl⟩ := List.mem_map.mp hentry
  exact ⟨list, hlist, rfl⟩

/-- Entries stand in the order of kinds if their lists do. -/
theorem pairwise_kind_flatMap_entry (vocabulary : Vocabulary) {lists : List KeywordList}
    (h : lists.Pairwise fun a b => a.kind ≤ b.kind) :
    (lists.flatMap fun list => (vocabulary.wordsOf list.key).map list.entry).Pairwise
      fun a b => a.kind ≤ b.kind := by
  rw [List.pairwise_flatMap]
  constructor
  · intro list _
    have hsame : ∀ a b : Text, (list.entry a).kind ≤ (list.entry b).kind :=
      fun a b => Nat.le_refl list.kind.rank
    exact List.pairwise_map.mpr (List.pairwise_of_forall hsame)
  · refine h.imp ?_
    intro first second hle a ha b hb
    obtain ⟨word, -, rfl⟩ := List.mem_map.mp ha
    obtain ⟨other, -, rfl⟩ := List.mem_map.mp hb
    exact hle

theorem exists_entry_of_fills {vocabulary : Vocabulary} {list : KeywordList}
    (h : vocabulary.Fills list) (required : list.kind ∈ LineKind.required) :
    ∃ entry ∈ (vocabulary.wordsOf list.key).map list.entry, entry.kind = list.kind := by
  obtain ⟨words, hwords, hne⟩ := h
  obtain ⟨word, others, rfl⟩ := List.exists_cons_of_ne_nil (hne required)
  rw [wordsOf_eq hwords]
  exact ⟨list.entry word, List.mem_map_of_mem List.mem_cons_self, rfl⟩

theorem arranged_of_table {language : Text} {vocabulary : Vocabulary} {table : Table}
    (h : vocabulary.table language = .ok table) : table.Arranged := by
  obtain ⟨entries, hbuilt, hentries⟩ := table_eq_ok_iff.mp h
  obtain ⟨hfills, rfl⟩ := entriesOf_eq_ok_iff.mp hbuilt
  constructor
  case tagFirst =>
    rw [hentries]
    rfl
  case tagOnce =>
    rw [hentries, List.tail_cons]
    intro entry hentry
    obtain ⟨list, hlist, hkind⟩ := kind_of_mem_flatMap_entry hentry
    rw [hkind]
    exact kind_ne_tag_of_mem_keywordLists list hlist
  case required =>
    intro kind hrequired
    obtain ⟨list, hlist, rfl⟩ := exists_mem_keywordLists_of_required kind hrequired
    obtain ⟨entry, hentry, hkind⟩ := exists_entry_of_fills (hfills list hlist) hrequired
    refine List.any_eq_true.mpr ⟨entry, ?_, by simp [hkind]⟩
    rw [hentries]
    exact List.mem_cons_of_mem _ (List.mem_flatMap.mpr ⟨list, hlist, hentry⟩)
  case ordered =>
    rw [hentries, List.map_cons, List.pairwise_cons]
    refine ⟨fun kind _ => kind.tag_le, ?_⟩
    exact List.pairwise_map.mpr (pairwise_kind_flatMap_entry vocabulary pairwise_kind_keywordLists)

end Vocabulary

/-! ## All languages or none -/

namespace Lexicon

/-- Every language of the lexicon has a table. -/
def AllBuild (lexicon : Lexicon) : Prop :=
  ∀ code vocabulary, lexicon.get? code = some vocabulary →
    ∃ table, vocabulary.table code = .ok table

/-- The error is that of the first language in the order of bytes that has no table. -/
def FirstFault (lexicon : Lexicon) (error : BuildError) : Prop :=
  ∃ code vocabulary, lexicon.get? code = some vocabulary
    ∧ vocabulary.table code = .error error
    ∧ ∀ earlier other, lexicon.get? earlier = some other →
      Utf8.encode earlier < Utf8.encode code → ∃ table, other.table earlier = .ok table

theorem tables_eq_error_iff {lexicon : Lexicon} {error : BuildError} :
    lexicon.tables = .error error ↔ lexicon.FirstFault error := by
  unfold tables FirstFault
  simp only [TextMap.traverse_eq_error_iff, Utf8.encode_lt_encode_iff]

theorem arranged_of_tables {lexicon : Lexicon} {tables : TextMap Table}
    (h : lexicon.tables = .ok tables) {code : Text} {table : Table}
    (htable : tables.get? code = some table) : table.Arranged := by
  have hcode : code ∈ lexicon.keys := by
    rw [← TextMap.keys_of_traverse h, TextMap.mem_keys_iff, htable]
    rfl
  obtain ⟨vocabulary, hvocabulary⟩ := Option.isSome_iff_exists.mp (TextMap.mem_keys_iff.mp hcode)
  obtain ⟨built, hbuilt, hget⟩ := TextMap.exists_of_traverse h hvocabulary
  obtain rfl := Option.some.inj (hget.symm.trans htable)
  exact Vocabulary.arranged_of_table hbuilt

/-- The order in which different languages are given does not matter. -/
theorem ofMembers_eq_of_perm {members others : List (Text × Json.Value)}
    (perm : others.Perm members) (nodup : (members.map (·.1)).Nodup) :
    ofMembers others = ofMembers members := by
  refine TextMap.ofList_eq_of_perm (perm.map _) ?_
  rw [List.map_map]
  exact nodup

/-- A lexicon has tables exactly when each of its languages has one. Its codes then have the table
of their own vocabulary each, all of them arranged alike. Otherwise there are no tables, and the
error is that of the first language which has none, in whatever order the languages were given. -/
theorem tables_iff_allBuild (lexicon : Lexicon) :
    ((∃ tables, lexicon.tables = .ok tables) ↔ lexicon.AllBuild)
      ∧ (∀ tables, lexicon.tables = .ok tables →
        tables.keys = lexicon.keys
          ∧ (∀ code vocabulary, lexicon.get? code = some vocabulary →
            ∃ table, vocabulary.table code = .ok table ∧ tables.get? code = some table)
          ∧ ∀ code table, tables.get? code = some table → table.Arranged)
      ∧ (∀ error, lexicon.tables = .error error ↔ lexicon.FirstFault error)
      ∧ ∀ members others : List (Text × Json.Value), lexicon = ofMembers members →
        others.Perm members → (members.map (·.1)).Nodup →
          (ofMembers others).tables = lexicon.tables := by
  refine ⟨TextMap.exists_traverse_eq_ok_iff, ?_, fun error => tables_eq_error_iff, ?_⟩
  · intro tables htables
    refine ⟨TextMap.keys_of_traverse htables, ?_, ?_⟩
    · intro code vocabulary hvocabulary
      exact TextMap.exists_of_traverse htables hvocabulary
    · intro code table htable
      exact arranged_of_tables htables htable
  · intro members others hmembers perm nodup
    rw [hmembers, ofMembers_eq_of_perm perm nodup]

end Lexicon

end FeatureLines
