import FeatureLines.Proofs.Document.Recognition
import FeatureLines.Proofs.Keyword.Tables

/-!
# Which keyword takes precedence

A line may start with many leads of a table, and the first of them in the table is
taken. What comes first there is settled by two orders: that of the kinds, and
within one kind that in which the vocabulary gives the keywords. `Table.LeastFor`
states the entry by these two orders, without the table's own.

The kind is least because the kinds of a table stand in their order
(`Table.Arranged`), so whatever stands behind an entry has no lesser kind. The
keyword is the first of its kind because the entries of one kind are the leads of
the vocabulary, each in its place (`Vocabulary.leads_of_table`). Conversely the two
orders leave no choice (`firstLead_unique`), so the entry is found from them alone.
-/

namespace FeatureLines

/-! ## The order of kinds -/

/-- What does not come behind the section headers is no step. -/
theorem LineKind.no_step_of_le_section {kind header : LineKind} (isHeader : header ∈ sections)
    (h : kind ≤ header) : kind = .tag ∨ kind ∈ sections := by
  revert isHeader h
  cases kind <;> cases header <;> decide

/-! ## Leads of one kind -/

/-- The leads of one kind as the vocabulary gives them: the tag lead, or the keywords of the lists
of this kind with their separators, list after list. -/
def Vocabulary.leadsOf (vocabulary : Vocabulary) : LineKind → List Text
  | .tag => [tagLead]
  | kind => (keywordLists.filter fun list => list.kind == kind).flatMap fun list =>
      (vocabulary.wordsOf list.key).map fun word => word ++ list.separator

/-- The lead is the first of the leads that starts the text. -/
def FirstLead (leads : List Text) (text lead : Text) : Prop :=
  ∃ before after, leads = before ++ lead :: after ∧ (∀ earlier ∈ before, ¬ earlier <+: text)
    ∧ lead <+: text

/-- No lead of a lesser kind starts the text, and none of the same kind that the vocabulary gives
before this one. -/
structure Table.LeastFor (table : Table) (vocabulary : Vocabulary) (text : Text) (entry : Entry) :
    Prop where
  mem : entry ∈ table.entries
  least : ∀ other ∈ table.entries, other.lead <+: text → entry.kind ≤ other.kind
  first : FirstLead (vocabulary.leadsOf entry.kind) text entry.lead

theorem FirstLead.starts {leads : List Text} {text lead : Text} (h : FirstLead leads text lead) :
    lead <+: text := by
  obtain ⟨-, -, -, -, hlead⟩ := h
  exact hlead

theorem FirstLead.find?_eq {leads : List Text} {text lead : Text} (h : FirstLead leads text lead) :
    leads.find? (fun lead => decide (lead <+: text)) = some lead := by
  obtain ⟨before, after, hleads, hbefore, hlead⟩ := h
  refine List.find?_eq_some_iff_append.mpr ⟨decide_eq_true hlead, before, after, hleads, ?_⟩
  intro earlier hearlier
  simpa using hbefore earlier hearlier

theorem firstLead_unique {leads : List Text} {text lead other : Text}
    (h : FirstLead leads text lead) (hother : FirstLead leads text other) : lead = other :=
  Option.some.inj (h.find?_eq.symm.trans hother.find?_eq)

namespace Vocabulary

theorem leadsOf_of_ne_tag (vocabulary : Vocabulary) {kind : LineKind} (h : kind ≠ .tag) :
    vocabulary.leadsOf kind =
      (keywordLists.filter fun list => list.kind == kind).flatMap fun list =>
        (vocabulary.wordsOf list.key).map fun word => word ++ list.separator := by
  cases kind with
  | tag => exact absurd rfl h
  | _ => rfl

/-- The keywords of `And` come before those of `But`. -/
theorem leadsOf_continuation (vocabulary : Vocabulary) :
    vocabulary.leadsOf .continuation =
      vocabulary.wordsOf "and".toList ++ vocabulary.wordsOf "but".toList := by
  rw [leadsOf_of_ne_tag vocabulary (by decide), filter_keywordLists_continuation]
  simp

/-- The entries of one kind have the leads of this kind, each in its place. -/
theorem leads_of_table {language : Text} {vocabulary : Vocabulary} {table : Table}
    (h : vocabulary.table language = .ok table) (kind : LineKind) :
    (table.entries.filter fun entry => entry.kind == kind).map (·.lead) =
      vocabulary.leadsOf kind := by
  obtain ⟨entries, hbuilt, hentries⟩ := table_eq_ok_iff.mp h
  obtain ⟨-, rfl⟩ := entriesOf_eq_ok_iff.mp hbuilt
  rw [hentries]
  by_cases hkind : kind = .tag
  · subst hkind
    have hnone : (keywordLists.filter fun list => list.kind == LineKind.tag) = [] := by decide
    rw [List.filter_cons_of_pos (by rfl), filter_flatMap_entry, hnone]
    rfl
  · rw [List.filter_cons_of_neg (by simpa using Ne.symm hkind), filter_flatMap_entry,
      leadsOf_of_ne_tag vocabulary hkind, List.map_flatMap]
    simp only [List.map_map, Function.comp_def, KeywordList.entry]

end Vocabulary

/-! ## The entry that is taken -/

section

variable {language : Text} {vocabulary : Vocabulary} {table : Table}

/-- In a table that is arranged nothing behind an entry has a lesser kind. -/
theorem Table.Arranged.le_of_append {before after : List Entry} {entry other : Entry}
    (h : table.Arranged) (hentries : table.entries = before ++ entry :: after)
    (hother : other ∈ entry :: after) : entry.kind ≤ other.kind := by
  have hordered := List.pairwise_map.mp h.ordered
  rw [hentries, List.pairwise_append] at hordered
  obtain ⟨-, hbehind, -⟩ := hordered
  rcases List.mem_cons.mp hother with rfl | hafter
  · exact Nat.le_refl _
  · exact (List.pairwise_cons.mp hbehind).1 other hafter

theorem Table.FirstFor.leastFor (h : vocabulary.table language = .ok table) {text : Text}
    {entry : Entry} (hfirst : table.FirstFor text entry) :
    table.LeastFor vocabulary text entry := by
  have hmem := hfirst.mem
  obtain ⟨before, after, hentries, hbefore, hlead⟩ := hfirst
  constructor
  case mem => exact hmem
  case least =>
    intro other hother hstarts
    rw [hentries] at hother
    rcases List.mem_append.mp hother with hearlier | hbehind
    · exact absurd hstarts (hbefore other hearlier)
    · exact (Vocabulary.arranged_of_table h).le_of_append hentries hbehind
  case first =>
    have hleads := Vocabulary.leads_of_table h entry.kind
    rw [hentries, List.filter_append, List.filter_cons_of_pos (by simp), List.map_append,
      List.map_cons] at hleads
    refine ⟨_, _, hleads.symm, ?_, hlead⟩
    intro earlier hearlier
    obtain ⟨other, hother, rfl⟩ := List.mem_map.mp hearlier
    exact hbefore other (List.mem_filter.mp hother).1

theorem Table.LeastFor.unique {text : Text} {entry other : Entry}
    (h : table.LeastFor vocabulary text entry) (hother : table.LeastFor vocabulary text other) :
    entry = other := by
  obtain ⟨lead, kind⟩ := entry
  obtain ⟨otherLead, otherKind⟩ := other
  have hkind : kind = otherKind :=
    LineKind.le_antisymm (h.least _ hother.mem hother.first.starts)
      (hother.least _ h.mem h.first.starts)
  subst hkind
  have hlead : lead = otherLead := firstLead_unique h.first hother.first
  rw [hlead]

theorem Table.match?_eq_some_iff_of_table (h : vocabulary.table language = .ok table)
    {line rest : Text} {entry : Entry} :
    table.match? line = some (entry, rest) ↔
      table.LeastFor vocabulary line entry ∧ line = entry.lead ++ rest := by
  rw [match?_eq_some_iff_firstFor]
  constructor
  · rintro ⟨hfirst, hline⟩
    exact ⟨hfirst.leastFor h, hline⟩
  · rintro ⟨hleast, hline⟩
    cases hmatch : table.match? line with
    | none => exact absurd hleast.first.starts (match?_eq_none_iff.mp hmatch entry hleast.mem)
    | some found =>
      obtain ⟨hfirst, -⟩ := match?_eq_some_iff_firstFor.mp hmatch
      obtain rfl := hleast.unique (hfirst.leastFor h)
      exact ⟨hfirst, hline⟩

/-- What is reported of a line is the match of what stands behind its white space. -/
theorem Classifier.kind_of_classify {classifier : Classifier} {number : Nat} {line rest : Text}
    {report : RecognisedLine} {entry : Entry}
    (h : (classifier.classify number line).1 = some report)
    (hmatch : classifier.table.match? (trimStart line) = some (entry, rest)) :
    report.kind = resolveKind classifier.step entry.kind := by
  cases hrecognise : classifier.table.recognise line with
  | none =>
    rw [classify_of_recognise_eq_none hrecognise] at h
    cases h
  | some found =>
    obtain ⟨content, noComment⟩ := Table.content_of_recognise hrecognise
    have hfound : classifier.table.recognise line = some (entry, rest) :=
      (Table.recognise_eq content noComment).trans hmatch
    rw [classify_of_recognise hfound] at h
    obtain rfl := Option.some.inj h
    rfl

/-- Where a section header could be taken, what is taken is a header or the tag. -/
theorem Table.exists_match?_of_header (h : vocabulary.table language = .ok table) {line : Text}
    {header : Entry} (hmem : header ∈ table.entries) (isHeader : header.kind ∈ LineKind.sections)
    (hstarts : header.lead <+: line) :
    ∃ entry rest, table.match? line = some (entry, rest)
      ∧ (entry.kind = .tag ∨ entry.kind ∈ LineKind.sections) := by
  cases hmatch : table.match? line with
  | none => exact absurd hstarts (match?_eq_none_iff.mp hmatch header hmem)
  | some found =>
    obtain ⟨entry, rest⟩ := found
    obtain ⟨hleast, -⟩ := (match?_eq_some_iff_of_table h).mp hmatch
    exact ⟨entry, rest, rfl,
      LineKind.no_step_of_le_section isHeader (hleast.least header hmem hstarts)⟩

/-- The tag lead is tried before all others. -/
theorem Table.match?_tag (h : vocabulary.table language = .ok table) (rest : Text) :
    table.match? ('@' :: rest) = some (⟨"@".toList, .tag⟩, rest) := by
  obtain ⟨others, hentries⟩ :=
    List.head?_eq_some_iff.mp (Vocabulary.arranged_of_table h).tagFirst
  rw [match?_eq_some_iff]
  exact ⟨[], others, hentries, by simp, rfl⟩

/-- The table gives a line no entry exactly when none of its leads starts the line, and otherwise
the entry that is least for the line: its kind is the least of all that match, and within this kind
its lead is the first that the vocabulary gives. So a line that starts with a section header is not
reported as a step, whatever steps it starts with as well, and a line that starts with the tag lead
is reported as a tag. -/
theorem Table.match?_eq_some_iff_leastFor (h : vocabulary.table language = .ok table)
    (line : Text) :
    (table.match? line = none ↔ ∀ entry ∈ table.entries, ¬ entry.lead <+: line)
      ∧ (∀ entry rest, table.match? line = some (entry, rest) ↔
        table.LeastFor vocabulary line entry ∧ line = entry.lead ++ rest)
      ∧ vocabulary.leadsOf .continuation =
        vocabulary.wordsOf "and".toList ++ vocabulary.wordsOf "but".toList
      ∧ (∀ header ∈ table.entries, header.kind ∈ LineKind.sections → header.lead <+: line →
        ∃ entry rest, table.match? line = some (entry, rest)
          ∧ (entry.kind = .tag ∨ entry.kind ∈ LineKind.sections)
          ∧ ∀ step number indented report, trimStart indented = line →
            ((⟨table, step⟩ : Classifier).classify number indented).1 = some report →
            report.kind = entry.kind)
      ∧ ∀ rest, line = '@' :: rest →
        table.match? line = some (⟨"@".toList, .tag⟩, rest)
          ∧ ∀ step number indented, trimStart indented = line →
            ((⟨table, step⟩ : Classifier).classify number indented).1 =
              some ⟨number, .tag, "@".toList, trim rest⟩ := by
  refine ⟨match?_eq_none_iff, fun entry rest => match?_eq_some_iff_of_table h,
    vocabulary.leadsOf_continuation, ?_, ?_⟩
  · intro header hmem isHeader hstarts
    obtain ⟨entry, rest, hmatch, hkind⟩ := exists_match?_of_header h hmem isHeader hstarts
    refine ⟨entry, rest, hmatch, hkind, ?_⟩
    rintro step number indented report rfl hreport
    have hne : entry.kind ≠ .continuation := by
      rintro hcontinuation
      rw [hcontinuation] at hkind
      revert hkind
      decide
    rw [Classifier.kind_of_classify hreport hmatch, resolveKind_of_ne_continuation hne]
  · rintro rest rfl
    refine ⟨match?_tag h rest, ?_⟩
    intro step number indented hindented
    have hrecognise : table.recognise indented = some (⟨"@".toList, .tag⟩, rest) := by
      rw [recognise_eq (by simp [hindented]) (by simp [hindented]), hindented, match?_tag h]
    rw [Classifier.classify_of_recognise hrecognise]
    rfl

/-- The line starts with a header and with a longer step; it is reported as the header, although
the step is given first and a step is in force. -/
theorem Table.match?_eq_some_iff_leastFor_overlapping :
    let vocabulary : Vocabulary := ⟨none, none, TextMap.ofList
      [("given".toList, ["Fa: a".toList, "@".toList]), ("feature".toList, ["F".toList, "Fa".toList]),
        ("scenarioOutline".toList, ["So".toList]), ("examples".toList, ["Ex".toList]),
        ("scenario".toList, ["Sc".toList]), ("background".toList, ["Ba".toList]),
        ("when".toList, ["".toList]), ("then".toList, ["Th ".toList]), ("and".toList, []),
        ("but".toList, ["Fa".toList])]⟩
    let line := "Fa: a".toList
    let entry : Entry := ⟨"Fa: ".toList, .feature⟩
    ∃ table, vocabulary.table "xx".toList = .ok table
      ∧ table.match? line = some (entry, "a".toList)
      ∧ table.LeastFor vocabulary line entry
      ∧ ⟨"Fa: a".toList, .givenStep⟩ ∈ table.entries
      ∧ ∃ report, ((⟨table, some .whenStep⟩ : Classifier).classify 1 ('\t' :: line)).1 =
        some report ∧ report.kind = .feature := by
  intro vocabulary line entry
  have h : vocabulary.table "xx".toList = .ok _ := rfl
  refine ⟨_, h, rfl, ?_⟩
  obtain ⟨-, hleast, -, hheader, -⟩ := Table.match?_eq_some_iff_leastFor h line
  obtain ⟨found, rest, hfound, -, hreported⟩ :=
    hheader entry (by decide) (by decide) ⟨"a".toList, rfl⟩
  obtain ⟨rfl, -⟩ := Prod.mk.inj (Option.some.inj hfound)
  refine ⟨((hleast entry "a".toList).mp rfl).1, by decide, _, rfl, ?_⟩
  exact hreported (some .whenStep) 1 ('\t' :: line) _ rfl rfl

end

end FeatureLines
