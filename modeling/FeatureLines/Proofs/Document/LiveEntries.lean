import FeatureLines.Proofs.Document.Recognition
import FeatureLines.Proofs.Keyword.Build

/-!
# Which entries of a table are ever used

An entry can stand in a table and never be used: the search may always end before
it, or no line that it is asked about may start with its lead, because such lines
lose their leading white space or are comments. `Table.Live` says when none of
this is so, and the main statement is that an entry with a lead is used for some
line exactly then.

The line that shows an entry to be live is its lead alone. If any line is
recognised at the entry's position, then so is this one: what keeps a lead from
starting a line, or lets an earlier lead start it, is seen within the lead itself
(`live_of_position?`).

Entries are told apart by their positions, since equal entries may stand in a
table more than once. `Table.position?` gives the position at which the search
ends, and `recognise_eq_position?` says that it is the search of the table.
-/

namespace FeatureLines

theorem startsWith_iff_isPrefix {lead text : Text} :
    startsWith lead text = true ↔ lead <+: text := by
  rw [startsWith_iff]
  exact exists_congr fun rest => eq_comm

theorem head?_of_isPrefix {lead text : Text} (nonempty : lead ≠ []) (h : lead <+: text) :
    text.head? = lead.head? := by
  obtain ⟨rest, rfl⟩ := h
  cases lead with
  | nil => exact absurd rfl nonempty
  | cons c lead => rfl

namespace Table

/-- The position of the entry that recognises the line. -/
def position? (table : Table) (line : Text) : Option Nat :=
  (table.recognise line).bind fun _ =>
    table.entries.findIdx? fun entry => startsWith entry.lead (trimStart line)

/-- Nothing keeps lines from the entry at this position: its lead begins with neither white space
nor a hash, and no lead before it starts it. -/
structure Live (table : Table) (i : Nat) (lead : Text) : Prop where
  plain : ∀ c, lead.head? = some c → isBlank c = false
  noComment : lead.head? ≠ some '#'
  unshadowed : ∀ j earlier, j < i → table.entries[j]? = some earlier → ¬ earlier.lead <+: lead

variable {table : Table} {line : Text} {i : Nat} {entry : Entry}

/-- The search ends at the first position whose lead starts the text. -/
theorem findIdx?_eq_some_iff {text : Text} :
    (table.entries.findIdx? fun entry => startsWith entry.lead text) = some i ↔
      ∃ entry, table.entries[i]? = some entry ∧ entry.lead <+: text
        ∧ ∀ j earlier, j < i → table.entries[j]? = some earlier → ¬ earlier.lead <+: text := by
  rw [List.findIdx?_eq_some_iff_getElem]
  simp only [startsWith_iff_isPrefix]
  constructor
  · rintro ⟨hi, hlead, hearlier⟩
    refine ⟨table.entries[i], List.getElem?_eq_getElem hi, hlead, ?_⟩
    intro j earlier hj hget
    obtain ⟨_, rfl⟩ := List.getElem?_eq_some_iff.mp hget
    exact hearlier j hj
  · rintro ⟨entry, hget, hlead, hearlier⟩
    obtain ⟨hi, rfl⟩ := List.getElem?_eq_some_iff.mp hget
    exact ⟨hi, hlead, fun j hj => hearlier j _ hj (List.getElem?_eq_getElem _)⟩

/-- The first entry for a text is told by its position. -/
theorem firstFor_iff_getElem? {text : Text} :
    table.FirstFor text entry ↔
      ∃ i : Nat, table.entries[i]? = some entry ∧ entry.lead <+: text
        ∧ ∀ j earlier, j < i → table.entries[j]? = some earlier → ¬ earlier.lead <+: text := by
  constructor
  · rintro ⟨before, after, hentries, hbefore, hlead⟩
    refine ⟨before.length, by simp [hentries], hlead, ?_⟩
    intro j earlier hj hget
    rw [hentries, List.getElem?_append_left hj] at hget
    exact hbefore earlier (List.mem_of_getElem? hget)
  · rintro ⟨i, hget, hlead, hearlier⟩
    obtain ⟨hi, rfl⟩ := List.getElem?_eq_some_iff.mp hget
    refine ⟨table.entries.take i, table.entries.drop (i + 1), by simp, ?_, hlead⟩
    intro earlier hmem
    obtain ⟨j, hj, rfl⟩ := List.mem_take_iff_getElem.mp hmem
    exact hearlier j _ (by omega) (List.getElem?_eq_getElem _)

/-- What it is for the entry at a position to recognise a line: it is the answer of the table, and
no lead before it starts what stands behind the white space of the line. -/
theorem position?_eq_some_iff :
    table.position? line = some i ↔
      ∃ entry rest, table.entries[i]? = some entry ∧ table.recognise line = some (entry, rest)
        ∧ ∀ j earlier, j < i → table.entries[j]? = some earlier →
          ¬ earlier.lead <+: trimStart line := by
  unfold position?
  cases hrecognise : table.recognise line with
  | none => simp
  | some found =>
    rw [Option.bind_some, findIdx?_eq_some_iff, ← hrecognise]
    constructor
    · rintro ⟨entry, hget, hlead, hearlier⟩
      have hfirst : table.FirstFor (trimStart line) entry :=
        firstFor_iff_getElem?.mpr ⟨i, hget, hlead, hearlier⟩
      obtain ⟨hcan, -, -⟩ := recognise_eq_some_iff.mp hrecognise
      obtain ⟨rest, hrest⟩ := hlead
      exact ⟨entry, rest, hget, recognise_eq_some_iff.mpr ⟨hcan, hfirst, hrest.symm⟩, hearlier⟩
    · rintro ⟨entry, rest, hget, hfound, hearlier⟩
      obtain ⟨-, -, htext⟩ := recognise_eq_some_iff.mp hfound
      exact ⟨entry, hget, ⟨rest, htext.symm⟩, hearlier⟩

/-- Every line that is recognised is recognised at a position. -/
theorem exists_position?_of_recognise {found : Entry × Text}
    (h : table.recognise line = some found) : ∃ i, table.position? line = some i := by
  obtain ⟨entry, rest⟩ := found
  obtain ⟨-, hfirst, -⟩ := recognise_eq_some_iff.mp h
  obtain ⟨i, hget, -, hearlier⟩ := firstFor_iff_getElem?.mp hfirst
  exact ⟨i, position?_eq_some_iff.mpr ⟨entry, rest, hget, h, hearlier⟩⟩

/-- The search for the position is the search for the entry. -/
theorem recognise_eq_position? (table : Table) (line : Text) :
    table.recognise line = (table.position? line).bind fun i => table.entries[i]?.bind fun entry =>
      (entry.rest? (trimStart line)).map fun rest => (entry, rest) := by
  cases hrecognise : table.recognise line with
  | none => simp [position?, hrecognise]
  | some found =>
    obtain ⟨i, hposition⟩ := exists_position?_of_recognise hrecognise
    obtain ⟨entry, rest, hget, hfound, -⟩ := position?_eq_some_iff.mp hposition
    obtain ⟨-, -, htext⟩ := recognise_eq_some_iff.mp hfound
    rw [hposition, Option.bind_some, hget, Option.bind_some, Entry.rest?_eq_some_iff.mpr htext,
      ← hrecognise, hfound, Option.map_some]

/-- A line that is neither empty nor a comment is recognised no later than at a lead that starts
it. -/
theorem exists_position?_le {other : Entry} (hget : table.entries[i]? = some other)
    (content : trimStart line ≠ []) (noComment : (trimStart line).head? ≠ some '#')
    (hlead : other.lead <+: trimStart line) : ∃ j, j ≤ i ∧ table.position? line = some j := by
  have hcan : table.CanRecognise line :=
    ⟨content, noComment, other, List.mem_of_getElem? hget, hlead⟩
  obtain ⟨found, rest, hrecognise⟩ := hcan.exists_recognise
  obtain ⟨j, hposition⟩ := exists_position?_of_recognise hrecognise
  obtain ⟨-, -, -, -, hearlier⟩ := position?_eq_some_iff.mp hposition
  refine ⟨j, ?_, hposition⟩
  rcases Nat.lt_or_ge i j with hj | hj
  · exact absurd hlead (hearlier i other hj hget)
  · exact hj

/-! ## Live entries -/

/-- A live entry recognises the line that is its lead and nothing else. -/
theorem Live.position?_lead (hget : table.entries[i]? = some entry) (nonempty : entry.lead ≠ [])
    (h : table.Live i entry.lead) : table.position? entry.lead = some i := by
  have htrim : trimStart entry.lead = entry.lead := trimStart_eq_self h.plain
  have content : trimStart entry.lead ≠ [] := by rwa [htrim]
  have noComment : (trimStart entry.lead).head? ≠ some '#' := by
    rw [htrim]
    exact h.noComment
  have hwhole : entry.lead <+: trimStart entry.lead :=
    ⟨[], (List.append_nil entry.lead).trans htrim.symm⟩
  obtain ⟨j, hle, hposition⟩ := exists_position?_le hget content noComment hwhole
  obtain ⟨found, rest, hfound, hrecognise, -⟩ := position?_eq_some_iff.mp hposition
  obtain ⟨-, -, htext⟩ := recognise_eq_some_iff.mp hrecognise
  rcases Nat.lt_or_eq_of_le hle with hlt | rfl
  · exact absurd ⟨rest, htext.symm.trans htrim⟩ (h.unshadowed j found hlt hfound)
  · exact hposition

/-- An entry that recognises a line is live. What stands behind the white space of the line begins
as the lead does, and whatever starts the lead starts the line as well. -/
theorem live_of_position? (hget : table.entries[i]? = some entry) (nonempty : entry.lead ≠ [])
    (h : table.position? line = some i) : table.Live i entry.lead := by
  obtain ⟨found, rest, hfound, hrecognise, hearlier⟩ := position?_eq_some_iff.mp h
  obtain rfl := Option.some.inj (hfound.symm.trans hget)
  obtain ⟨hcan, -, htext⟩ := recognise_eq_some_iff.mp hrecognise
  have hlead : found.lead <+: trimStart line := ⟨rest, htext.symm⟩
  have hhead := head?_of_isPrefix nonempty hlead
  constructor
  case plain =>
    intro c hc
    exact isBlank_head_trimStart (hhead.trans hc)
  case noComment =>
    intro hc
    exact hcan.noComment (hhead.trans hc)
  case unshadowed =>
    intro j earlier hj hshadow hwithin
    exact hearlier j earlier hj hshadow (hwithin.trans hlead)

/-- If neither the trim nor the comments keep lines from an entry that is not live, an earlier lead
does. -/
theorem exists_shadow_of_not_live (dead : ¬ table.Live i entry.lead)
    (plain : ∀ c, entry.lead.head? = some c → isBlank c = false)
    (noComment : entry.lead.head? ≠ some '#') :
    ∃ j earlier, j < i ∧ table.entries[j]? = some earlier ∧ earlier.lead <+: entry.lead := by
  refine Classical.byContradiction fun hnone => dead ⟨plain, noComment, ?_⟩
  intro j earlier hj hget hwithin
  exact hnone ⟨j, earlier, hj, hget, hwithin⟩

/-- What becomes of a line that starts with the lead of an entry which is not live. -/
theorem fate_of_not_live (nonempty : entry.lead ≠ []) (dead : ¬ table.Live i entry.lead)
    (hlead : entry.lead <+: line) :
    (∃ j, j < i ∧ table.position? line = some j)
      ∨ (line.head? = some '#' ∧ table.recognise line = none)
      ∨ trimStart line ≠ line := by
  have hhead : line.head? = entry.lead.head? := head?_of_isPrefix nonempty hlead
  by_cases htrim : trimStart line = line
  · by_cases hcomment : line.head? = some '#'
    · refine .inr (.inl ⟨hcomment, ?_⟩)
      rw [Option.eq_none_iff_forall_ne_some]
      intro found hfound
      obtain ⟨-, noComment⟩ := content_of_recognise hfound
      rw [htrim] at noComment
      exact noComment hcomment
    · refine .inl ?_
      have plain : ∀ c, entry.lead.head? = some c → isBlank c = false := by
        intro c hc
        have htrimmed : (trimStart line).head? = some c := by rw [htrim, hhead, hc]
        exact isBlank_head_trimStart htrimmed
      have noComment : entry.lead.head? ≠ some '#' := by rwa [← hhead]
      obtain ⟨j, earlier, hj, hearlier, hwithin⟩ :=
        exists_shadow_of_not_live dead plain noComment
      have content : line ≠ [] := by
        rintro rfl
        exact nonempty (List.prefix_nil.mp hlead)
      have hstarts : earlier.lead <+: line := hwithin.trans hlead
      rw [← htrim] at content hcomment hstarts
      obtain ⟨k, hk, hposition⟩ := exists_position?_le hearlier content hcomment hstarts
      exact ⟨k, Nat.lt_of_le_of_lt hk hj, hposition⟩
  · exact .inr (.inr htrim)

end Table

namespace Classifier

/-! ## Classifying by an entry -/

/-- The classifier reports the line by the entry at this position: there the search of the table
ends, and the report carries the lead of this entry and the kind that the step in force gives it. -/
structure ReportsBy (classifier : Classifier) (line : Text) (i : Nat) : Prop where
  position : classifier.table.position? line = some i
  report : ∃ entry rest, classifier.table.entries[i]? = some entry
    ∧ trimStart line = entry.lead ++ rest
    ∧ ∀ number, (classifier.classify number line).1 =
      some ⟨number, resolveKind classifier.step entry.kind, entry.lead, trim rest⟩

/-- The step in force has no part in which entry is taken. -/
theorem reportsBy_iff {classifier : Classifier} {line : Text} {i : Nat} :
    classifier.ReportsBy line i ↔ classifier.table.position? line = some i := by
  constructor
  · intro h
    exact h.position
  · intro h
    obtain ⟨entry, rest, hget, hrecognise, -⟩ := Table.position?_eq_some_iff.mp h
    obtain ⟨-, -, htext⟩ := Table.recognise_eq_some_iff.mp hrecognise
    refine ⟨h, entry, rest, hget, htext, ?_⟩
    intro number
    rw [classify_of_recognise hrecognise]

/-- An entry with a lead reports some line, with some step in force, exactly when it is live. If it
is not, it reports no line of any document, and a line that starts with its lead is reported by an
earlier entry, is a comment, or has lost its leading white space by the time it is looked at. -/
theorem exists_reportsBy_iff_live {table : Table} {i : Nat} {entry : Entry}
    (hget : table.entries[i]? = some entry) (nonempty : entry.lead ≠ []) :
    ((∃ line step, (⟨table, step⟩ : Classifier).ReportsBy line i) ↔ table.Live i entry.lead)
      ∧ (¬ table.Live i entry.lead →
        (∀ document n line, (linesOf document)[n]? = some line →
          ¬ ((ofTable table).after 1 ((linesOf document).take n)).ReportsBy line i)
        ∧ ∀ line, entry.lead <+: line →
          (∃ j, j < i ∧ ∀ step, (⟨table, step⟩ : Classifier).ReportsBy line j)
            ∨ (line.head? = some '#'
              ∧ ∀ step number, ((⟨table, step⟩ : Classifier).classify number line).1 = none)
            ∨ trimStart line ≠ line) := by
  refine ⟨⟨?_, fun live => ?_⟩, fun dead => ⟨?_, ?_⟩⟩
  · rintro ⟨line, step, h⟩
    exact Table.live_of_position? hget nonempty h.position
  · exact ⟨entry.lead, none, reportsBy_iff.mpr (live.position?_lead hget nonempty)⟩
  · intro document n line hline h
    have hposition := h.position
    rw [after_table] at hposition
    exact dead (Table.live_of_position? hget nonempty hposition)
  · intro line hlead
    rcases Table.fate_of_not_live nonempty dead hlead with
      ⟨j, hj, hposition⟩ | ⟨hcomment, hnone⟩ | htrim
    · exact .inl ⟨j, hj, fun step => reportsBy_iff.mpr hposition⟩
    · refine .inr (.inl ⟨hcomment, fun step number => ?_⟩)
      rw [classify_of_recognise_eq_none hnone]
    · exact .inr (.inr htrim)

/-- Of two steps of which one starts the other only the first is ever used, if it is the shorter;
the lines of the other are reported by it. -/
theorem exists_reportsBy_iff_live_shadowed :
    let vocabulary : Vocabulary := ⟨none, none, TextMap.ofList
      [("feature".toList, ["Fa".toList]), ("scenarioOutline".toList, ["So".toList]),
        ("examples".toList, ["Ex".toList]), ("scenario".toList, ["Sc".toList]),
        ("background".toList, ["Ba".toList]), ("given".toList, ["Gi ".toList, "Gi b ".toList]),
        ("when".toList, ["# ".toList]), ("then".toList, [" Th".toList]), ("and".toList, []),
        ("but".toList, ["Gi ".toList])]⟩
    let table : Table := ⟨⟨tagLead, .tag⟩ :: keywordLists.flatMap fun list =>
      (vocabulary.wordsOf list.key).map list.entry⟩
    let line := "Gi b c".toList
    vocabulary.table "xx".toList = .ok table
      ∧ table.entries[6]? = some ⟨"Gi ".toList, .givenStep⟩
      ∧ table.entries[7]? = some ⟨"Gi b ".toList, .givenStep⟩
      ∧ table.Live 6 "Gi ".toList
      ∧ (¬ ∃ line step, (⟨table, step⟩ : Classifier).ReportsBy line 7)
      ∧ ∃ j, j < 7 ∧ ∀ step, (⟨table, step⟩ : Classifier).ReportsBy line j := by
  intro vocabulary table line
  have hsix : table.entries[6]? = some ⟨"Gi ".toList, .givenStep⟩ := rfl
  have hseven : table.entries[7]? = some ⟨"Gi b ".toList, .givenStep⟩ := rfl
  obtain ⟨hlive, -⟩ := exists_reportsBy_iff_live hsix (by decide)
  obtain ⟨hused, hdead⟩ := exists_reportsBy_iff_live hseven (by decide)
  have dead : ¬ table.Live 7 "Gi b ".toList := by
    intro live
    exact live.unshadowed 6 _ (by decide) hsix ⟨"b ".toList, rfl⟩
  refine ⟨rfl, hsix, hseven, ?_, fun used => dead (hused.mp used), ?_⟩
  · exact hlive.mp ⟨line, none, reportsBy_iff.mpr rfl⟩
  · rcases (hdead dead).2 line ⟨"c".toList, rfl⟩ with hearlier | ⟨hcomment, -⟩ | htrim
    · exact hearlier
    · exact absurd hcomment (by decide)
    · exact absurd rfl htrim

end Classifier

end FeatureLines
