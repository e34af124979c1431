import FeatureLines.Proofs.CommandLine.Stages
import FeatureLines.Proofs.Document.Recognition

/-!
# Rows are read back

Nothing is escaped in a row. It can be taken apart all the same, because the
parts that come first hold no tab: a number is written in digits
(`exists_digits_decimal`), and kinds have ten fixed names. Whatever stands behind
the second tab is the text, tabs included (`Row.read_line`). Rows are told apart
by their line feeds, and no text holds one, because a text is a part of one line.

So what a run writes says which lines it has recognised, up to their keywords
(`RunClassifies.readAll_output`).
-/

namespace FeatureLines

/-- Everything is read as it was written, if each thing is. -/
theorem mapM_map_eq_some {α β : Type} {write : α → β} {read : β → Option α} {l : List α}
    (h : ∀ a ∈ l, read (write a) = some a) : (l.map write).mapM read = some l := by
  induction l with
  | nil => rfl
  | cons a l ih =>
    obtain ⟨ha, hl⟩ := List.forall_mem_cons.mp h
    rw [List.map_cons, List.mapM_cons, ha, ih hl]
    rfl

/-! ## Numbers -/

theorem ofDigits_concat (digits : List Nat) (d : Nat) :
    ofDigits (digits ++ [d]) = ofDigits digits * 10 + d := by
  simp [ofDigits]

theorem digitChar_of_lt {n : Nat} (h : n < 10) : n.digitChar = digitChar n := by
  revert n
  decide

/-- A number is written in digits, and they say the number. -/
theorem exists_digits_decimal (n : Nat) :
    ∃ digits, digits ≠ [] ∧ (∀ d ∈ digits, d < 10) ∧ decimal n = digits.map digitChar
      ∧ ofDigits digits = n := by
  induction n using Nat.strongRecOn with
  | ind n ih =>
    have hstep : decimal n =
        if n < 10 then [n.digitChar] else decimal (n / 10) ++ [(n % 10).digitChar] :=
      Nat.toDigits_eq_if (by decide)
    by_cases hsmall : n < 10
    · rw [if_pos hsmall, digitChar_of_lt hsmall] at hstep
      exact ⟨[n], by simp, by simpa using hsmall, hstep, by simp [ofDigits]⟩
    · have hlast : n % 10 < 10 := Nat.mod_lt n (by decide)
      obtain ⟨digits, -, hdigits, hwritten, hvalue⟩ := ih (n / 10) (by omega)
      rw [if_neg hsmall, digitChar_of_lt hlast, hwritten] at hstep
      refine ⟨digits ++ [n % 10], by simp, ?_, ?_, ?_⟩
      · intro d hd
        rcases List.mem_append.mp hd with hd | hd
        · exact hdigits d hd
        · rw [List.mem_singleton.mp hd]
          exact hlast
      · rw [hstep, List.map_append, List.map_singleton]
      · rw [ofDigits_concat, hvalue]
        omega

theorem ofDecimal?_decimal (n : Nat) : ofDecimal? (decimal n) = some n := by
  obtain ⟨digits, nonempty, small, hwritten, hvalue⟩ := exists_digits_decimal n
  have hfilled : ¬ (digits.map digitChar).isEmpty = true := by simpa using nonempty
  have hread : (digits.map digitChar).mapM digit? = some digits := by
    apply mapM_map_eq_some
    intro d hd
    exact digit?_digitChar (small d hd)
  rw [ofDecimal?, hwritten, if_neg hfilled, hread, Option.map_some, hvalue]

/-- A number is written without tabs and line feeds. -/
theorem notMem_decimal {c : Char} (hc : c = '\t' ∨ c = '\n') (n : Nat) : c ∉ decimal n := by
  obtain ⟨digits, -, small, hwritten, -⟩ := exists_digits_decimal n
  have hdigit : ∀ d, d < 10 → digitChar d ≠ '\t' ∧ digitChar d ≠ '\n' := by decide
  rw [hwritten]
  intro hmem
  obtain ⟨d, hd, rfl⟩ := List.mem_map.mp hmem
  obtain ⟨htab, hfeed⟩ := hdigit d (small d hd)
  rcases hc with hc | hc
  · exact htab hc
  · exact hfeed hc

/-! ## Kinds -/

/-- The name of a kind is written without tabs and line feeds. -/
theorem LineKind.notMem_name {c : Char} (hc : c = '\t' ∨ c = '\n') (kind : LineKind) :
    c ∉ kind.name.toList := by
  rcases hc with rfl | rfl <;> cases kind <;> decide

namespace Row

theorem kindNamed_name (kind : LineKind) : kindNamed kind.name.toList = some kind := by
  unfold kindNamed
  cases hfind : LineKind.all.find? fun other => other.name.toList == kind.name.toList with
  | none => exact absurd (beq_self_eq_true _) (List.find?_eq_none.mp hfind kind kind.mem_all)
  | some found =>
    have hname : found.name.toList = kind.name.toList := by
      simpa only [beq_iff_eq] using List.find?_some hfind
    rw [LineKind.name_injective (String.toList_inj.mp hname)]

/-! ## One row -/

/-- A text is cut at its first mark. -/
theorem cutAt_append {mark : Char} {before : Text} (unmarked : mark ∉ before) (behind : Text) :
    cutAt mark (before ++ mark :: behind) = some (before, behind) := by
  induction before with
  | nil => exact if_pos rfl
  | cons c before ih =>
    obtain ⟨hc, hbefore⟩ := not_or.mp (mt List.mem_cons.mpr unmarked)
    rw [List.cons_append, cutAt, if_neg (Ne.symm hc), ih hbefore]

/-- A row without its line feed. -/
def line (row : Row) : Text :=
  decimal row.number ++ '\t' :: (row.kind.name.toList ++ '\t' :: row.text)

theorem write_eq (row : Row) : row.write = row.line ++ ['\n'] := by
  simp [write, line]

theorem read_line (row : Row) : read row.line = some row := by
  have hnumber : cutAt '\t' row.line =
      some (decimal row.number, row.kind.name.toList ++ '\t' :: row.text) :=
    cutAt_append (notMem_decimal (.inl rfl) row.number) _
  have hkind : cutAt '\t' (row.kind.name.toList ++ '\t' :: row.text) =
      some (row.kind.name.toList, row.text) :=
    cutAt_append (row.kind.notMem_name (.inl rfl)) _
  unfold read
  simp only [hnumber, hkind, ofDecimal?_decimal, kindNamed_name]

theorem newline_notMem_line {row : Row} (h : '\n' ∉ row.text) : '\n' ∉ row.line := by
  have hnumber := notMem_decimal (.inr rfl) row.number
  have hkind := row.kind.notMem_name (.inr rfl)
  simp only [line, List.mem_append, List.mem_cons, not_or]
  exact ⟨hnumber, by decide, hkind, by decide, h⟩

/-! ## All rows -/

/-- A piece ends at the first line feed. -/
theorem pieces_append {piece rest : Text} {lines : List Text} (unbroken : '\n' ∉ piece)
    (hrest : pieces rest = some lines) :
    pieces (piece ++ '\n' :: rest) = some (piece :: lines) := by
  induction piece with
  | nil =>
    rw [List.nil_append, pieces, hrest]
    rfl
  | cons c piece ih =>
    obtain ⟨hc, hpiece⟩ := not_or.mp (mt List.mem_cons.mpr unbroken)
    rw [List.cons_append, pieces, ih hpiece]
    exact if_neg (Ne.symm hc)

theorem pieces_writeAll {rows : List Row} (h : ∀ row ∈ rows, '\n' ∉ row.text) :
    pieces (writeAll rows) = some (rows.map line) := by
  induction rows with
  | nil => rfl
  | cons row rows ih =>
    obtain ⟨hrow, hrows⟩ := List.forall_mem_cons.mp h
    have htext : writeAll (row :: rows) = row.line ++ '\n' :: writeAll rows := by
      rw [writeAll, List.flatMap_cons, write_eq, List.append_assoc]
      rfl
    rw [htext]
    exact pieces_append (newline_notMem_line hrow) (ih hrows)

/-- Rows are read as they were written, unless a text of them holds a line feed. -/
theorem readAll_writeAll {rows : List Row} (h : ∀ row ∈ rows, '\n' ∉ row.text) :
    readAll (writeAll rows) = some rows := by
  unfold readAll
  rw [pieces_writeAll h]
  apply mapM_map_eq_some
  intro row _
  exact read_line row

end Row

/-! ## Runs -/

/-- No text of a report holds a line feed, because it is a part of one line. -/
theorem Table.newline_notMem_text {table : Table} {document : Text} {report : RecognisedLine}
    (h : report ∈ table.classify document) : '\n' ∉ report.text := by
  obtain ⟨i, line, hline, -, hdescribes⟩ := Classifier.exists_line_of_mem_recognisedLines h
  have hunbroken : '\n' ∉ line := newline_notMem_of_mem_linesOf (List.mem_of_getElem? hline)
  intro hfeed
  exact hunbroken (hdescribes.mem_line hfeed)

theorem Catalog.readAll_writeAll_of_classify {files : Files} {document : Text} {catalog : Catalog}
    {recognised : RecognisedDocument}
    (h : (catalog.classify files document).1 = .ok recognised) :
    Row.readAll (Row.writeAll recognised.rows) = some recognised.rows := by
  obtain ⟨shared, -, -, hlines⟩ := classify_eq_ok (Prod.ext h rfl)
  apply Row.readAll_writeAll
  intro row hrow
  obtain ⟨report, hreport, rfl⟩ := List.mem_map.mp hrow
  rw [hlines] at hreport
  exact Table.newline_notMem_text hreport

theorem RunClassifies.readAll_output {files : Files} {current : Except FileError Text}
    {arguments : List Text} {recognised : RecognisedDocument}
    (h : RunClassifies files current arguments recognised) :
    Row.readAll (runOutcome files current arguments).output = some recognised.rows := by
  rw [h.runOutcome_eq]
  obtain ⟨parsed, root, settings, document, -, hclassified⟩ := h
  exact Catalog.readAll_writeAll_of_classify hclassified

/-- A run that succeeds has recognised lines, and reading its output gives back their numbers, kinds
and texts in order. So runs whose lines differ in any of these write different outputs. -/
theorem readAll_output_of_code_eq_zero {files : Files} {current : Except FileError Text}
    {arguments : List Text} (succeeds : (runOutcome files current arguments).code = 0) :
    let output := (runOutcome files current arguments).output
    (∃ recognised, RunClassifies files current arguments recognised)
      ∧ ∀ recognised, RunClassifies files current arguments recognised →
        Row.readAll output = some (recognised.lines.map fun line =>
            ⟨line.number, line.kind, line.text⟩)
          ∧ ∀ otherFiles otherCurrent otherArguments other,
            RunClassifies otherFiles otherCurrent otherArguments other →
            other.rows ≠ recognised.rows →
            (runOutcome otherFiles otherCurrent otherArguments).output ≠ output := by
  intro output
  refine ⟨runOutcome_code_eq_zero_iff.mp succeeds, ?_⟩
  intro recognised hclassifies
  have hrows : Row.readAll output = some recognised.rows := hclassifies.readAll_output
  refine ⟨hrows, ?_⟩
  intro otherFiles otherCurrent otherArguments other hother hdiffer hsame
  have hotherRows := hother.readAll_output
  rw [hsame, hrows] at hotherRows
  exact hdiffer (Option.some.inj hotherRows).symm

/-- Texts that hold tabs, a carriage return and a line separator, and texts that are empty. -/
theorem readAll_output_of_code_eq_zero_tabs :
    let keywords := "\x7b\"xx\":\x7b\"feature\":[\"F\"],\"scenarioOutline\":[\"O\"]," ++
      "\"examples\":[\"E\"],\"scenario\":[\"S\"],\"background\":[\"B\"],\"given\":[\"G\"]," ++
      "\"when\":[\"W\"],\"then\":[\"T\"],\"and\":[],\"but\":[]\x7d\x7d"
    let settings := "\x7b\"keywordSource\":\"k.json\",\"defaultLanguage\":\"xx\"\x7d"
    let files (document : String) := Files.ofReadings
      [("w/.gherkin-i18n.json".toList, .ok (Utf8.encode settings.toList)),
        ("w/k.json".toList, .ok (Utf8.encode keywords.toList)),
        ("d".toList, .ok (Utf8.encode document.toList))]
    let tabbed := files "Ga\tb\rc\u2028d\n@\nG"
    let plain := files "Ga\n@\nG"
    let current := .error .notFound
    let arguments := ["--workspace".toList, "w".toList, "d".toList]
    let rows : List Row := [⟨1, .givenStep, "a\tb\rc\u2028d".toList⟩, ⟨2, .tag, []⟩,
      ⟨3, .givenStep, []⟩]
    (runOutcome tabbed current arguments).code = 0
      ∧ (∃ recognised, RunClassifies tabbed current arguments recognised ∧ recognised.rows = rows)
      ∧ Row.readAll (runOutcome tabbed current arguments).output = some rows
      ∧ (runOutcome plain current arguments).output ≠
        (runOutcome tabbed current arguments).output := by
  intro keywords settings files tabbed plain current arguments rows
  have hwritten : runOutcome tabbed current arguments =
      ⟨0, "1\tgiven\ta\tb\rc\u2028d\n2\ttag\t\n3\tgiven\t\n".toList, none⟩ := by
    decide +kernel
  have hplainwritten : runOutcome plain current arguments =
      ⟨0, "1\tgiven\ta\n2\ttag\t\n3\tgiven\t\n".toList, none⟩ := by
    decide +kernel
  have succeeds : (runOutcome tabbed current arguments).code = 0 := by rw [hwritten]
  have hplainsucceeds : (runOutcome plain current arguments).code = 0 := by rw [hplainwritten]
  have hread : Row.readAll (runOutcome tabbed current arguments).output = some rows := by
    rw [hwritten]
    decide +kernel
  obtain ⟨⟨recognised, hclassifies⟩, hall⟩ := readAll_output_of_code_eq_zero succeeds
  obtain ⟨other, hother⟩ := runOutcome_code_eq_zero_iff.mp hplainsucceeds
  obtain ⟨hrecognised, hdiffers⟩ := hall recognised hclassifies
  have hrows : recognised.rows = rows := Option.some.inj (hrecognised.symm.trans hread)
  have hotherrows : other.rows ≠ rows := by
    intro hsame
    have hplainread := hother.readAll_output
    rw [hplainwritten, hsame] at hplainread
    revert hplainread
    decide +kernel
  refine ⟨succeeds, ⟨recognised, hclassifies, hrows⟩, hread, ?_⟩
  apply hdiffers _ _ _ other hother
  rwa [hrows]

end FeatureLines
