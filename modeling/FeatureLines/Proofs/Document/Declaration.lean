import FeatureLines.Proofs.Document.Seam
import Mathlib.Data.List.TakeWhile

/-!
# Declaring a language and presuming it

A language reaches a document in two ways: the catalog presumes it, or a first
line declares it. Both come to the same. The line that declares a code is read as
just this code (`declaredLanguage_directive`), it is a line of its own
(`linesOf_directive`), and it is a comment for every table, so nothing is reported
of it and no step changes; only the numbers of the lines below it do.
-/

namespace FeatureLines

/-- The line that declares this language. -/
def directive (code : Text) : Text := "# language: ".toList ++ code

section

variable {code : Text}

theorem declaredLanguage_directive (nonempty : code ≠ [])
    (plain : ∀ c ∈ code, isBlank c = false) : declaredLanguage (directive code) = some code := by
  have hword : stripWord directiveWord (trimStart (dropHash (trimStart (directive code)))) =
      some (' ' :: code) := rfl
  have hcode : trimStart (' ' :: code) = code := by
    have hhead : trimStart code = code :=
      trimStart_eq_self fun c hc => plain c (List.mem_of_head? hc)
    exact hhead
  have htoken : (code.takeWhile fun c => !isBlank c) = code := by
    rw [List.takeWhile_eq_self_iff]
    intro c hc
    simp [plain c hc]
  unfold declaredLanguage
  rw [hword]
  simp only [hcode, htoken]

/-- The directive ends where its code ends, because a code holds no white space. -/
theorem linesOf_directive (plain : ∀ c ∈ code, isBlank c = false) (document : Text) :
    linesOf (directive code ++ '\n' :: document) = directive code :: linesOf document := by
  have hfeed : '\n' ∉ directive code := by
    intro hmem
    rcases List.mem_append.mp hmem with h | h
    · exact absurd h (by decide)
    · exact absurd (plain _ h) (by decide)
  have hreturn : (directive code).getLast? ≠ some '\r' := by
    intro hlast
    rcases List.mem_append.mp (List.mem_of_getLast? hlast) with h | h
    · exact absurd h (by decide)
    · exact absurd (plain _ h) (by decide)
  exact (SplitsInto.feed hfeed hreturn (splitsInto_linesOf document)).linesOf_eq

theorem Table.classify_directive (plain : ∀ c ∈ code, isBlank c = false) (table : Table)
    (document : Text) :
    table.classify (directive code ++ '\n' :: document) =
      (table.classify document).map (RecognisedLine.lower 1) := by
  have hcomment : (Classifier.ofTable table).table.recognise (directive code) = none := rfl
  unfold classify
  rw [linesOf_directive plain, Classifier.recognisedLines_cons,
    Classifier.classify_of_recognise_eq_none hcomment, Option.toList_none, List.nil_append,
    Classifier.recognisedLines_add]

end

/-- The document with its lines this many lines further down. -/
def RecognisedDocument.lower (n : Nat) (document : RecognisedDocument) : RecognisedDocument :=
  { document with lines := document.lines.map (RecognisedLine.lower n) }

namespace Catalog

/-- A document that declares nothing comes to the same whether the catalog presumes a language or
a line in front of the document declares it, whatever is presumed then: to the same failure, or to
the same lines in that language, one number higher. -/
theorem classify_directive_append (files : Files) (catalog : Catalog) {code : Text}
    (nonempty : code ≠ []) (plain : ∀ c ∈ code, isBlank c = false) (other : Text)
    {document : Text} (undeclared : ((linesOf document).head?).bind declaredLanguage = none) :
    let presumed := (catalog.withDefaultLanguage code).classify files document
    let declared := (catalog.withDefaultLanguage other).classify files
      (directive code ++ '\n' :: document)
    declared.1 = presumed.1.map (RecognisedDocument.lower 1)
      ∧ (∀ recognised, presumed.1 = .ok recognised → recognised.language = code)
      ∧ (∀ recognised, declared.1 = .ok recognised → recognised.language = code)
      ∧ declared.2 = presumed.2.withDefaultLanguage other := by
  intro presumed declared
  have hpresumed : documentLanguage document (catalog.withDefaultLanguage code).defaultLanguage =
      code := by
    unfold documentLanguage
    rw [undeclared]
    rfl
  have hdeclared : documentLanguage (directive code ++ '\n' :: document)
      (catalog.withDefaultLanguage other).defaultLanguage = code := by
    unfold documentLanguage
    rw [linesOf_directive plain, List.head?_cons, Option.bind_some,
      declaredLanguage_directive nonempty plain]
    rfl
  have hsame : ∀ default, ((catalog.withDefaultLanguage default).tableOf files code) =
      ((catalog.tableOf files code).1, (catalog.tableOf files code).2.withDefaultLanguage default) :=
    fun default => tableOf_withDefaultLanguage files default code catalog
  cases htable : (catalog.tableOf files code).1 with
  | error failure =>
    have hfirst : presumed = _ :=
      classify_of_error (by rw [hpresumed, hsame, htable])
    have hsecond : declared = _ :=
      classify_of_error (by rw [hdeclared, hsame, htable])
    rw [hfirst, hsecond, hpresumed, hdeclared, hsame, hsame]
    refine ⟨rfl, fun recognised h => ?_, fun recognised h => ?_, rfl⟩
    · cases h
    · cases h
  | ok shared =>
    have hfirst : presumed = _ :=
      classify_of_ok (by rw [hpresumed, hsame, htable])
    have hsecond : declared = _ :=
      classify_of_ok (by rw [hdeclared, hsame, htable])
    rw [hfirst, hsecond, hpresumed, hdeclared, hsame, hsame,
      shared.table.classify_directive plain]
    refine ⟨rfl, fun recognised h => ?_, fun recognised h => ?_, rfl⟩
    · obtain rfl := Except.ok.inj h
      rfl
    · obtain rfl := Except.ok.inj h
      rfl

/-- The directive stands in front of a line that is no directive, although it says `language`. -/
theorem classify_directive_append_beforeComment :
    let files : Files := ⟨fun _ => false, fun _ => .error .notFound⟩
    let vocabulary : Vocabulary := ⟨none, none, TextMap.ofList
      [("feature".toList, ["Fa".toList]), ("scenarioOutline".toList, ["So".toList]),
        ("examples".toList, ["Ex".toList]), ("scenario".toList, ["Sc".toList]),
        ("background".toList, ["Ba".toList]), ("given".toList, ["# ".toList, "Gi ".toList]),
        ("when".toList, ["We ".toList]), ("then".toList, ["Th ".toList]), ("and".toList, []),
        ("but".toList, ["* ".toList])]⟩
    let catalog := ofSource
      ⟨"words".toList, fun _ _ => .ok (TextMap.ofList [("x#:".toList, vocabulary)])⟩ []
    let document := "# language :x#:\n* a\nGi b".toList
    ((catalog.withDefaultLanguage "x#:".toList).classify files document).1 =
        .ok ⟨"x#:".toList,
          [⟨2, .continuation, "* ".toList, "a".toList⟩, ⟨3, .givenStep, "Gi ".toList, "b".toList⟩]⟩
      ∧ ((catalog.withDefaultLanguage "yy".toList).classify files
          ("# language: x#:\n".toList ++ document)).1 =
        .ok ⟨"x#:".toList,
          [⟨3, .continuation, "* ".toList, "a".toList⟩,
            ⟨4, .givenStep, "Gi ".toList, "b".toList⟩]⟩ := by
  intro files vocabulary catalog document
  have plain : ∀ c ∈ "x#:".toList, isBlank c = false := by
    have hall : ("x#:".toList.all fun c => !isBlank c) = true := rfl
    simpa using hall
  have undeclared : ((linesOf document).head?).bind declaredLanguage = none := by decide
  obtain ⟨hlines, -⟩ :=
    classify_directive_append files catalog (by decide) plain "yy".toList undeclared
  exact ⟨rfl, hlines⟩

end Catalog

end FeatureLines
