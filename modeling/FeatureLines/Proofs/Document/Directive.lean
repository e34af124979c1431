import FeatureLines.Document.Directive
import Mathlib.Data.List.TakeWhile

/-!
# Which lines declare a language

`Declares` says of what parts a line must be made to declare a code, and the
main statement is that `declaredLanguage` finds a code exactly when there are
such parts.

The parts of a line are not determined. Without a hash the white space in front
of the word may be divided between its two places in any way, and the reader
settles for one division. Whatever the division, what stands behind it is the
same (`opened_append`), because the word begins with neither white space nor a
hash. The code is determined in turn, because it reaches to the first white
space behind it (`takeWhile_plain_eq_iff`).
-/

namespace FeatureLines

/-- The line says that it is in the language with this code: white space, at most one hash, white
space, the word in any case, a colon, white space and the code, which ends with the line or before
white space. -/
inductive Declares : Text → Text → Prop where
  | mk {before hash between word behind code tail : Text} (beforeBlank : allBlank before = true)
      (isHash : hash = [] ∨ hash = ['#']) (betweenBlank : allBlank between = true)
      (isWord : word.map Char.toLower = "language".toList) (behindBlank : allBlank behind = true)
      (nonempty : code ≠ []) (plain : ∀ c ∈ code, isBlank c = false)
      (ends : ∀ c, tail.head? = some c → isBlank c = true) :
      Declares (before ++ hash ++ between ++ word ++ ':' :: (behind ++ code ++ tail)) code

/-! ## The word -/

theorem exists_of_capital {c : Char} (h : 'A' ≤ c ∧ c ≤ 'Z') :
    ∃ n, n < 26 ∧ c = Char.ofNat (65 + n) := by
  have hlow : 65 ≤ c.toNat := h.1
  have hhigh : c.toNat ≤ 90 := h.2
  have hsum : 65 + (c.toNat - 65) = c.toNat := by omega
  exact ⟨c.toNat - 65, by omega, by rw [hsum, Char.ofNat_toNat]⟩

theorem lowerLetter_eq_toLower (c : Char) : lowerLetter c = c.toLower := by
  by_cases h : 'A' ≤ c ∧ c ≤ 'Z'
  · obtain ⟨n, hn, rfl⟩ := exists_of_capital h
    clear h
    revert n
    decide
  · have hval : ¬ (c.val ≥ 'A'.val ∧ c.val ≤ 'Z'.val) := h
    unfold lowerLetter Char.toLower
    rw [if_neg h, dif_neg hval]

/-- A character in lower case is the character, unless that is a capital. -/
theorem toLower_cases (c : Char) :
    c.toLower = c ∨ ∃ n, n < 26 ∧ c = Char.ofNat (65 + n) ∧ c.toLower = Char.ofNat (97 + n) := by
  by_cases h : 'A' ≤ c ∧ c ≤ 'Z'
  · obtain ⟨n, hn, rfl⟩ := exists_of_capital h
    refine .inr ⟨n, hn, rfl, ?_⟩
    clear h
    revert n
    decide
  · have hval : ¬ (c.val ≥ 'A'.val ∧ c.val ≤ 'Z'.val) := h
    unfold Char.toLower
    exact .inl (dif_neg hval)

theorem eq_colon_of_toLower {c : Char} (h : c.toLower = ':') : c = ':' := by
  rcases toLower_cases c with hsame | ⟨n, hn, -, hlower⟩
  · rw [← hsame, h]
  · have hno : ∀ n, n < 26 → Char.ofNat (97 + n) ≠ ':' := by decide
    exact absurd (hlower.symm.trans h) (hno n hn)

/-- What the word begins with is neither white space nor a hash. -/
theorem opens_of_toLower {c : Char} (h : c.toLower = 'l') : isBlank c = false ∧ c ≠ '#' := by
  rcases toLower_cases c with hsame | ⟨n, hn, rfl, hlower⟩
  · obtain rfl : c = 'l' := hsame.symm.trans h
    decide
  · clear h hlower
    revert n
    decide

theorem stripWord_eq_some_iff {word line rest : Text} :
    stripWord word line = some rest ↔
      ∃ spelled, line = spelled ++ rest ∧ spelled.map Char.toLower = word := by
  constructor
  · intro h
    fun_induction stripWord word line with
    | case1 line => exact ⟨[], by simpa using h, rfl⟩
    | case2 => cases h
    | case3 word d line ih =>
      obtain ⟨spelled, rfl, rfl⟩ := ih h
      exact ⟨d :: spelled, rfl, by rw [List.map_cons, lowerLetter_eq_toLower]⟩
    | case4 => cases h
  · rintro ⟨spelled, rfl, rfl⟩
    induction spelled with
    | nil => cases rest <;> rfl
    | cons c spelled ih =>
      rw [List.map_cons, List.cons_append, stripWord, lowerLetter_eq_toLower, if_pos rfl, ih]

/-- The word is read with its colon, which has no other case. -/
theorem stripWord_directiveWord_eq_some_iff {line rest : Text} :
    stripWord directiveWord line = some rest ↔
      ∃ word, line = word ++ ':' :: rest ∧ word.map Char.toLower = "language".toList := by
  have hword : directiveWord = "language".toList ++ [':'] := rfl
  rw [stripWord_eq_some_iff, hword]
  constructor
  · rintro ⟨spelled, rfl, hspelled⟩
    obtain ⟨word, mark, rfl, hlower, hmark⟩ := List.map_eq_append_iff.mp hspelled
    obtain ⟨colon, rfl, hcolon⟩ := List.map_eq_singleton_iff.mp hmark
    obtain rfl := eq_colon_of_toLower hcolon
    exact ⟨word, by simp, hlower⟩
  · rintro ⟨word, rfl, hlower⟩
    refine ⟨word ++ [':'], by simp, ?_⟩
    rw [List.map_append, hlower]
    rfl

/-! ## What stands in front of the word -/

/-- The line behind white space, at most one hash and white space. -/
def opened (line : Text) : Text := trimStart (dropHash (trimStart line))

theorem exists_append_dropHash (line : Text) :
    ∃ hash, (hash = [] ∨ hash = ['#']) ∧ line = hash ++ dropHash line := by
  unfold dropHash
  split
  · exact ⟨['#'], .inr rfl, rfl⟩
  · exact ⟨[], .inl rfl, rfl⟩

theorem dropHash_eq_self {line : Text} (h : line.head? ≠ some '#') : dropHash line = line := by
  unfold dropHash
  split
  · exact absurd rfl h
  · rfl

theorem exists_append_opened (line : Text) :
    ∃ before hash between, allBlank before = true ∧ (hash = [] ∨ hash = ['#'])
      ∧ allBlank between = true ∧ line = before ++ hash ++ between ++ opened line := by
  obtain ⟨before, hbefore, hline⟩ := exists_append_trimStart line
  obtain ⟨hash, hhash, htrimmed⟩ := exists_append_dropHash (trimStart line)
  obtain ⟨between, hbetween, hdropped⟩ := exists_append_trimStart (dropHash (trimStart line))
  refine ⟨before, hash, between, hbefore, hhash, hbetween, ?_⟩
  calc
    line = before ++ trimStart line := hline
    _ = before ++ (hash ++ dropHash (trimStart line)) := congrArg _ htrimmed
    _ = before ++ (hash ++ (between ++ opened line)) := by rw [opened, ← hdropped]
    _ = before ++ hash ++ between ++ opened line := by simp only [List.append_assoc]

/-- However the white space is divided, the same stands behind it. -/
theorem opened_append {before hash between said : Text} (beforeBlank : allBlank before = true)
    (isHash : hash = [] ∨ hash = ['#']) (betweenBlank : allBlank between = true)
    (plain : ∀ c, said.head? = some c → isBlank c = false) (noHash : said.head? ≠ some '#') :
    opened (before ++ hash ++ between ++ said) = said := by
  have hsaid : trimStart said = said := trimStart_eq_self plain
  unfold opened
  rw [List.append_assoc, List.append_assoc, trimStart_append_of_allBlank beforeBlank]
  rcases isHash with rfl | rfl
  · rw [List.nil_append, trimStart_append_of_allBlank betweenBlank, hsaid,
      dropHash_eq_self noHash, hsaid]
  · have hhash : trimStart (['#'] ++ (between ++ said)) = '#' :: (between ++ said) := rfl
    rw [hhash]
    show trimStart (between ++ said) = said
    rw [trimStart_append_of_allBlank betweenBlank, hsaid]

/-! ## The code -/

theorem takeWhile_plain_eq_iff {text code : Text} :
    (text.takeWhile fun c => !isBlank c) = code ↔
      ∃ tail, text = code ++ tail ∧ (∀ c ∈ code, isBlank c = false)
        ∧ ∀ c, tail.head? = some c → isBlank c = true := by
  constructor
  · rintro rfl
    refine ⟨text.dropWhile fun c => !isBlank c, List.takeWhile_append_dropWhile.symm, ?_, ?_⟩
    · intro c hc
      have hplain := List.mem_takeWhile_imp hc
      simpa using hplain
    · intro c hc
      have hstop := List.head?_dropWhile_not (fun c => !isBlank c) text
      rw [hc] at hstop
      simpa using hstop
  · rintro ⟨tail, rfl, hplain, hends⟩
    have htail : (tail.takeWhile fun c => !isBlank c) = [] := by
      cases tail with
      | nil => rfl
      | cons c tail => rw [List.takeWhile_cons, hends c rfl]; rfl
    rw [List.takeWhile_append_of_pos (by simpa using hplain), htail, List.append_nil]

/-- What is read of a line, part by part. -/
theorem declaredLanguage_eq_some_iff {line code : Text} :
    declaredLanguage line = some code ↔
      ∃ rest, stripWord directiveWord (opened line) = some rest
        ∧ ((trimStart rest).takeWhile fun c => !isBlank c) = code ∧ code ≠ [] := by
  unfold declaredLanguage opened
  cases stripWord directiveWord (trimStart (dropHash (trimStart line))) with
  | none => simp
  | some rest =>
    simp only [Option.some.injEq, exists_eq_left']
    cases (trimStart rest).takeWhile fun c => !isBlank c with
    | nil =>
      constructor
      · intro h
        cases h
      · rintro ⟨rfl, hcode⟩
        exact absurd rfl hcode
    | cons c token =>
      constructor
      · intro h
        obtain rfl := Option.some.inj h
        exact ⟨rfl, List.cons_ne_nil c token⟩
      · rintro ⟨rfl, -⟩
        rfl

/-! ## The line -/

theorem declares_of_declaredLanguage {line code : Text} (h : declaredLanguage line = some code) :
    Declares line code := by
  obtain ⟨rest, hword, htoken, nonempty⟩ := declaredLanguage_eq_some_iff.mp h
  obtain ⟨before, hash, between, beforeBlank, isHash, betweenBlank, hline⟩ :=
    exists_append_opened line
  obtain ⟨word, hopened, isWord⟩ := stripWord_directiveWord_eq_some_iff.mp hword
  obtain ⟨behind, behindBlank, hrest⟩ := exists_append_trimStart rest
  obtain ⟨tail, htrimmed, plain, ends⟩ := takeWhile_plain_eq_iff.mp htoken
  have hparts : line = before ++ hash ++ between ++ word ++ ':' :: (behind ++ code ++ tail) := by
    calc
      line = before ++ hash ++ between ++ (word ++ ':' :: rest) := by rw [← hopened, ← hline]
      _ = before ++ hash ++ between ++ (word ++ ':' :: (behind ++ (code ++ tail))) := by
        rw [← htrimmed, ← hrest]
      _ = before ++ hash ++ between ++ word ++ ':' :: (behind ++ code ++ tail) := by
        simp only [List.append_assoc]
  rw [hparts]
  exact .mk beforeBlank isHash betweenBlank isWord behindBlank nonempty plain ends

theorem Declares.declaredLanguage_eq {line code : Text} (h : Declares line code) :
    declaredLanguage line = some code := by
  obtain @⟨before, hash, between, word, behind, code, tail, beforeBlank, isHash, betweenBlank,
    isWord, behindBlank, nonempty, plain, ends⟩ := h
  obtain ⟨first, others, rfl, hfirst, -⟩ := List.map_eq_cons_iff.mp isWord
  obtain ⟨hblank, hhash⟩ := opens_of_toLower hfirst
  have hopened : opened (before ++ hash ++ between
      ++ (first :: others ++ ':' :: (behind ++ code ++ tail))) =
      first :: others ++ ':' :: (behind ++ code ++ tail) := by
    refine opened_append beforeBlank isHash betweenBlank ?_ ?_
    · rintro c ⟨⟩
      exact hblank
    · intro hhead
      exact hhash (Option.some.inj hhead)
  have hcode : trimStart (behind ++ code ++ tail) = code ++ tail := by
    rw [List.append_assoc, trimStart_append_of_allBlank behindBlank]
    refine trimStart_eq_self ?_
    intro c hc
    obtain ⟨d, code, rfl⟩ := List.exists_cons_of_ne_nil nonempty
    obtain rfl := Option.some.inj hc
    exact plain d List.mem_cons_self
  rw [declaredLanguage_eq_some_iff, List.append_assoc, hopened]
  refine ⟨behind ++ code ++ tail, ?_, ?_, nonempty⟩
  · exact stripWord_directiveWord_eq_some_iff.mpr ⟨first :: others, rfl, isWord⟩
  · exact takeWhile_plain_eq_iff.mpr ⟨tail, hcode, plain, ends⟩

/-- A line is read as declaring a code exactly when it is made of the parts of a declaration of
this code. It declares one code at most, however it is taken apart, and a line that declares none
is read as declaring none. -/
theorem declaredLanguage_eq_some_iff_declares (line : Text) :
    (∀ code, declaredLanguage line = some code ↔ Declares line code)
      ∧ (∀ code other, Declares line code → Declares line other → code = other)
      ∧ (declaredLanguage line = none ↔ ∀ code, ¬ Declares line code) := by
  refine ⟨?_, ?_, ?_⟩
  · intro code
    exact ⟨declares_of_declaredLanguage, Declares.declaredLanguage_eq⟩
  · intro code other hcode hother
    have hsame : some code = some other :=
      hcode.declaredLanguage_eq.symm.trans hother.declaredLanguage_eq
    exact Option.some.inj hsame
  · rw [Option.eq_none_iff_forall_ne_some]
    constructor
    · intro hnone code hdeclares
      exact hnone code hdeclares.declaredLanguage_eq
    · intro hnot code hread
      exact hnot code (declares_of_declaredLanguage hread)

end FeatureLines
