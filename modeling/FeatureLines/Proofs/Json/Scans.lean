import FeatureLines.Proofs.Json.Numbers
import FeatureLines.Proofs.Json.Strings

/-!
# Numbers and strings that are being read

What a number or a string can still become when part of it has been read. All
that one character can do is said once (`NumberScan.grows_of_step`,
`QuotedScan.goes_of_step`), and what a step keeps is read off that.

A number can be brought into range unless it is in an exponent that only adds to
it (`NumberScan.Mends`). A string can be closed unless it ends within the digits
of an escape (`QuotedScan.exists_closed`); these are judged together, so that a
wrong one among them is not seen before the fourth byte is there
(`QuotedScan.Gathers.read_eq_unfinished`).
-/

namespace FeatureLines.Json

/-! ## Numbers -/

namespace NumberScan

/-- What begins a number is neither a letter nor one of these marks. -/
theorem ne_mark_of_start? {c : Char} {scan : NumberScan} (h : start? c = some scan) :
    c.isAlpha = false ∧ c ≠ ',' ∧ c ≠ ':' ∧ c ≠ '\x7d' ∧ c ≠ '\\' ∧ unescape? c = none := by
  by_cases hminus : c = '-'
  · subst hminus
    decide
  · cases hd : digit? c with
    | none => rw [start?, if_neg hminus, hd] at h; cases h
    | some d =>
      obtain ⟨hlt, rfl⟩ := digit?_cases hd
      clear h hminus hd
      revert d
      decide

theorem phase_of_start? {c : Char} {scan : NumberScan} (h : start? c = some scan) :
    scan.phase ≠ .mark ∧ scan.phase ≠ .markSign := by
  unfold start? at h
  repeat' split at h
  all_goals cases h
  all_goals exact ⟨nofun, nofun⟩

theorem exponent_of_start? {c : Char} {scan : NumberScan} (h : start? c = some scan) :
    scan.reversed.exponent = [] := by
  unfold start? at h
  repeat' split at h
  all_goals cases h
  all_goals rfl

/-- The character goes on with a number. -/
inductive Grows (c : Char) : NumberScan → NumberScan → Prop where
  | whole {phase later : NumberPhase} {n : Number} {digits : List Nat}
      (behind : later = .zero ∨ later = .whole) (outside : phase ≠ .exponent) :
      Grows c ⟨phase, n⟩ ⟨later, { n with whole := digits }⟩
  | point {phase : NumberPhase} {n : Number} (outside : phase ≠ .exponent) :
      Grows c ⟨phase, n⟩ ⟨.point, n⟩
  | fraction {phase : NumberPhase} {n : Number} {digits : List Nat} (outside : phase ≠ .exponent) :
      Grows c ⟨phase, n⟩ ⟨.fraction, { n with fraction := digits }⟩
  | mark {phase : NumberPhase} {n : Number} (isMark : c = 'e' ∨ c = 'E')
      (mayEnd : phase.mayEnd = true) (outside : phase ≠ .exponent) :
      Grows c ⟨phase, n⟩ ⟨.mark, n⟩
  | plus {n : Number} (isPlus : c = '+') : Grows c ⟨.mark, n⟩ ⟨.markSign, n⟩
  | minus {n : Number} : Grows c ⟨.mark, n⟩ ⟨.markSign, { n with exponentNegative := true }⟩
  | exponent {phase : NumberPhase} {n : Number} {digits : List Nat} :
      Grows c ⟨phase, n⟩ ⟨.exponent, { n with exponent := digits }⟩

theorem grows_of_afterWhole {phase : NumberPhase} {n : Number} {c : Char} {later : NumberScan}
    (h : afterWhole n c = .more later) (mayEnd : phase.mayEnd = true)
    (outside : phase ≠ .exponent) : Grows c ⟨phase, n⟩ later := by
  unfold afterWhole at h
  by_cases hpoint : c = '.'
  · rw [if_pos hpoint] at h
    cases h
    exact .point outside
  by_cases isMark : c = 'e' ∨ c = 'E'
  · rw [if_neg hpoint, if_pos isMark] at h
    cases h
    exact .mark isMark mayEnd outside
  · rw [if_neg hpoint, if_neg isMark] at h
    cases h

theorem grows_of_step {scan later : NumberScan} {c : Char} (h : scan.step c = .more later) :
    Grows c scan later := by
  obtain ⟨phase, n⟩ := scan
  cases hd : digit? c with
  | none =>
    cases phase with
    | zero => exact grows_of_afterWhole (by simpa only [step, hd] using h) rfl (by simp)
    | whole => exact grows_of_afterWhole (by simpa only [step, hd] using h) rfl (by simp)
    | fraction =>
      simp only [step, hd] at h
      by_cases isMark : c = 'e' ∨ c = 'E'
      · rw [if_pos isMark] at h
        cases h
        exact .mark isMark rfl (by simp)
      · rw [if_neg isMark] at h
        cases h
    | mark =>
      simp only [step, hd] at h
      by_cases isPlus : c = '+'
      · rw [if_pos isPlus] at h
        cases h
        exact .plus isPlus
      by_cases isMinus : c = '-'
      · rw [if_neg isPlus, if_pos isMinus] at h
        cases h
        exact .minus
      · rw [if_neg isPlus, if_neg isMinus] at h
        cases h
    | sign | point | markSign | exponent =>
      simp only [step, hd] at h
      cases h
  | some d =>
    cases phase with
    | sign =>
      cases d with
      | zero =>
        simp only [step, hd] at h
        cases h
        exact .whole (.inl rfl) (by simp)
      | succ d =>
        simp only [step, hd] at h
        cases h
        exact .whole (.inr rfl) (by simp)
    | zero =>
      simp only [step, hd] at h
      cases h
    | whole =>
      simp only [step, hd] at h
      cases h
      exact .whole (.inr rfl) (by simp)
    | point | fraction =>
      simp only [step, hd] at h
      cases h
      exact .fraction (by simp)
    | mark | markSign | exponent =>
      simp only [step, hd] at h
      cases h
      exact .exponent

/-- Digits of an exponent are read in an exponent. -/
theorem exponent_of_step {scan later : NumberScan} {c : Char} (h : scan.step c = .more later)
    (hscan : scan.phase ≠ .exponent → scan.reversed.exponent = [])
    (hlater : later.phase ≠ .exponent) : later.reversed.exponent = [] := by
  cases grows_of_step h with
  | whole behind outside => exact hscan outside
  | point outside => exact hscan outside
  | fraction outside => exact hscan outside
  | mark isMark mayEnd outside => exact hscan outside
  | plus => exact hscan nofun
  | minus => exact hscan nofun
  | exponent => exact absurd rfl hlater

/-- The mark of the exponent stands where the number might end. -/
theorem eq_of_step_mark {scan : NumberScan} {n : Number} {c : Char}
    (h : scan.step c = .more ⟨.mark, n⟩) :
    (c = 'e' ∨ c = 'E') ∧ scan.phase.mayEnd = true ∧ scan.phase ≠ .exponent
      ∧ n = scan.reversed := by
  cases grows_of_step h with
  | whole behind => rcases behind with h | h <;> cases h
  | mark isMark mayEnd outside => exact ⟨isMark, mayEnd, outside, rfl⟩

end NumberScan

/-! ## Numbers that can be brought into range -/

/-- Nines are worth at least as much as there are. -/
theorem le_foldl_nines (m k : Nat) :
    m + k ≤ (List.replicate k 9).foldl (fun n d => n * 10 + d) m := by
  induction k generalizing m with
  | zero => simp
  | succ k ih =>
    have h := ih (m * 10 + 9)
    rw [List.replicate_succ, List.foldl_cons]
    omega

/-- An exponent that takes away more than the digits of the whole part are worth brings a number
into range. -/
theorem Number.inRange_of_length_lt {n : Number} (negative : n.exponentNegative = true)
    (h : n.whole.length < ofDigits n.exponent) : n.inRange = true := by
  have hscaled : n.scaled.2 < 0 := by
    simp only [scaled, negative, if_true]
    omega
  simp [inRange, hscaled]

namespace NumberScan

/-- The scan is not in an exponent, or in one that takes away. -/
def Mends (scan : NumberScan) : Prop :=
  scan.phase = .markSign ∨ scan.phase = .exponent → scan.reversed.exponentNegative = true

theorem cases_of_not_mends {scan : NumberScan} (h : ¬ scan.Mends) :
    (scan.phase = .markSign ∨ scan.phase = .exponent) ∧ scan.reversed.exponentNegative = false := by
  simpa [Mends] using h

/-- A number that has just been begun is in no exponent. -/
theorem mends_of_start? {c : Char} {scan : NumberScan} (h : start? c = some scan) : scan.Mends := by
  unfold start? at h
  repeat' split at h
  all_goals cases h
  all_goals simp [Mends]

/-- In an exponent that takes away as many digits may follow as are needed. -/
theorem exists_inRange_of_exponent {reversed : Number}
    (negative : reversed.exponentNegative = true) :
    ∃ y n, n.inRange = true ∧ ∀ rest, StopsNumber rest →
      read ⟨.exponent, reversed⟩ (y ++ rest) = .stopped n rest := by
  obtain ⟨negative', whole, fraction, exponentNegative, seen⟩ := reversed
  obtain rfl : exponentNegative = true := negative
  let nines := List.replicate (whole.length + 1) 9
  refine ⟨digitsText nines,
    ⟨negative', whole.reverse, fraction.reverse, true, seen.reverse ++ nines⟩, ?_,
    fun rest stops => ?_⟩
  · refine Number.inRange_of_length_lt rfl ?_
    have h := le_foldl_nines (ofDigits seen.reverse) (whole.length + 1)
    simp only [List.length_reverse, ofDigits, List.foldl_append, nines] at h ⊢
    omega
  · rw [takesDigits_exponent.read_digitsText (by simp [nines]),
      read_exponent_of_noDigit stops.noDigit]
    simp [value, nines]

/-- What leads a number to the sign of an exponent. -/
def toExponent : NumberPhase → Text
  | .sign => "0e-".toList
  | .zero | .whole | .fraction => "e-".toList
  | .point => "0e-".toList
  | .mark => "-".toList
  | .markSign | .exponent => []

theorem exists_read_toExponent {phase : NumberPhase} (reversed : Number)
    (h : ¬ (phase = .markSign ∨ phase = .exponent)) :
    ∃ later : Number, later.exponentNegative = true ∧ ∀ text,
      read ⟨phase, reversed⟩ (toExponent phase ++ text) = read ⟨.markSign, later⟩ text := by
  cases phase with
  | markSign => simp at h
  | exponent => simp at h
  | _ => exact ⟨_, rfl, fun _ => rfl⟩

/-- A number that may end ends where no number goes on. -/
theorem read_of_mayEnd {scan : NumberScan} (h : scan.phase.mayEnd = true) {rest : Text}
    (stops : StopsNumber rest) : scan.read rest = .stopped scan.value rest := by
  cases rest with
  | nil => rw [read, if_pos h]
  | cons c rest =>
    obtain ⟨hdigit, hpoint, he, hE⟩ := stops c rfl
    have hended : scan.step c = .ended := by
      obtain ⟨phase, reversed⟩ := scan
      cases phase with
      | sign | point | mark | markSign => cases h
      | zero | whole | fraction | exponent => simp [step, hdigit, afterWhole, hpoint, he, hE]
    rw [read_cons, hended]

/-- Such a number may be gone on with until it is in range. -/
theorem Mends.exists_inRange {scan : NumberScan} (h : scan.Mends) :
    ∃ y n, n.inRange = true
      ∧ ∀ rest, StopsNumber rest → scan.read (y ++ rest) = .stopped n rest := by
  have hsign {later : Number} (negative : later.exponentNegative = true) :
      ∃ y n, n.inRange = true ∧ ∀ rest, StopsNumber rest →
        read ⟨.markSign, later⟩ (y ++ rest) = .stopped n rest := by
    have hfirst : step ⟨.markSign, later⟩ '9' =
        .more ⟨.exponent, { later with exponent := [9] }⟩ := rfl
    have negative' : { later with exponent := [9] }.exponentNegative = true := negative
    obtain ⟨y, n, range, hread⟩ := exists_inRange_of_exponent negative'
    refine ⟨'9' :: y, n, range, fun rest stops => ?_⟩
    rw [List.cons_append, read_cons, hfirst]
    exact hread rest stops
  obtain ⟨phase, reversed⟩ := scan
  by_cases hexponent : phase = .markSign ∨ phase = .exponent
  · have negative : reversed.exponentNegative = true := h hexponent
    rcases hexponent with rfl | rfl
    · exact hsign negative
    · exact exists_inRange_of_exponent negative
  · obtain ⟨later, negative, hlater⟩ := exists_read_toExponent reversed hexponent
    obtain ⟨y, n, range, hread⟩ := hsign negative
    refine ⟨toExponent phase ++ y, n, range, fun rest stops => ?_⟩
    rw [List.append_assoc, hlater]
    exact hread rest stops

/-- A plus sign stands behind the mark of the exponent. -/
theorem eq_of_step_markSign {scan : NumberScan} {n : Number} {c : Char}
    (h : scan.step c = .more ⟨.markSign, n⟩) (hmends : ¬ Mends ⟨.markSign, n⟩) :
    c = '+' ∧ scan = ⟨.mark, n⟩ := by
  cases grows_of_step h with
  | whole behind => rcases behind with h | h <;> cases h
  | plus isPlus => exact ⟨isPlus, rfl⟩
  | minus => exact absurd (fun _ => rfl) hmends

end NumberScan

/-! ## Strings -/

/-- The digits of an escape in which the reading stands. -/
def QuotedPlace.pending? : QuotedPlace → Option Text
  | .digits seen | .highDigits _ seen => some seen
  | _ => none

namespace QuotedScan

/-- A string is closed by a quote. -/
theorem eq_quote_of_closed {kept : Bool} {scan : QuotedScan} {c : Char} {t : Text}
    (h : scan.step kept c = .closed t) : c = '"' := by
  obtain ⟨place, reversed⟩ := scan
  cases place with
  | plain =>
    simp only [step, push] at h
    split at h
    · assumption
    · repeat' split at h
      all_goals cases h
  | _ =>
    simp only [step, judgeDigits, judgeHighDigits, push] at h
    repeat' split at h
    all_goals cases h

/-- The digits of either half of a pair are gathered in the same way. -/
theorem exists_gathers {place : QuotedPlace} {seen : Text} (h : place.pending? = some seen)
    (reversed : Text) :
    ∃ toPlace judge, Gathers true reversed toPlace judge ∧ place = toPlace seen := by
  cases place with
  | digits _ =>
    obtain rfl := Option.some.inj h
    exact ⟨_, _, gathers_digits true reversed, rfl⟩
  | highDigits unit _ =>
    obtain rfl := Option.some.inj h
    exact ⟨_, _, gathers_highDigits true reversed unit, rfl⟩
  | _ => cases h

theorem isSome_hexDigit?_of_hexQuad? {digits : Text} {n : Nat} (h : hexQuad? digits = some n) :
    ∀ c ∈ digits, (hexDigit? c).isSome = true := by
  unfold hexQuad? at h
  split at h
  · split at h
    · next ha hb hc hd => simp [ha, hb, hc, hd]
    · cases h
  · cases h

/-- What is no digit does not become part of an escape. -/
theorem read_ne_closed_of_pending {place : QuotedPlace} {seen : Text}
    (h : place.pending? = some seen) {c : Char} (hc : hexDigit? c = none)
    {reversed text t rest : Text} : read true ⟨place, reversed⟩ (c :: text) ≠ .closed t rest := by
  obtain ⟨toPlace, judge, gathers, rfl⟩ := exists_gathers h reversed
  intro hread
  obtain ⟨digits, n, text', hsplit, hlen, hvalue, -⟩ := gathers.exists_of_read hread
  have hmem : c ∈ digits := by
    rcases List.append_eq_append_iff.mp hsplit with
      ⟨between, rfl, hbetween⟩ | ⟨between, rfl, hbetween⟩
    · cases between with
      | nil =>
        rw [List.nil_append] at hbetween
        rw [hbetween] at hlen
        omega
      | cons d between =>
        obtain ⟨rfl, -⟩ := List.cons.inj hbetween
        simp
    · rw [hbetween, List.length_append] at hlen
      omega
  have hsome := isSome_hexDigit?_of_hexQuad? hvalue c hmem
  rw [hc] at hsome
  cases hsome

/-- Up to the fourth byte the digits of an escape are pending. -/
theorem Gathers.read_eq_unfinished {reversed : Text} {toPlace : Text → QuotedPlace}
    {judge : Text → QuotedStep} (g : Gathers true reversed toPlace judge) {seen text : Text}
    (short : Utf8.width (seen ++ text) < 4) :
    read true ⟨toPlace seen, reversed⟩ text = .unfinished := by
  induction text generalizing seen with
  | nil => rfl
  | cons c text ih =>
    have hsplit : seen ++ c :: text = (seen ++ [c]) ++ text := by simp
    rw [hsplit] at short
    have hseen : Utf8.width (seen ++ [c]) < 4 := by
      simp only [Utf8.width, Utf8.encode, List.flatMap_append, List.length_append] at short ⊢
      omega
    rw [read_cons, g.step, g.gather _ hseen]
    exact ih short

/-- The character goes on with a string, and the reading of it comes from the one place to the
other. -/
inductive Goes (c : Char) : QuotedPlace → QuotedPlace → Prop where
  | plain {place : QuotedPlace} : Goes c place .plain
  | escape (isBackslash : c = '\\') : Goes c .plain .escape
  | digits (isU : c = 'u') : Goes c .escape (.digits [])
  | digit {seen : Text} (short : Utf8.width (seen ++ [c]) < 4) :
      Goes c (.digits seen) (.digits (seen ++ [c]))
  | high {seen : Text} {unit : Nat} : Goes c (.digits seen) (.high unit)
  | highEscape {unit : Nat} (isBackslash : c = '\\') : Goes c (.high unit) (.highEscape unit)
  | highDigits {unit : Nat} (isU : c = 'u') : Goes c (.highEscape unit) (.highDigits unit [])
  | highDigit {unit : Nat} {seen : Text} (short : Utf8.width (seen ++ [c]) < 4) :
      Goes c (.highDigits unit seen) (.highDigits unit (seen ++ [c]))

theorem goes_of_step {kept : Bool} {scan later : QuotedScan} {c : Char}
    (h : scan.step kept c = .more later) : Goes c scan.place later.place := by
  obtain ⟨place, reversed⟩ := scan
  cases place with
  | plain =>
    simp only [step, push] at h
    split at h
    · cases h
    split at h
    · next isBackslash =>
      cases h
      exact .escape isBackslash
    split at h
    · cases h
    · cases h
      exact .plain
  | escape =>
    simp only [step, push] at h
    split at h
    · next isU =>
      cases h
      exact .digits isU
    · split at h
      · cases h
        exact .plain
      · cases h
  | digits seen =>
    simp only [step, judgeDigits, push] at h
    split at h
    · next short =>
      cases h
      exact .digit short
    · repeat' split at h
      all_goals cases h
      · exact .plain
      · exact .high
      · exact .plain
  | high unit =>
    simp only [step] at h
    split at h
    · next isBackslash =>
      cases h
      exact .highEscape isBackslash
    · cases h
  | highEscape unit =>
    simp only [step] at h
    split at h
    · next isU =>
      cases h
      exact .highDigits isU
    · cases h
  | highDigits unit seen =>
    simp only [step, judgeHighDigits, push] at h
    split at h
    · next short =>
      cases h
      exact .highDigit short
    · repeat' split at h
      all_goals cases h
      exact .plain

/-- The reading stands behind the backslash of an escape. -/
def Escapes (scan : QuotedScan) : Prop :=
  scan.place = .escape ∨ ∃ unit, scan.place = .highEscape unit

/-- The digits of an escape go on from the digit before, or begin behind its `u`. -/
theorem pending?_cases {kept : Bool} {scan later : QuotedScan} {c : Char} {seen : Text}
    (h : scan.step kept c = .more later) (hseen : later.place.pending? = some seen) :
    (∃ earlier, scan.place.pending? = some earlier ∧ seen = earlier ++ [c] ∧ Utf8.width seen < 4)
      ∨ seen = [] ∧ c = 'u' ∧ scan.Escapes := by
  obtain ⟨place, reversed⟩ := scan
  obtain ⟨behind, _⟩ := later
  have goes : Goes c place behind := goes_of_step h
  cases goes with
  | digits isU => exact .inr ⟨(Option.some.inj hseen).symm, isU, .inl rfl⟩
  | highDigits isU => exact .inr ⟨(Option.some.inj hseen).symm, isU, .inr ⟨_, rfl⟩⟩
  | digit short =>
    obtain rfl := Option.some.inj hseen
    exact .inl ⟨_, rfl, rfl, short⟩
  | highDigit short =>
    obtain rfl := Option.some.inj hseen
    exact .inl ⟨_, rfl, rfl, short⟩
  | _ => cases hseen

theorem eq_backslash_of_escapes {kept : Bool} {scan later : QuotedScan} {c : Char}
    (h : scan.step kept c = .more later) (hescapes : later.Escapes) : c = '\\' := by
  obtain ⟨place, reversed⟩ := scan
  obtain ⟨behind, _⟩ := later
  have goes : Goes c place behind := goes_of_step h
  rcases hescapes with hplace | ⟨unit, hplace⟩
  · obtain rfl : behind = .escape := hplace
    cases goes with
    | escape isBackslash => exact isBackslash
  · obtain rfl : behind = .highEscape unit := hplace
    cases goes with
    | highEscape isBackslash => exact isBackslash

/-- Where a string takes what begins a number, it is closed by a quote. -/
theorem eq_of_read_quote {scan later : QuotedScan} {kept : Bool} {c : Char} {number : NumberScan}
    (h : scan.step kept c = .more later) (hstart : NumberScan.start? c = some number)
    {text t rest : Text} (hread : scan.read true ('"' :: text) = .closed t rest) : rest = text := by
  obtain ⟨halpha, -, -, -, hbackslash, hescape⟩ := NumberScan.ne_mark_of_start? hstart
  have hu : c ≠ 'u' := by
    rintro rfl
    cases halpha
  obtain ⟨place, reversed⟩ := scan
  cases place with
  | plain =>
    cases hread
    rfl
  | escape => simp [step, hu, hescape] at h
  | digits seen => exact absurd hread (read_ne_closed_of_pending rfl (by decide))
  | high unit => simp [step, hbackslash] at h
  | highEscape unit => simp [step, hu] at h
  | highDigits unit seen => exact absurd hread (read_ne_closed_of_pending rfl (by decide))

/-- A backslash and a `u` begin the digits of an escape, unless the backslash ends an escape or
stands within the digits of one. -/
theorem cases_of_backslash_u {scan between later : QuotedScan} {kept kept' : Bool}
    (h : scan.step kept '\\' = .more between) (h' : between.step kept' 'u' = .more later) :
    (∃ seen, scan.place.pending? = some seen) ∨ later.place.pending? = some []
      ∨ later.place = .plain := by
  obtain ⟨place, reversed⟩ := scan
  cases place with
  | digits seen => exact .inl ⟨seen, rfl⟩
  | highDigits unit seen => exact .inl ⟨seen, rfl⟩
  | highEscape unit => cases h
  | plain =>
    cases h
    cases h'
    exact .inr (.inl rfl)
  | high unit =>
    cases h
    cases h'
    exact .inr (.inl rfl)
  | escape =>
    cases h
    cases h'
    exact .inr (.inr rfl)

/-- Outside the digits of an escape, and before the first of them, a string can be closed. -/
theorem exists_closed (scan : QuotedScan)
    (h : ∀ seen, scan.place.pending? = some seen → seen = []) :
    ∃ y t, ∀ rest, scan.read true (y ++ '"' :: rest) = .closed t rest := by
  obtain ⟨place, reversed⟩ := scan
  cases place with
  | plain => exact ⟨[], _, fun _ => rfl⟩
  | escape => exact ⟨['n'], _, fun _ => rfl⟩
  | digits seen =>
    obtain rfl := h seen rfl
    exact ⟨"0041".toList, _, fun _ => rfl⟩
  | high unit => exact ⟨"\\udc00".toList, _, fun _ => rfl⟩
  | highEscape unit => exact ⟨"udc00".toList, _, fun _ => rfl⟩
  | highDigits unit seen =>
    obtain rfl := h seen rfl
    exact ⟨"dc00".toList, _, fun _ => rfl⟩

end QuotedScan

end FeatureLines.Json
