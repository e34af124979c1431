import FeatureLines.Json.Grammar

/-!
# Reading numbers

`NumberScan.read` takes a number from where the reading stands to the character
that ends it. A number has no closing character, so it is read as far as it
goes: `read_of_spelling` needs that what follows does not go on with it, and
`exists_spelling_of_read` finds the spelling of what has been read.

Both follow the parts of a number from the last to the first: exponent,
fraction, whole part, sign. In each part a run of digits is taken whole; a text
is a run of digits and something else (`exists_digitsText`), and each phase that
gathers digits takes them alike (`TakesDigits.read_digitsText`).
-/

namespace FeatureLines.Json

/-- What reading a number to its end comes to. -/
inductive NumberEnd where
  /-- The number ended before `rest`. -/
  | stopped (number : Number) (rest : Text)
  | refused
  /-- The text ended where the number could not. -/
  | unfinished

/-- Reads a number to its end. -/
def NumberScan.read : NumberScan → Text → NumberEnd
  | scan, [] => if scan.phase.mayEnd then .stopped scan.value [] else .unfinished
  | scan, c :: text =>
    match scan.step c with
    | .more scan => scan.read text
    | .ended => .stopped scan.value (c :: text)
    | .refused => .refused

/-- The text does not start with a digit. -/
def NoDigit (text : Text) : Prop := ∀ c, text.head? = some c → digit? c = none

/-- No number goes on with this text. -/
def StopsNumber (text : Text) : Prop :=
  ∀ c, text.head? = some c → digit? c = none ∧ c ≠ '.' ∧ c ≠ 'e' ∧ c ≠ 'E'

theorem stopsNumber_nil : StopsNumber [] := by simp [StopsNumber]

theorem StopsNumber.noDigit {text : Text} (h : StopsNumber text) : NoDigit text :=
  fun c hc => (h c hc).1

/-! ## Runs of digits -/

theorem digit?_cases {c : Char} {d : Nat} (h : digit? c = some d) : d < 10 ∧ c = digitChar d := by
  refine ⟨digit?_lt h, ?_⟩
  unfold digit? at h
  split at h
  · next hc =>
    obtain rfl := Option.some.inj h
    have h0 : '0'.toNat ≤ c.toNat := hc.1
    rw [digitChar, Nat.add_sub_of_le h0, Char.ofNat_toNat]
  · cases h

/-- A text is a run of digits and something else. -/
theorem exists_digitsText (text : Text) :
    ∃ digits rest, text = digitsText digits ++ rest ∧ (∀ d ∈ digits, d < 10) ∧ NoDigit rest := by
  induction text with
  | nil => exact ⟨[], [], rfl, by simp, by simp [NoDigit]⟩
  | cons c text ih =>
    cases hdigit : digit? c with
    | none =>
      refine ⟨[], c :: text, rfl, by simp, ?_⟩
      rintro _ ⟨⟩
      exact hdigit
    | some d =>
      obtain ⟨hlt, rfl⟩ := digit?_cases hdigit
      obtain ⟨digits, rest, rfl, hsmall, hrest⟩ := ih
      exact ⟨d :: digits, rest, rfl, List.forall_mem_cons.mpr ⟨hlt, hsmall⟩, hrest⟩

namespace NumberScan

theorem read_cons (scan : NumberScan) (c : Char) (text : Text) :
    scan.read (c :: text) =
      match scan.step c with
      | .more scan => scan.read text
      | .ended => .stopped scan.value (c :: text)
      | .refused => .refused := rfl

/-- The phase gathers digits; `put` puts them where they belong. -/
def TakesDigits (phase : NumberPhase) (put : List Nat → Number) : Prop :=
  ∀ c d, digit? c = some d → ∀ seen, step ⟨phase, put seen⟩ c = .more ⟨phase, put (d :: seen)⟩

theorem TakesDigits.read_digitsText {phase : NumberPhase} {put : List Nat → Number}
    (h : TakesDigits phase put) {digits : List Nat} (small : ∀ d ∈ digits, d < 10)
    (seen : List Nat) (rest : Text) :
    read ⟨phase, put seen⟩ (digitsText digits ++ rest) =
      read ⟨phase, put (digits.reverse ++ seen)⟩ rest := by
  induction digits generalizing seen with
  | nil => rfl
  | cons d digits ih =>
    obtain ⟨hlt, hsmall⟩ := List.forall_mem_cons.mp small
    show read ⟨phase, put seen⟩ (digitChar d :: (digitsText digits ++ rest)) = _
    rw [read_cons, h _ _ (digit?_digitChar hlt)]
    exact (ih hsmall (d :: seen)).trans (by simp)

section

variable {negative exponentNegative : Bool} {whole fraction exponent : List Nat}

theorem takesDigits_whole :
    TakesDigits .whole fun seen => ⟨negative, seen, fraction, exponentNegative, exponent⟩ := by
  intro c d hd seen
  simp only [step, hd]

theorem takesDigits_fraction :
    TakesDigits .fraction fun seen => ⟨negative, whole, seen, exponentNegative, exponent⟩ := by
  intro c d hd seen
  simp only [step, hd]

theorem takesDigits_exponent :
    TakesDigits .exponent fun seen => ⟨negative, whole, fraction, exponentNegative, seen⟩ := by
  intro c d hd seen
  simp only [step, hd]

end

/-! ## The exponent -/

variable {negative exponentNegative : Bool} {whole fraction seen : List Nat} {text rest : Text}
  {n : Number}

theorem read_exponent_of_noDigit (h : NoDigit rest) (reversed : Number) :
    read ⟨.exponent, reversed⟩ rest = .stopped (value ⟨.exponent, reversed⟩) rest := by
  cases rest with
  | nil => rfl
  | cons c rest => simp only [read_cons, step, h c rfl]

/-- A digit that is due, and those behind it, are those of the exponent. -/
theorem read_markSign_digitsText {digits : List Nat} (nonempty : digits ≠ [])
    (small : ∀ d ∈ digits, d < 10) (h : NoDigit rest) {phase : NumberPhase}
    (hphase : phase = .mark ∨ phase = .markSign) :
    read ⟨phase, ⟨negative, whole, fraction, exponentNegative, []⟩⟩ (digitsText digits ++ rest) =
      .stopped ⟨negative, whole.reverse, fraction.reverse, exponentNegative, digits⟩ rest := by
  obtain ⟨d, digits, rfl⟩ := List.exists_cons_of_ne_nil nonempty
  obtain ⟨hlt, hsmall⟩ := List.forall_mem_cons.mp small
  have hd : digit? (digitChar d) = some d := digit?_digitChar hlt
  show read _ (digitChar d :: (digitsText digits ++ rest)) = _
  have hfirst : step ⟨phase, ⟨negative, whole, fraction, exponentNegative, []⟩⟩ (digitChar d) =
      .more ⟨.exponent, ⟨negative, whole, fraction, exponentNegative, [d]⟩⟩ := by
    rcases hphase with rfl | rfl <;> simp only [step, hd]
  rw [read_cons, hfirst]
  show read _ (digitsText digits ++ rest) = _
  rw [takesDigits_exponent.read_digitsText hsmall, read_exponent_of_noDigit h]
  simp [value]

theorem read_mark_of_spelling {mark : Char} {e : List Nat} {s : Text}
    (spells : ExponentSpelling exponentNegative e (mark :: s)) (h : NoDigit rest)
    (negative : Bool) (whole fraction : List Nat) :
    (mark = 'e' ∨ mark = 'E') ∧
    read ⟨.mark, ⟨negative, whole, fraction, false, []⟩⟩ (s ++ rest) =
      .stopped ⟨negative, whole.reverse, fraction.reverse, exponentNegative, e⟩ rest := by
  cases spells with
  | plain _ _ isMark nonempty small =>
    exact ⟨isMark, read_markSign_digitsText nonempty small h (.inl rfl)⟩
  | plus _ _ isMark nonempty small =>
    exact ⟨isMark, read_markSign_digitsText nonempty small h (.inr rfl)⟩
  | minus _ _ isMark nonempty small =>
    exact ⟨isMark, read_markSign_digitsText nonempty small h (.inr rfl)⟩

theorem exists_of_read_exponent
    (h : read ⟨.exponent, ⟨negative, whole, fraction, exponentNegative, seen⟩⟩ text =
      .stopped n rest) :
    ∃ digits, text = digitsText digits ++ rest ∧ (∀ d ∈ digits, d < 10)
      ∧ n = ⟨negative, whole.reverse, fraction.reverse, exponentNegative,
        seen.reverse ++ digits⟩ := by
  obtain ⟨digits, behind, rfl, hsmall, hbehind⟩ := exists_digitsText text
  rw [takesDigits_exponent.read_digitsText hsmall, read_exponent_of_noDigit hbehind] at h
  obtain ⟨rfl, rfl⟩ := NumberEnd.stopped.inj h
  exact ⟨digits, rfl, hsmall, by simp [value]⟩

theorem exists_of_read_exponentDigit {c : Char} {d : Nat} (hd : digit? c = some d)
    (h : read ⟨.exponent, ⟨negative, whole, fraction, exponentNegative, [d]⟩⟩ text =
      .stopped n rest) :
    ∃ digits, digits ≠ [] ∧ (∀ d ∈ digits, d < 10) ∧ c :: text = digitsText digits ++ rest
      ∧ n = ⟨negative, whole.reverse, fraction.reverse, exponentNegative, digits⟩ := by
  obtain ⟨digits, rfl, hsmall, rfl⟩ := exists_of_read_exponent h
  obtain ⟨hlt, rfl⟩ := digit?_cases hd
  exact ⟨d :: digits, by simp, List.forall_mem_cons.mpr ⟨hlt, hsmall⟩, rfl, rfl⟩

theorem exists_of_read_markSign
    (h : read ⟨.markSign, ⟨negative, whole, fraction, exponentNegative, []⟩⟩ text =
      .stopped n rest) :
    ∃ digits, digits ≠ [] ∧ (∀ d ∈ digits, d < 10) ∧ text = digitsText digits ++ rest
      ∧ n = ⟨negative, whole.reverse, fraction.reverse, exponentNegative, digits⟩ := by
  cases text with
  | nil => cases h
  | cons c text =>
    cases hd : digit? c with
    | none => simp only [read_cons, step, hd] at h; cases h
    | some d =>
      simp only [read_cons, step, hd] at h
      exact exists_of_read_exponentDigit hd h

theorem exists_of_read_mark {mark : Char} (isMark : mark = 'e' ∨ mark = 'E')
    (h : read ⟨.mark, ⟨negative, whole, fraction, false, []⟩⟩ text = .stopped n rest) :
    ∃ exponentNegative e s, mark :: text = s ++ rest ∧ ExponentSpelling exponentNegative e s
      ∧ n = ⟨negative, whole.reverse, fraction.reverse, exponentNegative, e⟩ := by
  cases text with
  | nil => cases h
  | cons c text =>
    cases hd : digit? c with
    | some d =>
      simp only [read_cons, step, hd] at h
      obtain ⟨e, nonempty, small, htext, rfl⟩ := exists_of_read_exponentDigit hd h
      exact ⟨false, e, _, by rw [htext]; rfl, .plain mark e isMark nonempty small, rfl⟩
    | none =>
      simp only [read_cons, step, hd] at h
      by_cases hplus : c = '+'
      · rw [if_pos hplus] at h
        obtain ⟨e, nonempty, small, rfl, rfl⟩ := exists_of_read_markSign h
        exact ⟨false, e, _, by rw [hplus]; rfl, .plus mark e isMark nonempty small, rfl⟩
      rw [if_neg hplus] at h
      by_cases hminus : c = '-'
      · rw [if_pos hminus] at h
        obtain ⟨e, nonempty, small, rfl, rfl⟩ := exists_of_read_markSign h
        exact ⟨true, e, _, by rw [hminus]; rfl, .minus mark e isMark nonempty small, rfl⟩
      rw [if_neg hminus] at h
      cases h

/-! ## The fraction -/

/-- At this text a number in this phase goes on with an exponent or ends. -/
def AwaitsExponent (phase : NumberPhase) (text : Text) : Prop :=
  phase.mayEnd = true ∧ ∀ reversed c, text.head? = some c →
    step ⟨phase, reversed⟩ c = if c = 'e' ∨ c = 'E' then .more ⟨.mark, reversed⟩ else .ended

theorem awaitsExponent_fraction (h : NoDigit text) : AwaitsExponent .fraction text := by
  refine ⟨rfl, fun reversed c hc => ?_⟩
  simp only [step, h c hc]

theorem step_of_whole {phase : NumberPhase} (hphase : phase = .zero ∨ phase = .whole) {c : Char}
    (h : digit? c = none) (reversed : Number) :
    step ⟨phase, reversed⟩ c = afterWhole reversed c := by
  rcases hphase with rfl | rfl <;> simp only [step, h]

theorem awaitsExponent_whole {phase : NumberPhase} (hphase : phase = .zero ∨ phase = .whole)
    (h : NoDigit text) (point : text.head? ≠ some '.') : AwaitsExponent phase text := by
  refine ⟨by rcases hphase with rfl | rfl <;> rfl, fun reversed c hc => ?_⟩
  have hpoint : c ≠ '.' := by rintro rfl; exact point hc
  rw [step_of_whole hphase (h c hc), afterWhole, if_neg hpoint]

/-- What starts with an exponent, or with what ends the number, starts with nothing else. -/
theorem head_of_exponentSpelling {e : List Nat} {s : Text}
    (spells : ExponentSpelling exponentNegative e s) (h : StopsNumber rest) :
    NoDigit (s ++ rest) ∧ (s ++ rest).head? ≠ some '.' := by
  have hmark {mark : Char} (isMark : mark = 'e' ∨ mark = 'E') (s : Text) :
      NoDigit (mark :: s ++ rest) ∧ (mark :: s ++ rest).head? ≠ some '.' := by
    refine ⟨?_, ?_⟩
    · rintro _ ⟨⟩
      rcases isMark with rfl | rfl <;> decide
    · rcases isMark with rfl | rfl <;> simp
  cases spells with
  | none => exact ⟨h.noDigit, fun hpoint => (h _ hpoint).2.1 rfl⟩
  | plain _ _ isMark => exact hmark isMark _
  | plus _ _ isMark => exact hmark isMark _
  | minus _ _ isMark => exact hmark isMark _

theorem read_of_exponentSpelling {phase : NumberPhase} {e : List Nat} {s : Text}
    (awaits : AwaitsExponent phase (s ++ rest)) (spells : ExponentSpelling exponentNegative e s)
    (h : StopsNumber rest) :
    read ⟨phase, ⟨negative, whole, fraction, false, []⟩⟩ (s ++ rest) =
      .stopped ⟨negative, whole.reverse, fraction.reverse, exponentNegative, e⟩ rest := by
  cases s with
  | nil =>
    cases spells
    cases rest with
    | nil => simp only [List.append_nil, read, awaits.1, if_true]; rfl
    | cons c rest =>
      obtain ⟨-, -, he, hE⟩ := h c rfl
      rw [List.nil_append, read_cons, awaits.2 _ _ rfl, if_neg (by simp [he, hE])]
      rfl
  | cons mark s =>
    obtain ⟨isMark, hread⟩ := read_mark_of_spelling spells h.noDigit negative whole fraction
    rw [List.cons_append, read_cons, awaits.2 _ _ rfl, if_pos isMark]
    exact hread

theorem exists_of_read_awaitsExponent {phase : NumberPhase} (awaits : AwaitsExponent phase text)
    (h : read ⟨phase, ⟨negative, whole, fraction, false, []⟩⟩ text = .stopped n rest) :
    ∃ exponentNegative e s, text = s ++ rest ∧ ExponentSpelling exponentNegative e s
      ∧ n = ⟨negative, whole.reverse, fraction.reverse, exponentNegative, e⟩ := by
  cases text with
  | nil =>
    rw [read, if_pos awaits.1] at h
    obtain ⟨rfl, rfl⟩ := NumberEnd.stopped.inj h
    exact ⟨false, [], [], rfl, .none, rfl⟩
  | cons c text =>
    rw [read_cons, awaits.2 _ _ rfl] at h
    by_cases isMark : c = 'e' ∨ c = 'E'
    · rw [if_pos isMark] at h
      exact exists_of_read_mark isMark h
    · rw [if_neg isMark] at h
      obtain ⟨rfl, rfl⟩ := NumberEnd.stopped.inj h
      exact ⟨false, [], [], rfl, .none, rfl⟩

/-! ## The whole part -/

/-- Behind the digits of the whole part. -/
theorem read_of_fractionSpelling {phase : NumberPhase} (hphase : phase = .zero ∨ phase = .whole)
    {f e : List Nat} {fs es : Text} (spellsFraction : FractionSpelling f fs)
    (spellsExponent : ExponentSpelling exponentNegative e es) (h : StopsNumber rest) :
    read ⟨phase, ⟨negative, whole, [], false, []⟩⟩ (fs ++ (es ++ rest)) =
      .stopped ⟨negative, whole.reverse, f, exponentNegative, e⟩ rest := by
  obtain ⟨hdigit, hpoint⟩ := head_of_exponentSpelling spellsExponent h
  cases spellsFraction with
  | none =>
    exact read_of_exponentSpelling (awaitsExponent_whole hphase hdigit hpoint) spellsExponent h
  | some _ nonempty small =>
    obtain ⟨d, digits, rfl⟩ := List.exists_cons_of_ne_nil nonempty
    obtain ⟨hlt, hsmall⟩ := List.forall_mem_cons.mp small
    have hd : digit? (digitChar d) = some d := digit?_digitChar hlt
    rw [List.cons_append, read_cons, step_of_whole hphase (by decide)]
    show read ⟨.point, _⟩ (digitChar d :: (digitsText digits ++ (es ++ rest))) = _
    simp only [read_cons, step, hd]
    rw [takesDigits_fraction.read_digitsText hsmall,
      read_of_exponentSpelling (awaitsExponent_fraction hdigit) spellsExponent h]
    simp

theorem exists_of_read_whole {phase : NumberPhase} (hphase : phase = .zero ∨ phase = .whole)
    (hdigit : NoDigit text)
    (h : read ⟨phase, ⟨negative, whole, [], false, []⟩⟩ text = .stopped n rest) :
    ∃ f fs exponentNegative e es, text = fs ++ (es ++ rest) ∧ FractionSpelling f fs
      ∧ ExponentSpelling exponentNegative e es
      ∧ n = ⟨negative, whole.reverse, f, exponentNegative, e⟩ := by
  by_cases hpoint : text.head? = some '.'
  · obtain ⟨text, rfl⟩ := List.head?_eq_some_iff.mp hpoint
    rw [read_cons, step_of_whole hphase (by decide)] at h
    change read ⟨.point, _⟩ text = _ at h
    cases text with
    | nil => cases h
    | cons c text =>
      cases hd : digit? c with
      | none => simp only [read_cons, step, hd] at h; cases h
      | some d =>
        simp only [read_cons, step, hd] at h
        obtain ⟨hlt, rfl⟩ := digit?_cases hd
        obtain ⟨digits, behind, rfl, hsmall, hbehind⟩ := exists_digitsText text
        rw [takesDigits_fraction.read_digitsText hsmall] at h
        obtain ⟨exponentNegative, e, es, rfl, spells, rfl⟩ :=
          exists_of_read_awaitsExponent (awaitsExponent_fraction hbehind) h
        exact ⟨d :: digits, _, exponentNegative, e, es, rfl,
          .some _ (by simp) (List.forall_mem_cons.mpr ⟨hlt, hsmall⟩), spells, by simp⟩
  · obtain ⟨exponentNegative, e, es, rfl, spells, rfl⟩ :=
      exists_of_read_awaitsExponent (awaitsExponent_whole hphase hdigit hpoint) h
    exact ⟨[], [], exponentNegative, e, es, rfl, .none, spells, rfl⟩

/-- The number that begins with this digit, or goes on with it behind its sign. -/
def firstDigit (negative : Bool) (d : Nat) : NumberScan :=
  ⟨if d = 0 then .zero else .whole, ⟨negative, [d], [], false, []⟩⟩

theorem start?_of_digit {c : Char} {d : Nat} (h : digit? c = some d) :
    start? c = some (firstDigit false d) := by
  have hc : c ≠ '-' := by
    rintro rfl
    have hnone : digit? '-' = none := by decide
    rw [hnone] at h
    cases h
  rw [start?, if_neg hc, h]
  cases d <;> rfl

theorem step_sign_of_digit {c : Char} {d : Nat} (h : digit? c = some d) :
    step ⟨.sign, ⟨negative, [], [], false, []⟩⟩ c = .more (firstDigit negative d) := by
  cases d <;> (simp only [step, h]; rfl)

theorem read_firstDigit_of_spelling {d : Nat} {digits f e : List Nat} {fs es : Text}
    (isWhole : IsWhole (d :: digits)) (spellsFraction : FractionSpelling f fs)
    (spellsExponent : ExponentSpelling exponentNegative e es) (h : StopsNumber rest)
    (negative : Bool) :
    (firstDigit negative d).read (digitsText digits ++ (fs ++ (es ++ rest))) =
      .stopped ⟨negative, d :: digits, f, exponentNegative, e⟩ rest := by
  rcases isWhole with hzero | ⟨hhead, hsmall⟩
  · obtain ⟨rfl, rfl⟩ := List.cons.inj hzero
    exact read_of_fractionSpelling (.inl rfl) spellsFraction spellsExponent h
  · have hd : d ≠ 0 := by simpa using hhead
    rw [firstDigit, if_neg hd, takesDigits_whole.read_digitsText (List.forall_mem_cons.mp hsmall).2,
      read_of_fractionSpelling (.inr rfl) spellsFraction spellsExponent h]
    simp

theorem exists_of_read_firstDigit {d : Nat} (hlt : d < 10)
    (h : (firstDigit negative d).read text = .stopped n rest) :
    ∃ digits f fs exponentNegative e es, text = digitsText digits ++ (fs ++ (es ++ rest))
      ∧ IsWhole (d :: digits) ∧ FractionSpelling f fs ∧ ExponentSpelling exponentNegative e es
      ∧ n = ⟨negative, d :: digits, f, exponentNegative, e⟩ := by
  by_cases hd : d = 0
  · subst hd
    -- Behind a leading zero no digit may follow.
    have hdigit : NoDigit text := by
      intro c hc
      obtain ⟨text, rfl⟩ := List.head?_eq_some_iff.mp hc
      cases hdigit : digit? c with
      | none => rfl
      | some e => simp only [firstDigit, if_true, read_cons, step, hdigit] at h; cases h
    obtain ⟨f, fs, exponentNegative, e, es, rfl, hf, he, rfl⟩ :=
      exists_of_read_whole (.inl rfl) hdigit h
    exact ⟨[], f, fs, exponentNegative, e, es, rfl, .inl rfl, hf, he, rfl⟩
  · rw [firstDigit, if_neg hd] at h
    obtain ⟨digits, behind, rfl, hsmall, hbehind⟩ := exists_digitsText text
    rw [takesDigits_whole.read_digitsText hsmall] at h
    obtain ⟨f, fs, exponentNegative, e, es, rfl, hf, he, rfl⟩ :=
      exists_of_read_whole (.inr rfl) hbehind h
    refine ⟨digits, f, fs, exponentNegative, e, es, rfl, .inr ⟨?_, ?_⟩, hf, he, by simp⟩
    · simpa using hd
    · exact List.forall_mem_cons.mpr ⟨hlt, hsmall⟩

/-! ## Numbers -/

/-- A spelling that is not gone on with is read as the number that it spells. -/
theorem read_of_spelling {s : Text} (spells : NumberSpelling n s) (h : StopsNumber rest) :
    ∃ c s' scan, s = c :: s' ∧ start? c = some scan ∧ scan.read (s' ++ rest) = .stopped n rest := by
  obtain ⟨negative, digits, f, exponentNegative, e⟩ := n
  obtain ⟨fs, es, isWhole, spellsFraction, spellsExponent⟩ := spells
  change IsWhole digits at isWhole
  change FractionSpelling f fs at spellsFraction
  change ExponentSpelling exponentNegative e es at spellsExponent
  obtain ⟨d, digits, rfl, hlt⟩ : ∃ d ds, digits = d :: ds ∧ d < 10 := by
    rcases isWhole with hzero | ⟨hhead, hsmall⟩
    · exact ⟨0, [], hzero, by omega⟩
    · cases digits with
      | nil => cases hhead
      | cons d digits => exact ⟨d, digits, rfl, hsmall d (by simp)⟩
  have hd : digit? (digitChar d) = some d := digit?_digitChar hlt
  have hread := read_firstDigit_of_spelling isWhole spellsFraction spellsExponent h negative
  cases negative with
  | false =>
    refine ⟨digitChar d, digitsText digits ++ fs ++ es, _, rfl, start?_of_digit hd, ?_⟩
    simpa using hread
  | true =>
    refine ⟨'-', digitChar d :: (digitsText digits ++ fs ++ es), _, rfl, rfl, ?_⟩
    rw [List.cons_append, read_cons, step_sign_of_digit hd]
    simpa using hread

/-- What is read up to where the number ends is a spelling of it. -/
theorem exists_spelling_of_read {c : Char} {scan : NumberScan} (hstart : start? c = some scan)
    (h : scan.read text = .stopped n rest) :
    ∃ s, NumberSpelling n (c :: s) ∧ text = s ++ rest := by
  by_cases hminus : c = '-'
  · subst hminus
    obtain rfl : ⟨.sign, ⟨true, [], [], false, []⟩⟩ = scan := Option.some.inj hstart
    cases text with
    | nil => cases h
    | cons c text =>
      cases hd : digit? c with
      | none => simp only [read_cons, step, hd] at h; cases h
      | some d =>
        rw [read_cons, step_sign_of_digit hd] at h
        obtain ⟨hlt, rfl⟩ := digit?_cases hd
        obtain ⟨digits, f, fs, exponentNegative, e, es, rfl, isWhole, hf, he, rfl⟩ :=
          exists_of_read_firstDigit hlt h
        exact ⟨_, .mk _ fs es isWhole hf he, by simp [digitsText]⟩
  · cases hd : digit? c with
    | none => rw [start?, if_neg hminus, hd] at hstart; cases hstart
    | some d =>
      rw [start?_of_digit hd] at hstart
      obtain rfl := Option.some.inj hstart
      obtain ⟨hlt, rfl⟩ := digit?_cases hd
      obtain ⟨digits, f, fs, exponentNegative, e, es, rfl, isWhole, hf, he, rfl⟩ :=
        exists_of_read_firstDigit hlt h
      exact ⟨digitsText digits ++ fs ++ es, .mk _ fs es isWhole hf he, by simp⟩

end NumberScan

end FeatureLines.Json
