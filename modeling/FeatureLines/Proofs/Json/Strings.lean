import FeatureLines.Json.Grammar

/-!
# Reading strings

`QuotedScan.read` takes a string from where the reading stands to its closing
quote. `read_start_eq_closed_iff` says what it reads: exactly the spellings of
the grammar, each up to the first quote that is not escaped.

One direction runs the reading along a spelling (`read_append_of_spelling`), the
other takes the text apart at every character of the string
(`exists_spelling_of_read`). The four digits of an escape are the only place
where they need more than one character at a time; `Gathers` treats them once
for both halves of a surrogate pair.

What `quote` writes is one of the spellings
(`stringSpelling_flatMap_escapeChar`), so it is read back as it was.
-/

namespace FeatureLines.Json

/-- What reading a string to its end comes to. -/
inductive QuotedEnd where
  /-- The string has been closed, with this text behind it. -/
  | closed (text rest : Text)
  | refused
  /-- The text ended within the string. -/
  | unfinished

/-- Reads a string to its end. -/
def QuotedScan.read (kept : Bool) : QuotedScan → Text → QuotedEnd
  | _, [] => .unfinished
  | scan, c :: text =>
    match scan.step kept c with
    | .more scan => scan.read kept text
    | .closed read => .closed read text
    | .refused => .refused

/-- Reads on to the end of a string behind a step. -/
def QuotedStep.read (kept : Bool) (step : QuotedStep) (text : Text) : QuotedEnd :=
  match step with
  | .more scan => scan.read kept text
  | .closed read => .closed read text
  | .refused => .refused

namespace QuotedScan

variable {kept : Bool}

theorem read_cons (scan : QuotedScan) (c : Char) (text : Text) :
    scan.read kept (c :: text) = (scan.step kept c).read kept text := by
  rw [read]
  cases scan.step kept c <;> rfl

/-! ## Escapes -/

theorem hexDigit?_lt {c : Char} {d : Nat} (h : hexDigit? c = some d) : c.toNat < 0x80 := by
  have h9 : '9'.toNat = 57 := rfl
  have hf : 'f'.toNat = 102 := rfl
  have hF : 'F'.toNat = 70 := rfl
  simp only [hexDigit?, Char.le_def, UInt32.le_iff_toNat_le, Char.toNat_val] at h
  repeat' split at h
  · omega
  · omega
  · omega
  · cases h

theorem width_cons_of_lt {c : Char} (h : c.toNat < 0x80) (text : Text) :
    Utf8.width (c :: text) = Utf8.width text + 1 := by
  simp [Utf8.width, Utf8.encode, Utf8.encodeChar, h]

/-- Digits that have a value are four, of one byte each. -/
theorem hexQuad?_cases {digits : Text} {n : Nat} (h : hexQuad? digits = some n) :
    ∃ a b c d, digits = [a, b, c, d] ∧ a.toNat < 0x80 ∧ b.toNat < 0x80 ∧ c.toNat < 0x80
      ∧ d.toNat < 0x80 := by
  unfold hexQuad? at h
  split at h
  · next a b c d =>
    split at h
    · next ha hb hc hd =>
      exact ⟨a, b, c, d, rfl, hexDigit?_lt ha, hexDigit?_lt hb, hexDigit?_lt hc, hexDigit?_lt hd⟩
    · cases h
  · cases h

/-- What the two halves of an escape have in common: digits are gathered up to the fourth byte
and then judged. -/
structure Gathers (kept : Bool) (reversed : Text) (place : Text → QuotedPlace)
    (judge : Text → QuotedStep) : Prop where
  step (seen : Text) (c : Char) : step kept ⟨place seen, reversed⟩ c = judge (seen ++ [c])
  gather (seen : Text) (h : Utf8.width seen < 4) : judge seen = .more ⟨place seen, reversed⟩
  refuse (seen : Text) (h : ¬ Utf8.width seen < 4) (none : hexQuad? seen = none) :
    judge seen = .refused

theorem gathers_digits (kept : Bool) (reversed : Text) :
    Gathers kept reversed .digits (judgeDigits kept reversed) where
  step _ _ := rfl
  gather seen h := by rw [judgeDigits, if_pos h]
  refuse seen h none := by rw [judgeDigits, if_neg h, none]

theorem gathers_highDigits (kept : Bool) (reversed : Text) (unit : Nat) :
    Gathers kept reversed (.highDigits unit) (judgeHighDigits unit reversed) where
  step _ _ := rfl
  gather seen h := by rw [judgeHighDigits, if_pos h]
  refuse seen h none := by rw [judgeHighDigits, if_neg h, none]

theorem Gathers.read_digits {reversed : Text} {place : Text → QuotedPlace}
    {judge : Text → QuotedStep} (g : Gathers kept reversed place judge) {digits : Text} {n : Nat}
    (h : hexQuad? digits = some n) (rest : Text) :
    read kept ⟨place [], reversed⟩ (digits ++ rest) = (judge digits).read kept rest := by
  obtain ⟨a, b, c, d, rfl, ha, hb, hc, hd⟩ := hexQuad?_cases h
  have h0 : Utf8.width [] = 0 := rfl
  have h1 : Utf8.width [a] < 4 := by rw [width_cons_of_lt ha]; omega
  have h2 : Utf8.width [a, b] < 4 := by rw [width_cons_of_lt ha, width_cons_of_lt hb]; omega
  have h3 : Utf8.width [a, b, c] < 4 := by
    rw [width_cons_of_lt ha, width_cons_of_lt hb, width_cons_of_lt hc]; omega
  simp only [List.cons_append, List.nil_append, read_cons, g.step, QuotedStep.read,
    g.gather _ h1, g.gather _ h2, g.gather _ h3]

theorem Gathers.exists_of_read {reversed : Text} {place : Text → QuotedPlace}
    {judge : Text → QuotedStep} (g : Gathers kept reversed place judge) {seen text t rest : Text}
    (h : read kept ⟨place seen, reversed⟩ text = .closed t rest) :
    ∃ digits n text', seen ++ text = digits ++ text' ∧ text'.length < text.length
      ∧ hexQuad? digits = some n ∧ (judge digits).read kept text' = .closed t rest := by
  induction text generalizing seen with
  | nil => cases h
  | cons c text ih =>
    rw [read_cons, g.step] at h
    by_cases hwidth : Utf8.width (seen ++ [c]) < 4
    · rw [g.gather _ hwidth] at h
      obtain ⟨digits, n, text', hsplit, hlen, hvalue, hread⟩ := ih h
      exact ⟨digits, n, text', by simpa using hsplit, by rw [List.length_cons]; omega, hvalue,
        hread⟩
    · cases hvalue : hexQuad? (seen ++ [c]) with
      | none => rw [g.refuse _ hwidth hvalue] at h; cases h
      | some n => exact ⟨seen ++ [c], n, text, by simp, by simp, hvalue, h⟩

theorem judgeDigits_of_value {digits : Text} {n : Nat} (h : hexQuad? digits = some n)
    (reversed : Text) :
    judgeDigits kept reversed digits =
      if isHighSurrogate n || isLowSurrogate n then
        if !kept then .more ⟨.plain, reversed⟩
        else if isHighSurrogate n then .more ⟨.high n, reversed⟩
        else .refused
      else push reversed (Char.ofNat n) := by
  obtain ⟨a, b, c, d, rfl, ha, hb, hc, hd⟩ := hexQuad?_cases h
  have hwidth : ¬ Utf8.width [a, b, c, d] < 4 := by
    rw [width_cons_of_lt ha, width_cons_of_lt hb, width_cons_of_lt hc, width_cons_of_lt hd]
    omega
  rw [judgeDigits, if_neg hwidth, h]

theorem judgeHighDigits_of_value {digits : Text} {n : Nat} (h : hexQuad? digits = some n)
    (unit : Nat) (reversed : Text) :
    judgeHighDigits unit reversed digits =
      if isLowSurrogate n then push reversed (ofSurrogates unit n) else .refused := by
  obtain ⟨a, b, c, d, rfl, ha, hb, hc, hd⟩ := hexQuad?_cases h
  have hwidth : ¬ Utf8.width [a, b, c, d] < 4 := by
    rw [width_cons_of_lt ha, width_cons_of_lt hb, width_cons_of_lt hc, width_cons_of_lt hd]
    omega
  rw [judgeHighDigits, if_neg hwidth, h]

/-! ## Spellings are read -/

theorem unescape?_u : unescape? 'u' = none := by decide

/-- A spelling is read as the text that it spells. -/
theorem read_append_of_spelling {t s : Text} (h : StringSpelling kept t s) (reversed rest : Text) :
    read kept ⟨.plain, reversed⟩ (s ++ rest) =
      read kept ⟨.plain, t.reverse ++ reversed⟩ rest := by
  induction h generalizing reversed with
  | nil => rfl
  | plain c quote backslash control _ ih =>
    rw [List.cons_append, read_cons]
    simp only [step]
    rw [if_neg quote, if_neg backslash, if_neg (by omega)]
    exact (ih (c :: reversed)).trans (by simp)
  | short e c known _ ih =>
    have hu : e ≠ 'u' := by rintro rfl; rw [unescape?_u] at known; cases known
    rw [List.cons_append, List.cons_append, read_cons]
    show read kept ⟨.escape, reversed⟩ _ = _
    rw [read_cons]
    simp only [step]
    rw [if_neg hu, known]
    exact (ih (c :: reversed)).trans (by simp)
  | unit digits n value high low _ ih =>
    rw [List.cons_append, List.cons_append, List.append_assoc, read_cons]
    show read kept ⟨.escape, reversed⟩ _ = _
    rw [read_cons]
    show read kept ⟨.digits [], reversed⟩ _ = _
    rw [(gathers_digits _ reversed).read_digits value, judgeDigits_of_value value, high, low]
    exact (ih (Char.ofNat n :: reversed)).trans (by simp)
  | pair isKept first second m n firstValue secondValue high low _ ih =>
    subst isKept
    rw [List.cons_append, List.cons_append, List.append_assoc, List.cons_append,
      List.cons_append, List.append_assoc, read_cons]
    show read true ⟨.escape, reversed⟩ _ = _
    rw [read_cons]
    show read true ⟨.digits [], reversed⟩ _ = _
    rw [(gathers_digits _ reversed).read_digits firstValue, judgeDigits_of_value firstValue, high]
    show read true ⟨.high m, reversed⟩ _ = _
    rw [read_cons]
    show read true ⟨.highEscape m, reversed⟩ _ = _
    rw [read_cons]
    show read true ⟨.highDigits m [], reversed⟩ _ = _
    rw [(gathers_highDigits _ reversed m).read_digits secondValue,
      judgeHighDigits_of_value secondValue, if_pos low]
    exact (ih (ofSurrogates m n :: reversed)).trans (by simp)
  | lone isSkipped digits n value surrogate _ ih =>
    subst isSkipped
    rw [List.cons_append, List.cons_append, List.append_assoc, read_cons]
    show read false ⟨.escape, reversed⟩ _ = _
    rw [read_cons]
    show read false ⟨.digits [], reversed⟩ _ = _
    rw [(gathers_digits _ reversed).read_digits value, judgeDigits_of_value value, if_pos surrogate]
    exact ih reversed

/-! ## What is read is a spelling -/

/-- Behind the `u` of an escape: either it is the escape of one character or of a pair, and the
string goes on behind it, or it is the escape of a surrogate that is skipped. -/
theorem exists_of_read_escape {text t rest reversed : Text}
    (h : read kept ⟨.digits [], reversed⟩ text = .closed t rest) :
    ∃ t' s text', text = s ++ text' ∧ text'.length < text.length
      ∧ read kept ⟨.plain, t'.reverse ++ reversed⟩ text' = .closed t rest
      ∧ ∀ following spelling, StringSpelling kept following spelling →
        StringSpelling kept (t' ++ following) ('\\' :: 'u' :: (s ++ spelling)) := by
  obtain ⟨digits, n, text', hsplit, hlen, hvalue, hread⟩ := (gathers_digits _ _).exists_of_read h
  rw [List.nil_append] at hsplit
  rw [judgeDigits_of_value hvalue] at hread
  by_cases hsurrogate : (isHighSurrogate n || isLowSurrogate n) = true
  · rw [if_pos hsurrogate] at hread
    cases kept with
    | false => exact ⟨[], digits, text', hsplit, hlen, hread, fun _ _ hs =>
        .lone rfl digits n hvalue hsurrogate hs⟩
    | true =>
      rw [if_neg (by decide)] at hread
      by_cases hhigh : isHighSurrogate n = true
      · rw [if_pos hhigh] at hread
        -- The second half must follow with its backslash and its `u`.
        cases text' with
        | nil => cases hread
        | cons backslash text' =>
          change read true ⟨.high n, reversed⟩ _ = _ at hread
          rw [read_cons] at hread
          simp only [step] at hread
          by_cases hbackslash : backslash = '\\'
          · rw [if_pos hbackslash] at hread
            cases text' with
            | nil => cases hread
            | cons u text' =>
              change read true ⟨.highEscape n, reversed⟩ _ = _ at hread
              rw [read_cons] at hread
              simp only [step] at hread
              by_cases hu : u = 'u'
              · rw [if_pos hu] at hread
                obtain ⟨second, m, text'', hsplit', hlen', hvalue', hread⟩ :=
                  (gathers_highDigits _ _ n).exists_of_read hread
                rw [List.nil_append] at hsplit'
                rw [judgeHighDigits_of_value hvalue'] at hread
                by_cases hlow : isLowSurrogate m = true
                · rw [if_pos hlow] at hread
                  subst hbackslash hu
                  refine ⟨[ofSurrogates n m], digits ++ '\\' :: 'u' :: second, text'', ?_, ?_,
                    hread, fun _ spelling hs => ?_⟩
                  · rw [hsplit, hsplit']; simp
                  · simp only [List.length_cons] at hlen; omega
                  · have := StringSpelling.pair rfl digits second n m hvalue hvalue' hhigh hlow hs
                    simpa using this
                · rw [if_neg hlow] at hread; cases hread
              · rw [if_neg hu] at hread; cases hread
          · rw [if_neg hbackslash] at hread; cases hread
      · rw [if_neg hhigh] at hread; cases hread
  · rw [if_neg hsurrogate] at hread
    simp only [Bool.or_eq_true, not_or, Bool.not_eq_true] at hsurrogate
    exact ⟨[Char.ofNat n], digits, text', hsplit, hlen, hread, fun _ _ hs =>
      .unit digits n hvalue hsurrogate.1 hsurrogate.2 hs⟩

/-- What is read up to the closing quote is a spelling of what is given back. The induction is on
the length of the text, because an escape takes several characters at once. -/
theorem exists_spelling_of_read {text t rest reversed : Text}
    (h : read kept ⟨.plain, reversed⟩ text = .closed t rest) :
    ∃ t' s, t = reversed.reverse ++ t' ∧ StringSpelling kept t' s ∧ text = s ++ '"' :: rest := by
  generalize hn : text.length = n
  induction n using Nat.strongRecOn generalizing text reversed with
  | ind n ih =>
    cases text with
    | nil => cases h
    | cons c text =>
      rw [read_cons] at h
      simp only [step] at h
      by_cases hquote : c = '"'
      · rw [if_pos hquote] at h
        obtain ⟨rfl, rfl⟩ := QuotedEnd.closed.inj h
        exact ⟨[], [], by simp, .nil, by rw [hquote]; rfl⟩
      rw [if_neg hquote] at h
      by_cases hbackslash : c = '\\'
      · rw [if_pos hbackslash] at h
        subst hbackslash
        cases text with
        | nil => cases h
        | cons e text =>
          change read kept ⟨.escape, reversed⟩ _ = _ at h
          rw [read_cons] at h
          simp only [step] at h
          by_cases hu : e = 'u'
          · rw [if_pos hu] at h
            subst hu
            obtain ⟨t', s, text', rfl, hlen, hread, hspell⟩ := exists_of_read_escape h
            simp only [List.length_cons, List.length_append] at hn hlen
            obtain ⟨t'', s', rfl, hs', rfl⟩ := ih text'.length (by omega) hread rfl
            exact ⟨t' ++ t'', _, by simp, hspell _ _ hs', by simp⟩
          rw [if_neg hu] at h
          cases hknown : unescape? e with
          | none => rw [hknown] at h; cases h
          | some d =>
            rw [hknown] at h
            simp only [List.length_cons] at hn
            obtain ⟨t', s, rfl, hs, rfl⟩ := ih text.length (by omega) h rfl
            exact ⟨d :: t', '\\' :: e :: s, by simp, .short e d hknown hs, rfl⟩
      rw [if_neg hbackslash] at h
      by_cases hcontrol : c.toNat < 0x20
      · rw [if_pos hcontrol] at h; cases h
      rw [if_neg hcontrol] at h
      rw [List.length_cons] at hn
      obtain ⟨t', s, rfl, hs, rfl⟩ := ih text.length (by omega) h rfl
      exact ⟨c :: t', c :: s, by simp, .plain c hquote hbackslash (by omega) hs, rfl⟩

/-- A string is read to its closing quote exactly when it is spelled up to there. -/
theorem read_start_eq_closed_iff {text t rest : Text} :
    start.read kept text = .closed t rest ↔
      ∃ s, StringSpelling kept t s ∧ text = s ++ '"' :: rest := by
  constructor
  · intro h
    obtain ⟨t', s, rfl, hs, rfl⟩ := exists_spelling_of_read h
    exact ⟨s, hs, rfl⟩
  · rintro ⟨s, hs, rfl⟩
    rw [start, read_append_of_spelling hs, read_cons]
    show QuotedEnd.closed (t.reverse ++ []).reverse rest = _
    rw [List.append_nil, List.reverse_reverse]

end QuotedScan

/-! ## What is written is a spelling -/

/-- A character is written by a letter behind a backslash that stands for it, by its code unit, or
as it is if it may stand so. -/
theorem escapeChar_cases (c : Char) :
    (∃ e, escapeChar c = ['\\', e] ∧ unescape? e = some c)
      ∨ (c.toNat < 0x20 ∧ escapeChar c =
        '\\' :: 'u' :: ['0', '0', hexDigit (c.toNat / 16), hexDigit (c.toNat % 16)])
      ∨ (c ≠ '"' ∧ c ≠ '\\' ∧ 0x20 ≤ c.toNat ∧ escapeChar c = [c]) := by
  unfold escapeChar
  split
  · next hc => exact .inl ⟨'"', rfl, by rw [hc]; rfl⟩
  split
  · next hc => exact .inl ⟨'\\', rfl, by rw [hc]; rfl⟩
  split
  · next hc => exact .inl ⟨'b', rfl, by rw [hc]; rfl⟩
  split
  · next hc => exact .inl ⟨'f', rfl, by rw [hc]; rfl⟩
  split
  · next hc => exact .inl ⟨'n', rfl, by rw [hc]; rfl⟩
  split
  · next hc => exact .inl ⟨'r', rfl, by rw [hc]; rfl⟩
  split
  · next hc => exact .inl ⟨'t', rfl, by rw [hc]; rfl⟩
  split
  · next hcontrol => exact .inr (.inl ⟨hcontrol, rfl⟩)
  · next hquote hbackslash _ _ _ _ _ hcontrol =>
    exact .inr (.inr ⟨hquote, hbackslash, by omega, rfl⟩)

theorem hexQuad?_control {n : Nat} (h : n < 0x20) :
    hexQuad? ['0', '0', hexDigit (n / 16), hexDigit (n % 16)] = some n := by
  revert n
  decide

theorem StringSpelling.escapeChar_append {kept : Bool} {t s : Text} (rest : StringSpelling kept t s)
    (c : Char) : StringSpelling kept (c :: t) (escapeChar c ++ s) := by
  rcases escapeChar_cases c with ⟨e, hwritten, hknown⟩ | ⟨hcontrol, hwritten⟩ |
    ⟨hquote, hbackslash, hcontrol, hwritten⟩
  · rw [hwritten]
    exact .short e c hknown rest
  · have hvalue := hexQuad?_control hcontrol
    have hhigh : isHighSurrogate c.toNat = false := by
      simp only [isHighSurrogate, Bool.and_eq_false_iff, decide_eq_false_iff_not]
      omega
    have hlow : isLowSurrogate c.toNat = false := by
      simp only [isLowSurrogate, Bool.and_eq_false_iff, decide_eq_false_iff_not]
      omega
    have hspelled := StringSpelling.unit _ _ hvalue hhigh hlow rest
    rw [Char.ofNat_toNat] at hspelled
    rw [hwritten]
    exact hspelled
  · rw [hwritten]
    exact .plain c hquote hbackslash hcontrol rest

/-- A text as it is written between quotes spells itself. -/
theorem stringSpelling_flatMap_escapeChar (kept : Bool) (text : Text) :
    StringSpelling kept text (text.flatMap escapeChar) := by
  induction text with
  | nil => exact .nil
  | cons c text ih =>
    rw [List.flatMap_cons]
    exact ih.escapeChar_append c

end FeatureLines.Json
