import FeatureLines.Proofs.Text.Truncation
import Mathlib.Order.Bounds.Basic

/-!
# What a fault says of the bytes

Bytes that are not the encoding of a text are refused with a fault, and the
bytes alone determine which. `Describes` says it without reading them: the index
is the length of their longest well-formed start, they are unfinished if more
bytes could make them well-formed, and otherwise the length counts the bytes at
the index that begin a character, as many as there are, or one if none do.

The reading knows nothing of this. It stops at the first byte that it judges
wrong, and `Stops` is what is known there. The two meet in
`judge_ne_neither_iff`: bytes are judged to be neither a character nor the start
of one exactly when no character begins with them. That a start can be completed
is shown by going on with a byte that may follow (`exists_next_of_start`), at
most three times. Past this point no proof looks at the ranges of bytes, but for
the last section: there the forms that UTF-8 excludes are found to go wrong at
their first byte or at their second, so that only one byte of them is counted.
-/

namespace FeatureLines.Utf8

/-! ## The encoding is that of the core library -/

theorem encodeChar_eq_utf8EncodeChar (c : Char) : encodeChar c = String.utf8EncodeChar c := by
  have hmax := toNat_lt c
  have hval : c.val.toNat = c.toNat := rfl
  rcases encodeChar_cases c with ⟨hc, hec⟩ | ⟨hc, hc', hec⟩ | ⟨hc, hc', hec⟩ | ⟨hc, hec⟩ <;>
    rw [hec, String.utf8EncodeChar.eq_1, hval]
  · rw [if_pos (by omega)]
  · rw [if_neg (by omega), if_pos (by omega)]
    simp (disch := omega) only [List.cons.injEq, ← UInt8.toNat_inj, toNat_byte, and_true]
    omega
  · rw [if_neg (by omega), if_neg (by omega), if_pos (by omega)]
    simp (disch := omega) only [List.cons.injEq, ← UInt8.toNat_inj, toNat_byte, and_true]
    omega
  · rw [if_neg (by omega), if_neg (by omega), if_neg (by omega)]
    simp (disch := omega) only [List.cons.injEq, ← UInt8.toNat_inj, toNat_byte, and_true]
    omega

theorem encode_eq_flatMap_utf8EncodeChar (text : Text) :
    encode text = text.flatMap String.utf8EncodeChar := by
  rw [encode, funext encodeChar_eq_utf8EncodeChar]

/-- Well-formed bytes are those that the core library takes for UTF-8. -/
theorem wellFormed_iff_isValidUTF8 {bytes : List UInt8} :
    WellFormed bytes ↔ bytes.toByteArray.IsValidUTF8 := by
  constructor
  · rintro ⟨text, rfl⟩
    exact ⟨text, by rw [encode_eq_flatMap_utf8EncodeChar]; rfl⟩
  · rintro ⟨text, htext⟩
    refine ⟨text, ?_⟩
    rw [encode_eq_flatMap_utf8EncodeChar]
    have hdata := congrArg (fun array : ByteArray => array.data.toList) htext
    simpa [List.utf8Encode] using hdata

/-! ## Bytes with which a character begins -/

/-- The bytes begin the encoding of a character, or are all of it. -/
def BeginsChar (part : List UInt8) : Prop := ∃ c, part <+: encodeChar c

theorem BeginsChar.of_isPrefix {part longer : List UInt8} (h : BeginsChar longer)
    (hpart : part <+: longer) : BeginsChar part := by
  obtain ⟨c, hc⟩ := h
  exact ⟨c, hpart.trans hc⟩

/-- All the bytes of a character are judged to be this character. -/
theorem judge_encodeChar (c : Char) : judge (encodeChar c) = .whole c := by
  have hmax := toNat_lt c
  have hsur := not_surrogate c
  have hofNat : ∀ n, n = c.toNat → Char.ofNat n = c := by
    rintro _ rfl
    exact Char.ofNat_toNat c
  rcases encodeChar_cases c with ⟨hc, hec⟩ | ⟨hc, hc', hec⟩ | ⟨hc, hc', hec⟩ | ⟨hc, hec⟩ <;>
    rw [hec] <;>
    simp (disch := omega) only [judge, mayFollow_iff, isTail_iff, toNat_byte]
  · rw [if_pos (by omega), hofNat _ (by omega)]
  · rw [if_pos (by omega), if_pos (by omega), hofNat _ (by omega)]
  · rw [if_pos (by omega), if_pos (by omega), hofNat _ (by omega)]
  · rw [if_pos (by omega), hofNat _ (by omega)]

/-! ## The start of a character can be completed -/

/-- The three lengths of a start. -/
theorem start_cases {part : List UInt8} (h : judge part = .start) :
    (∃ a, part = [a] ∧ 0xC2 ≤ a.toNat ∧ a.toNat ≤ 0xF4)
      ∨ (∃ a b, part = [a, b] ∧ 0xE0 ≤ a.toNat ∧ a.toNat ≤ 0xF4 ∧ mayFollow a b = true)
      ∨ ∃ a b c, part = [a, b, c] ∧ 0xF0 ≤ a.toNat ∧ a.toNat ≤ 0xF4 ∧ mayFollow a b = true
        ∧ isTail c = true := by
  unfold judge at h
  split at h
  · next a =>
    split at h
    · cases h
    · split at h
      · next ha => exact .inl ⟨a, rfl, ha⟩
      · cases h
  · next a b =>
    split at h
    · next hab =>
      split at h
      · cases h
      · next ha => exact .inr (.inl ⟨a, b, rfl, by omega, hab.2⟩)
    · cases h
  · next a b c =>
    split at h
    · next habc =>
      split at h
      · cases h
      · next ha => exact .inr (.inr ⟨a, b, c, rfl, by omega, habc.2⟩)
    · cases h
  · split at h <;> cases h
  · cases h

theorem length_of_start {part : List UInt8} (h : judge part = .start) :
    1 ≤ part.length ∧ part.length ≤ 3 := by
  rcases start_cases h with ⟨a, rfl, -⟩ | ⟨a, b, rfl, -⟩ | ⟨a, b, c, rfl, -⟩ <;> simp

/-- The least byte that may follow the first byte `a`. -/
def leastSecond (a : UInt8) : UInt8 :=
  if a.toNat = 0xE0 then 0xA0 else if a.toNat = 0xF0 then 0x90 else 0x80

theorem mayFollow_leastSecond (a : UInt8) : mayFollow a (leastSecond a) = true := by
  rw [mayFollow_iff]
  unfold leastSecond
  split
  · next ha => simp [ha]
  · split
    · next ha => simp [ha]
    · next hE0 hF0 => simp [hE0, hF0]

theorem exists_next_of_start {part : List UInt8} (h : judge part = .start) :
    ∃ b, judge (part ++ [b]) ≠ .neither := by
  have htail : isTail 0x80 = true := rfl
  rcases start_cases h with ⟨a, rfl, ha⟩ | ⟨a, b, rfl, hlow, hhigh, hab⟩ |
    ⟨a, b, c, rfl, hlow, hhigh, hab, hc⟩
  · refine ⟨leastSecond a, ?_⟩
    rw [List.singleton_append, judge, if_pos ⟨ha.1, ha.2, mayFollow_leastSecond a⟩]
    split <;> simp
  · refine ⟨0x80, ?_⟩
    rw [List.cons_append, List.singleton_append, judge, if_pos ⟨hlow, hhigh, hab, htail⟩]
    split <;> simp
  · refine ⟨0x80, ?_⟩
    rw [List.cons_append, List.cons_append, List.singleton_append, judge,
      if_pos ⟨hlow, hhigh, hab, hc, htail⟩]
    simp

/-- Going on with bytes that may follow ends with a character after three of them at most. -/
theorem beginsChar_of_start {part : List UInt8} (h : judge part = .start) : BeginsChar part := by
  obtain ⟨b, hb⟩ := exists_next_of_start h
  have hpart : part <+: part ++ [b] := List.prefix_append part [b]
  have hlength := (length_of_start h).2
  cases hnext : judge (part ++ [b]) with
  | whole c => exact ⟨c, eq_encodeChar_of_judge hnext ▸ hpart⟩
  | start => exact (beginsChar_of_start hnext).of_isPrefix hpart
  | neither => exact absurd hnext hb
termination_by 4 - part.length
decreasing_by
  rw [List.length_append, List.length_singleton]
  omega

/-- Bytes are judged to be a character or the start of one exactly when a character begins with
them. -/
theorem judge_ne_neither_iff {part : List UInt8} (given : part ≠ []) :
    judge part ≠ .neither ↔ BeginsChar part := by
  constructor
  · intro h
    cases hpart : judge part with
    | whole c => exact ⟨c, eq_encodeChar_of_judge hpart ▸ List.prefix_rfl⟩
    | start => exact beginsChar_of_start hpart
    | neither => exact absurd hpart h
  · rintro ⟨c, rest, hrest⟩
    by_cases hwhole : rest = []
    · rw [hwhole, List.append_nil] at hrest
      simp [hrest, judge_encodeChar]
    · simp [judge_of_encodeChar_eq hrest.symm given hwhole]

/-- No character begins with another. -/
theorem eq_encodeChar_of_isPrefix {c : Char} {part : List UInt8} (hc : encodeChar c <+: part)
    (hpart : BeginsChar part) : part = encodeChar c := by
  obtain ⟨rest, rfl⟩ := hc
  obtain ⟨d, tail, hd⟩ := hpart
  by_cases hwhole : rest = []
  · rw [hwhole, List.append_nil]
  · have hstart : judge (encodeChar c) = .start :=
      judge_of_encodeChar_eq (by rw [← hd, List.append_assoc]) (encodeChar_ne_nil c)
        (by simp [hwhole])
    cases (judge_encodeChar c).symm.trans hstart

/-! ## Where the reading stops -/

/-- The reading of the bytes has stopped: within a character, or at a byte with which the bytes of a
character cannot go on. -/
inductive Stops : List UInt8 → Fault → Prop where
  | unfinished (text : Text) {part : List UInt8} (begun : judge part = .start) :
      Stops (encode text ++ part) (.unfinished (encode text).length)
  | broken (text : Text) {part rest : List UInt8} {b : UInt8}
      (begun : part = [] ∨ judge part = .start) (stray : judge (part ++ [b]) = .neither) :
      Stops (encode text ++ (part ++ b :: rest))
        (.broken (encode text).length (max 1 part.length))

/-- The text read so far stays in front, and the pending bytes are none or a start. -/
theorem stops_of_decodeFrom {before : Text} {pending bytes : List UInt8} {fault : Fault}
    (begun : pending = [] ∨ judge pending = .start)
    (h : decodeFrom (encode before).length pending bytes = .error fault) :
    Stops (encode before ++ (pending ++ bytes)) fault := by
  generalize hindex : (encode before).length = index at h
  fun_induction decodeFrom index pending bytes generalizing before fault with
  | case1 => cases h
  | case2 index pending hpending =>
    obtain rfl := Except.error.inj h
    rw [List.append_nil, ← hindex]
    exact .unfinished before (begun.resolve_left (by simpa using hpending))
  | case3 index pending b rest c hjudge ih =>
    have hchar := eq_encodeChar_of_judge hjudge
    have hlength : (encode (before ++ [c])).length = index + pending.length + 1 := by
      simp [← hchar, ← hindex, Nat.add_assoc]
    have hrest : decodeFrom (index + pending.length + 1) [] rest = .error fault := by
      cases hread : decodeFrom (index + pending.length + 1) [] rest with
      | error other =>
        rw [hread] at h
        exact h
      | ok text =>
        rw [hread] at h
        cases h
    have hbytes : encode before ++ (pending ++ b :: rest) =
        encode (before ++ [c]) ++ ([] ++ rest) := by
      simp [← hchar]
    rw [hbytes]
    exact ih (.inl rfl) hlength hrest
  | case4 index pending b rest hjudge ih =>
    rw [List.append_cons pending b rest]
    exact ih (.inr hjudge) hindex h
  | case5 index pending b rest hjudge =>
    obtain rfl := Except.error.inj h
    rw [← hindex]
    exact .broken before begun hjudge

theorem stops_of_decode {bytes : List UInt8} {fault : Fault} (h : decode bytes = .error fault) :
    Stops bytes fault :=
  @stops_of_decodeFrom [] [] bytes fault (.inl rfl) h

/-! ## What stands there -/

/-- More bytes could make the bytes well-formed. -/
def Completable (bytes : List UInt8) : Prop := ∃ more, WellFormed (bytes ++ more)

/-- How long the well-formed starts of the bytes are. -/
def startLengths (bytes : List UInt8) : Set Nat :=
  {n | ∃ start, start <+: bytes ∧ WellFormed start ∧ start.length = n}

/-- The lengths up to three of the starts of the bytes with which a character begins, and one. -/
def partLengths (bytes : List UInt8) : Set Nat :=
  {n | 1 ≤ n ∧ n ≤ 3 ∧ (n = 1 ∨ ∃ part, part <+: bytes ∧ part.length = n ∧ BeginsChar part)}

/-- A text in front does not decide whether bytes are well-formed. -/
theorem wellFormed_encode_append_iff {text : Text} {bytes : List UInt8} :
    WellFormed (encode text ++ bytes) ↔ WellFormed bytes := by
  constructor
  · rintro ⟨whole, hwhole⟩
    rcases exists_of_append_eq_encode hwhole with ⟨-, after, -, -, hafter⟩ | ⟨index, hcut⟩
    · exact ⟨after, hafter⟩
    · cases (decode_of_cutAt hcut).symm.trans (decode_eq_ok_iff.mpr rfl)
  · rintro ⟨after, rfl⟩
    exact ⟨text ++ after, (encode_append text after).symm⟩

section

variable {part : List UInt8}

theorem not_isPrefix_of_start (begun : judge part = .start) (c : Char) :
    ¬ encodeChar c <+: part := by
  intro hc
  have hpart := eq_encodeChar_of_isPrefix hc (beginsChar_of_start begun)
  rw [hpart, judge_encodeChar] at begun
  cases begun

variable {b : UInt8}

theorem not_beginsChar_of_stray (stray : judge (part ++ [b]) = .neither) :
    ¬ BeginsChar (part ++ [b]) :=
  fun hbegins => (judge_ne_neither_iff (by simp)).mpr hbegins stray

/-- No character stands at the front of bytes in which a stray byte follows the start of one. -/
theorem not_isPrefix_of_stray (begun : part = [] ∨ judge part = .start)
    (stray : judge (part ++ [b]) = .neither) (rest : List UInt8) (c : Char) :
    ¬ encodeChar c <+: part ++ b :: rest := by
  intro hc
  have hnot := not_beginsChar_of_stray stray
  have hstray : part ++ [b] <+: part ++ b :: rest := ⟨rest, by simp⟩
  rcases List.prefix_or_prefix_of_prefix hstray hc with hlong | hshort
  · exact hnot ⟨c, hlong⟩
  · rcases List.prefix_concat_iff.mp hshort with hwhole | hpart
    · exact hnot ⟨c, hwhole ▸ List.prefix_rfl⟩
    · rcases begun with rfl | hstart
      · exact encodeChar_ne_nil c (List.prefix_nil.mp hpart)
      · exact not_isPrefix_of_start hstart c hpart

theorem isGreatest_partLengths (begun : part = [] ∨ judge part = .start)
    (stray : judge (part ++ [b]) = .neither) (rest : List UInt8) :
    IsGreatest (partLengths (part ++ b :: rest)) (max 1 part.length) := by
  constructor
  · rcases begun with rfl | hstart
    · exact ⟨le_rfl, by simp, .inl rfl⟩
    · obtain ⟨hone, hthree⟩ := length_of_start hstart
      rw [max_eq_right hone]
      exact ⟨hone, hthree,
        .inr ⟨part, List.prefix_append _ _, rfl, beginsChar_of_start hstart⟩⟩
  · rintro n ⟨-, -, rfl | ⟨longer, hlonger, rfl, hbegins⟩⟩
    · exact le_max_left 1 _
    · by_contra hlong
      have hstray : part ++ [b] <+: part ++ b :: rest := ⟨rest, by simp⟩
      have hinside : part ++ [b] <+: longer := by
        refine List.prefix_of_prefix_length_le hstray hlonger ?_
        simp only [List.length_append, List.length_singleton]
        omega
      exact not_beginsChar_of_stray stray (hbegins.of_isPrefix hinside)

end

/-- What stands behind a text cannot lengthen it if it begins with no character. -/
theorem isGreatest_startLengths (text : Text) {tail : List UInt8}
    (opens : ∀ c, ¬ encodeChar c <+: tail) :
    IsGreatest (startLengths (encode text ++ tail)) (encode text).length := by
  constructor
  · exact ⟨encode text, List.prefix_append _ _, ⟨text, rfl⟩, rfl⟩
  · rintro n ⟨start, hstart, hformed, rfl⟩
    by_contra hlong
    obtain ⟨behind, rfl⟩ : encode text <+: start :=
      List.prefix_of_prefix_length_le (List.prefix_append _ _) hstart (by omega)
    obtain ⟨added, rfl⟩ := wellFormed_encode_append_iff.mp hformed
    have htail : encode added <+: tail := (List.prefix_append_right_inj _).mp hstart
    cases added with
    | nil => simp at hlong
    | cons c added => exact opens c ((List.prefix_append _ _).trans htail)

theorem completable_of_start (text : Text) {part : List UInt8} (begun : judge part = .start) :
    Completable (encode text ++ part) := by
  obtain ⟨c, rest, hrest⟩ := beginsChar_of_start begun
  refine ⟨rest, ?_⟩
  rw [List.append_assoc, hrest, wellFormed_encode_append_iff]
  exact ⟨[c], by simp⟩

theorem not_completable_of_stray (text : Text) {part : List UInt8} {b : UInt8}
    (begun : part = [] ∨ judge part = .start) (stray : judge (part ++ [b]) = .neither)
    (rest : List UInt8) : ¬ Completable (encode text ++ (part ++ b :: rest)) := by
  rintro ⟨more, hmore⟩
  rw [List.append_assoc, wellFormed_encode_append_iff] at hmore
  obtain ⟨whole, hwhole⟩ := hmore
  cases whole with
  | nil => simp at hwhole
  | cons c whole =>
    refine not_isPrefix_of_stray begun stray (rest ++ more) c ⟨encode whole, ?_⟩
    rw [← encode_cons, ← hwhole, List.append_assoc, List.cons_append]

/-! ## The fault of bytes -/

/-- The fault with which bytes are refused that are not well-formed. -/
inductive Describes (bytes : List UInt8) : Fault → Prop where
  | unfinished {index : Nat} (longest : IsGreatest (startLengths bytes) index)
      (completable : Completable bytes) : Describes bytes (.unfinished index)
  | broken {index length : Nat} (longest : IsGreatest (startLengths bytes) index)
      (hopeless : ¬ Completable bytes)
      (begun : IsGreatest (partLengths (bytes.drop index)) length) :
      Describes bytes (.broken index length)

theorem Stops.describes {bytes : List UInt8} {fault : Fault} (h : Stops bytes fault) :
    Describes bytes fault := by
  cases h with
  | unfinished text begun =>
    exact .unfinished (isGreatest_startLengths text (not_isPrefix_of_start begun))
      (completable_of_start text begun)
  | broken text begun stray =>
    refine .broken (isGreatest_startLengths text (not_isPrefix_of_stray begun stray _))
      (not_completable_of_stray text begun stray _) ?_
    rw [List.drop_left]
    exact isGreatest_partLengths begun stray _

/-- The bytes leave no choice of a fault. -/
theorem Describes.unique {bytes : List UInt8} {fault other : Fault} (h : Describes bytes fault)
    (hother : Describes bytes other) : fault = other := by
  cases h with
  | unfinished longest completable =>
    cases hother with
    | unfinished longest' => rw [longest.unique longest']
    | broken _ hopeless => exact absurd completable hopeless
  | broken longest hopeless begun =>
    cases hother with
    | unfinished _ completable => exact absurd completable hopeless
    | broken longest' _ begun' =>
      obtain rfl := longest.unique longest'
      rw [begun.unique begun']

theorem exists_decode_eq_error {bytes : List UInt8} (h : ¬ WellFormed bytes) :
    ∃ fault, decode bytes = .error fault := by
  cases hread : decode bytes with
  | ok text => exact absurd ⟨text, decode_eq_ok_iff.mp hread⟩ h
  | error fault => exact ⟨fault, rfl⟩

/-- Bytes are refused exactly when they are not well-formed, and then with the one fault that
describes them. -/
theorem decode_eq_error_iff {bytes : List UInt8} {fault : Fault} :
    decode bytes = .error fault ↔ ¬ WellFormed bytes ∧ Describes bytes fault := by
  constructor
  · intro h
    refine ⟨?_, (stops_of_decode h).describes⟩
    rintro ⟨text, htext⟩
    cases h.symm.trans (decode_eq_ok_iff.mpr htext)
  · rintro ⟨hmalformed, hdescribes⟩
    obtain ⟨found, hfound⟩ := exists_decode_eq_error hmalformed
    rw [hfound, hdescribes.unique (stops_of_decode hfound).describes]

/-! ## A text in front -/

/-- The fault of the same bytes behind this many others. -/
def Fault.behind (n : Nat) : Fault → Fault
  | .broken index length => .broken (n + index) length
  | .unfinished index => .unfinished (n + index)

theorem Stops.behind {bytes : List UInt8} {fault : Fault} (h : Stops bytes fault) (text : Text) :
    Stops (encode text ++ bytes) (fault.behind (encode text).length) := by
  cases h with
  | unfinished read begun =>
    rw [← List.append_assoc, ← encode_append, Fault.behind, ← List.length_append, ← encode_append]
    exact .unfinished (text ++ read) begun
  | broken read begun stray =>
    rw [← List.append_assoc, ← encode_append, Fault.behind, ← List.length_append, ← encode_append]
    exact .broken (text ++ read) begun stray

/-- A text in front of bytes that are refused only shifts where their fault is found. -/
theorem decode_encode_append {bytes : List UInt8} {fault : Fault} (h : decode bytes = .error fault)
    (text : Text) :
    decode (encode text ++ bytes) = .error (fault.behind (encode text).length) := by
  have hmalformed := (decode_eq_error_iff.mp h).1
  exact decode_eq_error_iff.mpr ⟨mt wellFormed_encode_append_iff.mp hmalformed,
    ((stops_of_decode h).behind text).describes⟩

/-! ## Numbers that are spread over bytes but encode no character -/

/-- A number spread over this many bytes, as that of a character is (`encodeChar_eq_spread`). -/
def spread : Nat → Nat → List UInt8
  | 2, n => [UInt8.ofNat (0xC0 + n / 64), UInt8.ofNat (0x80 + n % 64)]
  | 3, n =>
    [UInt8.ofNat (0xE0 + n / 4096), UInt8.ofNat (0x80 + n / 64 % 64),
      UInt8.ofNat (0x80 + n % 64)]
  | 4, n =>
    [UInt8.ofNat (0xF0 + n / 262144), UInt8.ofNat (0x80 + n / 4096 % 64),
      UInt8.ofNat (0x80 + n / 64 % 64), UInt8.ofNat (0x80 + n % 64)]
  | _, _ => []

theorem encodeChar_eq_spread {c : Char} (h : 0x80 ≤ c.toNat) :
    encodeChar c = spread (encodeChar c).length c.toNat := by
  rcases encodeChar_cases c with ⟨hc, -⟩ | ⟨-, -, hec⟩ | ⟨-, -, hec⟩ | ⟨-, hec⟩
  · omega
  · rw [hec]; rfl
  · rw [hec]; rfl
  · rw [hec]; rfl

/-- Forms that UTF-8 excludes although they spread a number over bytes. -/
inductive ExcludedForm : List UInt8 → Prop where
  | overlongTwo {n : Nat} (small : n < 0x80) : ExcludedForm (spread 2 n)
  | overlongThree {n : Nat} (small : n < 0x800) : ExcludedForm (spread 3 n)
  | overlongFour {n : Nat} (small : n < 0x10000) : ExcludedForm (spread 4 n)
  | surrogate {n : Nat} (low : 0xD800 ≤ n) (high : n ≤ 0xDFFF) : ExcludedForm (spread 3 n)
  | outside {n : Nat} (large : 0x110000 ≤ n) (fits : n < 0x200000) : ExcludedForm (spread 4 n)
  /-- The first byte announces more than four bytes, or nothing. -/
  | longer {a : UInt8} (large : 0xF8 ≤ a.toNat) (others : List UInt8) : ExcludedForm (a :: others)

/-- A byte that begins no character is refused alone. -/
theorem decode_of_lead {a : UInt8} (h : 0xF5 ≤ a.toNat ∨ a.toNat = 0xC0 ∨ a.toNat = 0xC1)
    (rest : List UInt8) : decode (a :: rest) = .error (.broken 0 1) := by
  have hlead : judge [a] = .neither := by rw [judge, if_neg (by omega), if_neg (by omega)]
  simp [decode, decodeFrom, hlead]

/-- A byte that may not stand second is not counted with the first. -/
theorem decode_of_second {a b : UInt8} (low : 0xC2 ≤ a.toNat) (high : a.toNat ≤ 0xF4)
    (h : ¬ mayFollow a b = true) (rest : List UInt8) :
    decode (a :: b :: rest) = .error (.broken 0 1) := by
  have hlead : judge [a] = .start := by rw [judge, if_neg (by omega), if_pos ⟨low, high⟩]
  have hsecond : judge [a, b] = .neither := by rw [judge, if_neg (fun hab => h hab.2.2)]
  simp [decode, decodeFrom, hlead, hsecond]

/-- An excluded form is refused at its first byte or its second, so only one byte is counted. -/
theorem ExcludedForm.decode_append {form : List UInt8} (h : ExcludedForm form)
    (rest : List UInt8) : decode (form ++ rest) = .error (.broken 0 1) := by
  cases h with
  | @overlongTwo n small =>
    refine decode_of_lead ?_ _
    rw [toNat_byte (by omega)]
    omega
  | overlongThree small | overlongFour small | surrogate low high =>
    refine decode_of_second ?_ ?_ ?_ _ <;>
      simp (disch := omega) only [mayFollow_iff, toNat_byte] <;>
      omega
  | @outside n large fits =>
    -- Up to 0x13FFFF the first byte is still that of the largest characters.
    by_cases hlead : n < 0x140000
    · refine decode_of_second ?_ ?_ ?_ _ <;>
        simp (disch := omega) only [mayFollow_iff, toNat_byte] <;>
        omega
    · refine decode_of_lead ?_ _
      rw [toNat_byte (by omega)]
      omega
  | longer large others => exact decode_of_lead (.inl (by omega)) _

end FeatureLines.Utf8
