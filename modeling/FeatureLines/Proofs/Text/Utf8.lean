import FeatureLines.Text.Utf8

/-!
# UTF-8 is read back and keeps the order

Two facts about the bytes of a text. `decode_eq_ok_iff`: bytes are read as a text
exactly when they are its encoding, so the reading accepts what the writing
produces and nothing else. `encode_lt_encode`: texts stand in the order of their
code points exactly as their encodings stand in the order of bytes.

Both come down to single characters. `decodeFrom_encodeChar` and
`eq_encodeChar_of_judge` say that reading pending bytes and writing a character
are inverse to each other; `encodeChar_append_lt` compares the bytes of two
characters, whatever stands behind them.
-/

namespace FeatureLines.Utf8

/-! ## Code points -/

theorem toNat_lt (c : Char) : c.toNat < 0x110000 := by
  have := c.valid
  simp only [UInt32.isValidChar, Nat.isValidChar] at this
  show c.val.toNat < _
  omega

theorem not_surrogate (c : Char) : c.toNat < 0xD800 ∨ 0xDFFF < c.toNat := by
  have := c.valid
  simp only [UInt32.isValidChar, Nat.isValidChar] at this
  show c.val.toNat < _ ∨ _ < c.val.toNat
  omega

theorem toNat_ofNat {n : Nat} (h : n < 0xD800 ∨ (0xDFFF < n ∧ n < 0x110000)) :
    (Char.ofNat n).toNat = n := by
  have hv : n.isValidChar := by simp only [Nat.isValidChar]; omega
  rw [Char.ofNat, dif_pos hv]
  rfl

theorem toNat_byte {n : Nat} (h : n < 256) : (UInt8.ofNat n).toNat = n :=
  UInt8.toNat_ofNat_of_lt' h

/-- The four widths of a character. -/
theorem encodeChar_cases (c : Char) :
    (c.toNat < 0x80 ∧ encodeChar c = [UInt8.ofNat c.toNat])
      ∨ (0x80 ≤ c.toNat ∧ c.toNat < 0x800 ∧ encodeChar c =
        [UInt8.ofNat (0xC0 + c.toNat / 64), UInt8.ofNat (0x80 + c.toNat % 64)])
      ∨ (0x800 ≤ c.toNat ∧ c.toNat < 0x10000 ∧ encodeChar c =
        [UInt8.ofNat (0xE0 + c.toNat / 4096), UInt8.ofNat (0x80 + c.toNat / 64 % 64),
          UInt8.ofNat (0x80 + c.toNat % 64)])
      ∨ (0x10000 ≤ c.toNat ∧ encodeChar c =
        [UInt8.ofNat (0xF0 + c.toNat / 262144), UInt8.ofNat (0x80 + c.toNat / 4096 % 64),
          UInt8.ofNat (0x80 + c.toNat / 64 % 64), UInt8.ofNat (0x80 + c.toNat % 64)]) := by
  unfold encodeChar
  split
  · next h => exact Or.inl ⟨h, rfl⟩
  · next h1 =>
    split
    · next h2 => exact Or.inr (Or.inl ⟨by omega, h2, rfl⟩)
    · next h2 =>
      split
      · next h3 => exact Or.inr (Or.inr (Or.inl ⟨by omega, h3, rfl⟩))
      · next h3 => exact Or.inr (Or.inr (Or.inr ⟨by omega, rfl⟩))

/-! ## Order -/

/-- The bytes of a smaller character come first, whatever follows. -/
theorem encodeChar_append_lt {c d : Char} (h : c < d) (s t : List UInt8) :
    encodeChar c ++ s < encodeChar d ++ t := by
  have hlt : c.toNat < d.toNat := h
  have hcmax := toNat_lt c
  have hdmax := toNat_lt d
  have hdiv : ∀ n : Nat, n / 64 / 64 = n / 4096 ∧ n / 4096 / 64 = n / 262144 := by omega
  have hc2 := hdiv c.toNat
  have hd2 := hdiv d.toNat
  rcases encodeChar_cases c with ⟨hc, hec⟩ | ⟨hc, hc', hec⟩ | ⟨hc, hc', hec⟩ | ⟨hc, hec⟩ <;>
    rcases encodeChar_cases d with ⟨hd, hed⟩ | ⟨hd, hd', hed⟩ | ⟨hd, hd', hed⟩ | ⟨hd, hed⟩ <;>
    rw [hec, hed] <;>
    simp (disch := omega) only [List.cons_append, List.cons_lt_cons_iff, UInt8.lt_iff_toNat_lt,
      ← UInt8.toNat_inj, toNat_byte] <;>
    omega

theorem encodeChar_ne_nil (c : Char) : encodeChar c ≠ [] := by
  rcases encodeChar_cases c with ⟨-, h⟩ | ⟨-, -, h⟩ | ⟨-, -, h⟩ | ⟨-, h⟩ <;> rw [h] <;> simp

/-- Texts in order have their encodings in order. -/
theorem encode_lt_encode {a b : Text} (h : a < b) : encode a < encode b := by
  induction h with
  | nil =>
    rename_i d b
    rw [encode_cons, encode_nil]
    cases hd : encodeChar d with
    | nil => exact absurd hd (encodeChar_ne_nil d)
    | cons x bytes => exact List.Lex.nil
  | rel h => exact encodeChar_append_lt h _ _
  | cons _ ih =>
    rw [encode_cons, encode_cons]
    exact List.append_left_lt ih

theorem encode_lt_encode_iff {a b : Text} : encode a < encode b ↔ a < b := by
  refine ⟨fun h => ?_, encode_lt_encode⟩
  by_cases hsame : a = b
  · subst hsame
    exact absurd h (List.lt_irrefl _)
  · by_cases hlt : a < b
    · exact hlt
    · have hgt : b < a := by grind
      exact absurd (encode_lt_encode hgt) (List.lt_asymm h)

/-! ## Judging the bytes of a character -/

theorem isTail_iff {b : UInt8} : isTail b = true ↔ 0x80 ≤ b.toNat ∧ b.toNat ≤ 0xBF := by
  simp [isTail]

theorem mayFollow_iff {a b : UInt8} :
    mayFollow a b = true ↔ (0x80 ≤ b.toNat ∧ b.toNat ≤ 0xBF)
      ∧ (a.toNat = 0xE0 → 0xA0 ≤ b.toNat) ∧ (a.toNat = 0xED → b.toNat ≤ 0x9F)
      ∧ (a.toNat = 0xF0 → 0x90 ≤ b.toNat) ∧ (a.toNat = 0xF4 → b.toNat ≤ 0x8F) := by
  unfold mayFollow
  repeat' split
  all_goals simp only [Bool.and_eq_true, decide_eq_true_eq, isTail_iff]
  all_goals omega

/-- Reading the bytes of a character gives that character and goes on behind them. -/
theorem decodeFrom_encodeChar (index : Nat) (c : Char) (rest : List UInt8) :
    decodeFrom index [] (encodeChar c ++ rest) =
      (decodeFrom (index + (encodeChar c).length) [] rest).map (c :: ·) := by
  have hmax := toNat_lt c
  have hsur := not_surrogate c
  have hdiv : ∀ n : Nat, n / 64 / 64 = n / 4096 ∧ n / 4096 / 64 = n / 262144 := by omega
  have hc2 := hdiv c.toNat
  have hofNat : ∀ n, n = c.toNat → Char.ofNat n = c := by
    rintro _ rfl
    exact Char.ofNat_toNat c
  rcases encodeChar_cases c with ⟨hc, hec⟩ | ⟨hc, hc', hec⟩ | ⟨hc, hc', hec⟩ | ⟨hc, hec⟩ <;>
    rw [hec] <;>
    simp (disch := omega) only [List.cons_append, List.nil_append, decodeFrom, judge,
      mayFollow_iff, isTail_iff, toNat_byte, List.length_cons, List.length_nil]
  · rw [if_pos (by omega)]
    dsimp only
    rw [hofNat _ (by omega)]
  · rw [if_neg (by omega), if_pos (by omega)]
    dsimp only
    rw [if_pos (by omega), if_pos (by omega)]
    dsimp only
    rw [hofNat _ (by omega)]
  · rw [if_neg (by omega), if_pos (by omega)]
    dsimp only
    rw [if_pos (by omega), if_neg (by omega)]
    dsimp only
    rw [if_pos (by omega), if_pos (by omega)]
    dsimp only
    rw [hofNat _ (by omega)]
  · rw [if_neg (by omega), if_pos (by omega)]
    dsimp only
    rw [if_pos (by omega), if_neg (by omega)]
    dsimp only
    rw [if_pos (by omega), if_neg (by omega)]
    dsimp only
    rw [if_pos (by omega)]
    dsimp only
    rw [hofNat _ (by omega)]

/-- Bytes that are judged to be a whole character are its bytes. The value that the judgement
computes is that of the character, because it is in range and no surrogate. -/
theorem eq_encodeChar_of_judge {bytes : List UInt8} {c : Char} (h : judge bytes = .whole c) :
    bytes = encodeChar c := by
  unfold judge at h
  split at h
  · next a =>
    split at h
    · next h1 =>
      obtain rfl := Judgement.whole.inj h
      rw [encodeChar, toNat_ofNat (by omega), if_pos h1, UInt8.ofNat_toNat]
    · split at h <;> cases h
  · next a b =>
    simp only [mayFollow_iff] at h
    split at h
    · next hab =>
      split at h
      · obtain rfl := Judgement.whole.inj h
        generalize hn : (a.toNat - 0xC0) * 64 + (b.toNat - 0x80) = n
        rw [encodeChar, toNat_ofNat (by omega), if_neg (by omega), if_pos (by omega)]
        simp (disch := omega) only [List.cons.injEq, ← UInt8.toNat_inj, toNat_byte, and_true]
        omega
      · cases h
    · cases h
  · next a b c =>
    simp only [mayFollow_iff, isTail_iff] at h
    split at h
    · next habc =>
      split at h
      · obtain rfl := Judgement.whole.inj h
        generalize hn : (a.toNat - 0xE0) * 4096 + (b.toNat - 0x80) * 64 + (c.toNat - 0x80) = n
        rw [encodeChar, toNat_ofNat (by omega), if_neg (by omega), if_neg (by omega),
          if_pos (by omega)]
        simp (disch := omega) only [List.cons.injEq, ← UInt8.toNat_inj, toNat_byte, and_true]
        omega
      · cases h
    · cases h
  · next a b c d =>
    simp only [mayFollow_iff, isTail_iff] at h
    split at h
    · next habcd =>
      obtain rfl := Judgement.whole.inj h
      generalize hn : (a.toNat - 0xF0) * 262144 + (b.toNat - 0x80) * 4096 +
        (c.toNat - 0x80) * 64 + (d.toNat - 0x80) = n
      rw [encodeChar, toNat_ofNat (by omega), if_neg (by omega), if_neg (by omega),
        if_neg (by omega)]
      simp (disch := omega) only [List.cons.injEq, ← UInt8.toNat_inj, toNat_byte, and_true]
      omega
    · cases h
  · cases h

/-! ## Reading -/

/-- What is read completes the pending bytes to the encoding of the text. -/
theorem append_eq_encode_of_decodeFrom {index : Nat} {pending bytes : List UInt8} {text : Text}
    (h : decodeFrom index pending bytes = .ok text) : pending ++ bytes = encode text := by
  fun_induction decodeFrom index pending bytes generalizing text with
  | case1 index pending hempty =>
    obtain rfl := Except.ok.inj h
    simpa using hempty
  | case2 => cases h
  | case3 index pending b rest c hjudge ih =>
    cases hrest : decodeFrom (index + pending.length + 1) [] rest with
    | error fault => rw [hrest] at h; cases h
    | ok following =>
      rw [hrest] at h
      obtain rfl := Except.ok.inj h
      rw [encode_cons, ← eq_encodeChar_of_judge hjudge, ← ih hrest]
      simp
  | case4 index pending b rest hjudge ih => simpa using ih h
  | case5 => cases h

theorem decodeFrom_encode (index : Nat) (text : Text) :
    decodeFrom index [] (encode text) = .ok text := by
  induction text generalizing index with
  | nil => rfl
  | cons c text ih => rw [encode_cons, decodeFrom_encodeChar, ih]; rfl

/-- Bytes are read as a text exactly when they are its encoding. -/
theorem decode_eq_ok_iff {bytes : List UInt8} {text : Text} :
    decode bytes = .ok text ↔ bytes = encode text := by
  constructor
  · intro h
    simpa using append_eq_encode_of_decodeFrom h
  · rintro rfl
    exact decodeFrom_encode 0 text

end FeatureLines.Utf8
