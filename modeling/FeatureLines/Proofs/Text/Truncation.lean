import FeatureLines.Proofs.Text.Utf8

/-!
# Bytes of a text that is cut off

The bytes of a text may end anywhere. Either they end between two characters,
and then what is left of them is the encoding of a shorter text, or they end
inside a character. In the second case the reading says so, and names the index
at which that character begins (`decode_of_cutAt`); it never takes what is left
of the character for another character or for broken bytes.
-/

namespace FeatureLines.Utf8

/-- The bytes of a text are cut in two inside the character that begins at this index. -/
inductive CutAt : Nat → List UInt8 → List UInt8 → Prop where
  | mk (before : Text) (c : Char) (after : Text) {part rest : List UInt8}
      (char : encodeChar c = part ++ rest) (left : part ≠ []) (missing : rest ≠ []) :
      CutAt (encode before).length (encode before ++ part) (rest ++ encode after)

/-! ## What is left of a character -/

/-- The parts of a list that begin it and are neither empty nor all of it. -/
theorem exists_take_of_append {bytes part rest : List UInt8} (h : bytes = part ++ rest)
    (hpart : part ≠ []) (hrest : rest ≠ []) :
    ∃ n, 0 < n ∧ n < bytes.length ∧ part = bytes.take n := by
  refine ⟨part.length, List.length_pos_iff.mpr hpart, ?_, ?_⟩
  · rw [h, List.length_append]
    have := List.length_pos_iff.mpr hrest
    omega
  · rw [h, List.take_left]

/-- Bytes that begin a character, but are not all of it, are judged to be its start. -/
theorem judge_of_encodeChar_eq {c : Char} {part rest : List UInt8}
    (h : encodeChar c = part ++ rest) (hpart : part ≠ []) (hrest : rest ≠ []) :
    judge part = .start := by
  have hmax := toNat_lt c
  have hsur := not_surrogate c
  have hdiv : ∀ n : Nat, n / 64 / 64 = n / 4096 ∧ n / 4096 / 64 = n / 262144 := by omega
  have hc2 := hdiv c.toNat
  obtain ⟨n, hpos, hlt, rfl⟩ := exists_take_of_append h hpart hrest
  clear h hpart hrest
  rcases encodeChar_cases c with ⟨hc, hec⟩ | ⟨hc, hc', hec⟩ | ⟨hc, hc', hec⟩ | ⟨hc, hec⟩ <;>
    rw [hec] at hlt ⊢ <;> simp only [List.length_cons, List.length_nil] at hlt
  · omega
  · obtain rfl : n = 1 := by omega
    simp (disch := omega) only [List.take, judge, toNat_byte]
    rw [if_neg (by omega), if_pos (by omega)]
  · obtain rfl | rfl : n = 1 ∨ n = 2 := by omega
    · simp (disch := omega) only [List.take, judge, toNat_byte]
      rw [if_neg (by omega), if_pos (by omega)]
    · simp (disch := omega) only [List.take, judge, mayFollow_iff, toNat_byte]
      rw [if_pos (by omega), if_neg (by omega)]
  · obtain rfl | rfl | rfl : n = 1 ∨ n = 2 ∨ n = 3 := by omega
    · simp (disch := omega) only [List.take, judge, toNat_byte]
      rw [if_neg (by omega), if_pos (by omega)]
    · simp (disch := omega) only [List.take, judge, mayFollow_iff, toNat_byte]
      rw [if_pos (by omega), if_neg (by omega)]
    · simp (disch := omega) only [List.take, judge, mayFollow_iff, isTail_iff, toNat_byte]
      rw [if_pos (by omega), if_neg (by omega)]

/-- Reading what is left of a character ends inside it. -/
theorem decodeFrom_of_encodeChar_eq {c : Char} {pending part rest : List UInt8}
    (h : encodeChar c = pending ++ part ++ rest) (hpart : pending ++ part ≠ []) (hrest : rest ≠ [])
    (index : Nat) : decodeFrom index pending part = .error (.unfinished index) := by
  induction part generalizing pending with
  | nil =>
    have hpending : pending.isEmpty = false := by simpa using hpart
    simp [decodeFrom, hpending]
  | cons b part ih =>
    have hbytes : encodeChar c = (pending ++ [b]) ++ (part ++ rest) := by simpa using h
    have hjudge : judge (pending ++ [b]) = .start :=
      judge_of_encodeChar_eq hbytes (by simp) (by simp [hrest])
    rw [decodeFrom, hjudge]
    exact ih (by simpa using h) (by simp)

/-! ## What is left of a text -/

theorem decodeFrom_encode_append (index : Nat) (text : Text) (bytes : List UInt8) :
    decodeFrom index [] (encode text ++ bytes) =
      (decodeFrom (index + (encode text).length) [] bytes).map (text ++ ·) := by
  induction text generalizing index with
  | nil =>
    show decodeFrom index [] bytes = (decodeFrom index [] bytes).map fun text => text
    cases decodeFrom index [] bytes <;> rfl
  | cons c text ih =>
    rw [encode_cons, List.append_assoc, decodeFrom_encodeChar, ih, List.length_append,
      Nat.add_assoc]
    cases decodeFrom (index + ((encodeChar c).length + (encode text).length)) [] bytes <;> rfl

/-- Bytes that end inside a character are read up to it and not further. -/
theorem decode_of_cutAt {index : Nat} {a b : List UInt8} (h : CutAt index a b) :
    decode a = .error (.unfinished index) := by
  cases h with
  | @mk before c after part rest char left missing =>
    have hend : decodeFrom (0 + (encode before).length) [] part =
        .error (.unfinished (0 + (encode before).length)) :=
      @decodeFrom_of_encodeChar_eq c [] part rest char left missing _
    rw [decode, decodeFrom_encode_append, hend, Nat.zero_add]
    rfl

theorem CutAt.cons {index : Nat} {a b : List UInt8} (h : CutAt index a b) (c : Char) :
    CutAt ((encodeChar c).length + index) (encodeChar c ++ a) b := by
  cases h with
  | mk before d after char left missing =>
    have hcut := CutAt.mk (c :: before) d after char left missing
    rwa [encode_cons, List.length_append, List.append_assoc] at hcut

/-- The bytes of a text end between two characters or inside one. -/
theorem exists_of_append_eq_encode {a b : List UInt8} {text : Text} (h : a ++ b = encode text) :
    (∃ before after, text = before ++ after ∧ a = encode before ∧ b = encode after)
      ∨ ∃ index, CutAt index a b := by
  induction text generalizing a with
  | nil =>
    obtain ⟨rfl, rfl⟩ := List.append_eq_nil_iff.mp h
    exact .inl ⟨[], [], rfl, rfl, rfl⟩
  | cons c text ih =>
    rw [encode_cons] at h
    rcases List.append_eq_append_iff.mp h with ⟨rest, hc, rfl⟩ | ⟨a', rfl, htext⟩
    · by_cases hpart : a = []
      · subst hpart
        exact .inl ⟨[], c :: text, rfl, rfl, by rw [encode_cons, hc]; rfl⟩
      · by_cases hrest : rest = []
        · subst hrest
          exact .inl ⟨[c], text, rfl, by simpa using hc.symm, rfl⟩
        · exact .inr ⟨_, .mk [] c text hc hpart hrest⟩
    · rcases ih htext.symm with ⟨before, after, rfl, rfl, rfl⟩ | ⟨index, hcut⟩
      · exact .inl ⟨c :: before, after, rfl, rfl, rfl⟩
      · exact .inr ⟨_, hcut.cons c⟩

end FeatureLines.Utf8
