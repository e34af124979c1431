import FeatureLines.Proofs.Json.Truncation
import FeatureLines.Proofs.Keyword.Parse
import FeatureLines.Proofs.Text.Truncation

/-!
# Lexicons that are cut off

The resource of a lexicon may be cut off at any byte, say because it is read
while it is being written. What is left of it is never taken for a smaller
lexicon, and never reported as broken text, as a value of a wrong shape or as
something other than JSON: either the cut is inside a character, or the text
ends too early, or nothing but white space is missing.

A lexicon holds no numbers, so `Schema.Region.read_of_read_append` applies to
its text; `Utf8.exists_of_append_eq_encode` leads from its bytes to the text.
-/

namespace FeatureLines

open Json

/-- No number stands in a language of the right shape. -/
theorem LanguageShape.not_within {fields : List (Text × Value)} (shape : LanguageShape fields)
    (n : Number) : ¬ (Value.number n).Within (.object fields) := by
  intro hwithin
  cases hwithin with
  | @member field _ hfield hinside =>
    cases hname : isNameKey field.1 with
    | true =>
      rcases shape.label field hfield hname with hnull | ⟨t, htext⟩
      · rw [hnull] at hinside
        cases hinside
      · rw [htext] at hinside
        cases hinside
    | false =>
      obtain ⟨words, hwords⟩ := shape.list field hfield hname
      rw [hwords] at hinside
      cases hinside with
      | item hword hinside =>
        obtain ⟨word, -, rfl⟩ := List.mem_map.mp hword
        cases hinside

namespace Lexicon

/-- What is left of the text of a lexicon is truncated, unless only white space is missing. -/
theorem ofText_of_ofText_append {a b : Text} {lexicon : Lexicon}
    (h : ofText (a ++ b) = .ok lexicon) :
    ofText a = .error .truncated ∨ (ofText a = .ok lexicon ∧ Spaces b) := by
  unfold ofText at h ⊢
  cases hread : lexiconSchema.read .lexicon (a ++ b) with
  | error fault => rw [hread] at h; cases h
  | ok value =>
    rw [hread] at h
    obtain ⟨-, haccepts⟩ := (lexiconSchema_region.read_eq_ok_iff trivial).mp hread
    obtain ⟨members, rfl, shape⟩ := accepts_lexicon_iff.mp haccepts
    have noNumbers : ∀ n, ¬ (Value.number n).Within (.object members) := by
      intro n hwithin
      cases hwithin with
      | @member member _ hmember hinside =>
        obtain ⟨fields, hfields, hshape⟩ := shape member hmember
        rw [hfields] at hinside
        exact hshape.not_within n hinside
    rcases lexiconSchema_region.read_of_read_append hread noNumbers with
      htruncated | ⟨hsame, spaces⟩
    · rw [htruncated]
      exact .inl rfl
    · rw [hsame]
      exact .inr ⟨h, spaces⟩

theorem parse_of_cutAt {index : Nat} {a b : List UInt8} (h : Utf8.CutAt index a b)
    (resource : Text) : parse resource a = .error (.notUtf8 resource (.unfinished index)) := by
  unfold parse
  rw [Utf8.decode_of_cutAt h]

theorem parse_encode_of_error {text : Text} {fault : Fault} (h : ofText text = .error fault)
    (resource : Text) : parse resource (Utf8.encode text) = .error (.unparsable resource fault) := by
  simp only [parse, Utf8.decode_eq_ok_iff.mpr rfl, h]

theorem parse_encode_of_ok {text : Text} {lexicon : Lexicon} (h : ofText text = .ok lexicon)
    (resource : Text) : parse resource (Utf8.encode text) = .ok lexicon := by
  simp only [parse, Utf8.decode_eq_ok_iff.mpr rfl, h]

/-- Bytes between characters are not read as ones that end inside a character. -/
theorem parse_encode_ne_notUtf8 (resource text : Text) (fault : Utf8.Fault) :
    parse resource (Utf8.encode text) ≠ .error (.notUtf8 resource fault) := by
  intro h
  cases htext : ofText text with
  | error fault => cases h.symm.trans (parse_encode_of_error htext resource)
  | ok lexicon => cases h.symm.trans (parse_encode_of_ok htext resource)

theorem exists_of_parse_eq_ok {resource : Text} {bytes : List UInt8} {lexicon : Lexicon}
    (h : parse resource bytes = .ok lexicon) :
    ∃ text, bytes = Utf8.encode text ∧ ofText text = .ok lexicon := by
  unfold parse at h
  cases hdecode : Utf8.decode bytes with
  | error fault => rw [hdecode] at h; cases h
  | ok text =>
    refine ⟨text, Utf8.decode_eq_ok_iff.mp hdecode, ?_⟩
    simp only [hdecode] at h
    cases htext : ofText text with
    | error fault => rw [htext] at h; cases h
    | ok found => rw [htext] at h; rw [Except.ok.inj h]

/-- The bytes of a lexicon may be cut off anywhere. What is left is reported to end inside a
character exactly where the cut is inside one; otherwise its text is reported as truncated, or it
gives the same lexicon, and then nothing but white space is missing. -/
theorem parse_of_parse_append {resource : Text} {a b : List UInt8} {lexicon : Lexicon}
    (h : parse resource (a ++ b) = .ok lexicon) :
    (∀ index, parse resource a = .error (.notUtf8 resource (.unfinished index)) ↔
        Utf8.CutAt index a b)
      ∧ ((∃ index, Utf8.CutAt index a b)
        ∨ parse resource a = .error (.unparsable resource .truncated)
        ∨ parse resource a = .ok lexicon ∧ ∃ spaces, Spaces spaces ∧ b = Utf8.encode spaces) := by
  obtain ⟨text, hbytes, htext⟩ := exists_of_parse_eq_ok h
  -- The bytes have one text, so where they are cut the text is cut too, or a character of it is.
  rcases Utf8.exists_of_append_eq_encode hbytes with ⟨before, after, rfl, rfl, rfl⟩ | ⟨cut, hcut⟩
  · have hnever (index : Nat) :
        parse resource (Utf8.encode before) ≠ .error (.notUtf8 resource (.unfinished index)) :=
      parse_encode_ne_notUtf8 resource before _
    refine ⟨fun index => ⟨fun hfault => absurd hfault (hnever index),
      fun hcut => absurd (parse_of_cutAt hcut resource) (hnever index)⟩, .inr ?_⟩
    rcases ofText_of_ofText_append htext with htruncated | ⟨hsame, spaces⟩
    · exact .inl (parse_encode_of_error htruncated resource)
    · exact .inr ⟨parse_encode_of_ok hsame resource, after, spaces, rfl⟩
  · have hfault := parse_of_cutAt hcut resource
    refine ⟨fun index => ⟨fun hindex => ?_, fun hcut => parse_of_cutAt hcut resource⟩,
      .inl ⟨cut, hcut⟩⟩
    rw [hfault] at hindex
    cases hindex
    exact hcut

/-- The second byte of a code is missing. -/
theorem parse_of_parse_append_inside_code :
    let resource := "words.json".toList
    let a := Utf8.encode "\x7b\"".toList ++ [0xC3]
    let b := [0xA9] ++ Utf8.encode "\":\x7b\x7d\x7d\n".toList
    let lexicon : Lexicon := TextMap.ofList [("é".toList, ⟨none, none, .empty⟩)]
    parse resource (a ++ b) = .ok lexicon ∧ Utf8.CutAt 2 a b
      ∧ parse resource a = .error (.notUtf8 resource (.unfinished 2)) := by
  intro resource a b lexicon
  have h : parse resource (a ++ b) = .ok lexicon := by
    have hbytes : a ++ b = Utf8.encode "\x7b\"é\":\x7b\x7d\x7d\n".toList := rfl
    have hlexicon : ofText "\x7b\"é\":\x7b\x7d\x7d\n".toList = .ok lexicon := rfl
    rw [hbytes]
    exact parse_encode_of_ok hlexicon resource
  have hcut : Utf8.CutAt 2 a b :=
    .mk "\x7b\"".toList 'é' "\":\x7b\x7d\x7d\n".toList (by decide) (by decide) (by decide)
  exact ⟨h, hcut, ((parse_of_parse_append h).1 2).mpr hcut⟩

end Lexicon

end FeatureLines
