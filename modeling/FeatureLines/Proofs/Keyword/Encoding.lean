import FeatureLines.Keyword.Parse
import FeatureLines.Proofs.Text.Faults

/-!
# Resources that are not text

All bytes of a resource are read as UTF-8 before its text is read as JSON. A
resource that is not well-formed is therefore reported as such even where its
text has gone wrong long before, and the report is that of the bytes: which
fault it names, `Utf8.Describes` says without looking at any text.

The text in front of the fault is seen in one thing, the index, which is further
back by the bytes of the text (`parse_encode_append`).
-/

namespace FeatureLines.Lexicon

theorem parse_eq_notUtf8_iff {resource name : Text} {bytes : List UInt8} {fault : Utf8.Fault} :
    parse resource bytes = .error (.notUtf8 name fault) ↔
      name = resource ∧ Utf8.decode bytes = .error fault := by
  unfold parse
  cases hdecode : Utf8.decode bytes with
  | error found =>
    simp only [Except.error.injEq, LexiconError.notUtf8.injEq]
    constructor
    · rintro ⟨rfl, rfl⟩
      exact ⟨rfl, rfl⟩
    · rintro ⟨rfl, rfl⟩
      exact ⟨rfl, rfl⟩
  | ok text =>
    cases htext : ofText text with
    | error found => simp [htext]
    | ok lexicon => simp [htext]

theorem exists_parse_eq_notUtf8_iff {resource : Text} {bytes : List UInt8} :
    (∃ name fault, parse resource bytes = .error (.notUtf8 name fault)) ↔
      ¬ Utf8.WellFormed bytes := by
  constructor
  · rintro ⟨name, fault, h⟩
    exact (Utf8.decode_eq_error_iff.mp (parse_eq_notUtf8_iff.mp h).2).1
  · intro h
    obtain ⟨fault, hfault⟩ := Utf8.exists_decode_eq_error h
    exact ⟨resource, fault, parse_eq_notUtf8_iff.mpr ⟨rfl, hfault⟩⟩

/-- Whatever text stands in front of bytes that are not well-formed, their fault is reported. -/
theorem parse_encode_append {bytes : List UInt8} (h : ¬ Utf8.WellFormed bytes)
    (resource text : Text) :
    ∃ fault, Utf8.Describes bytes fault
      ∧ parse resource (Utf8.encode text ++ bytes) =
        .error (.notUtf8 resource (fault.behind (Utf8.encode text).length)) := by
  obtain ⟨fault, hfault⟩ := Utf8.exists_decode_eq_error h
  exact ⟨fault, (Utf8.decode_eq_error_iff.mp hfault).2,
    parse_eq_notUtf8_iff.mpr ⟨rfl, Utf8.decode_encode_append hfault text⟩⟩

/-- A resource is reported not to be UTF-8 exactly when it is not, with the fault that describes its
bytes. No text in front of these, and so no fault of that text, keeps this from being reported. Of a
form that is excluded one byte is reported, whatever stands around it. -/
theorem parse_eq_notUtf8_iff_describes (resource : Text) (bytes : List UInt8) :
    ((∃ name fault, parse resource bytes = .error (.notUtf8 name fault)) ↔
        ¬ bytes.toByteArray.IsValidUTF8)
      ∧ (∀ name fault, parse resource bytes = .error (.notUtf8 name fault) ↔
        name = resource ∧ ¬ Utf8.WellFormed bytes ∧ Utf8.Describes bytes fault)
      ∧ (¬ Utf8.WellFormed bytes → ∀ text, ∃ fault, Utf8.Describes bytes fault
        ∧ parse resource (Utf8.encode text ++ bytes) =
          .error (.notUtf8 resource (fault.behind (Utf8.encode text).length)))
      ∧ ∀ text form, Utf8.ExcludedForm form →
        parse resource (Utf8.encode text ++ (form ++ bytes)) =
          .error (.notUtf8 resource (.broken (Utf8.encode text).length 1)) := by
  refine ⟨?_, fun name fault => ?_, fun hmalformed text => ?_, fun text form hform => ?_⟩
  · rw [← Utf8.wellFormed_iff_isValidUTF8]
    exact exists_parse_eq_notUtf8_iff
  · rw [parse_eq_notUtf8_iff, Utf8.decode_eq_error_iff]
  · exact parse_encode_append hmalformed resource text
  · rw [parse_eq_notUtf8_iff, Utf8.decode_encode_append (hform.decode_append bytes) text]
    exact ⟨rfl, rfl⟩

/-- The bracket at the front is a fault as well, but the bytes behind it are read first. -/
example : parse "words.json".toList [0x5D, 0xE2, 0x82, 0x22] =
    .error (.notUtf8 "words.json".toList (.broken 1 2)) := rfl

end FeatureLines.Lexicon
