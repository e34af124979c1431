/-!
# Text

A text is the list of its characters. Everything that is compared, cut or
trimmed in this library is a `Text`; `String` appears only where a message is
worded for a person.

The one operation stated here is stripping a lead from a line:
`stripLead_eq_some_iff` says that it succeeds exactly when the line is the lead
followed by the answer, so the answer is determined.
-/

namespace FeatureLines

/-- A text, as the list of its characters. -/
abbrev Text := List Char

/-- What follows `lead` in `line`, if the line starts with it. -/
def stripLead : Text → Text → Option Text
  | [], line => some line
  | _ :: _, [] => none
  | c :: lead, d :: line => if c = d then stripLead lead line else none

@[simp] theorem stripLead_nil (line : Text) : stripLead [] line = some line := by
  cases line <;> rfl

@[simp] theorem stripLead_append (lead rest : Text) :
    stripLead lead (lead ++ rest) = some rest := by
  induction lead with
  | nil => simp
  | cons c lead ih => simp [stripLead, ih]

theorem stripLead_eq_some_iff {lead line rest : Text} :
    stripLead lead line = some rest ↔ line = lead ++ rest := by
  constructor
  · intro h
    fun_induction stripLead lead line with
    | case1 line => simpa using h
    | case2 => simp at h
    | case3 lead d line ih => simp [ih h]
    | case4 => simp at h
  · rintro rfl
    exact stripLead_append lead rest

/-- Whether `line` starts with `lead`. -/
def startsWith (lead line : Text) : Bool := (stripLead lead line).isSome

theorem startsWith_iff {lead line : Text} :
    startsWith lead line = true ↔ ∃ rest, line = lead ++ rest := by
  simp [startsWith, Option.isSome_iff_exists, stripLead_eq_some_iff]

/-- The parts with `separator` between neighbours and nothing at the ends. -/
def joinWith (separator : Text) : List Text → Text
  | [] => []
  | [part] => part
  | part :: next :: parts => part ++ separator ++ joinWith separator (next :: parts)

end FeatureLines
