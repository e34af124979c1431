import FeatureLines.Proofs.Json.Values

/-!
# Texts that are cut off

A text that is read as a value may be cut off anywhere. What is left of it is
then read as the same value, if only white space is missing, or it is reported
as truncated; `Region.read_of_read_append` says so of values in which there are
no numbers.

Numbers are the exception because nothing marks their end. The digits of a
number may be out of range while what follows them, the exponent, brings it back
into range; so cutting it off may give a text with another fault. To see that
this does not happen where no number is wanted, one has to know that what is
read stays: whatever value is delivered to its frame is still there in the value
of the whole text (`Region.within_of_readFrom_deliver`). The induction is on the
stack, since the value that a frame gives is delivered to the next one.
-/

namespace FeatureLines.Json

/-- The value stands somewhere in the other one, or is it. -/
inductive Value.Within (value : Value) : Value → Prop where
  | refl : Within value value
  | item {w : Value} {items : List Value} (mem : w ∈ items) (inside : Within value w) :
      Within value (.array items)
  | member {member : Text × Value} {members : List (Text × Value)} (mem : member ∈ members)
      (inside : Within value member.2) : Within value (.object members)

theorem Value.Within.trans {u v w : Value} (h : u.Within v) (hw : v.Within w) : u.Within w := by
  induction hw with
  | refl => exact h
  | item mem _ ih => exact .item mem ih
  | member mem _ ih => exact .member mem ih

namespace Schema

variable {σ : Type} {schema : Schema σ} {kept : Bool} {places : σ → Prop}

/-! ## What is read stays -/

/-- Behind some items of an array the array must be read to its end. -/
theorem Region.exists_array_of_readFrom_afterItem (region : schema.Region kept places) {place : σ}
    (hplace : places place) {items : List Value} {stack : List (Frame σ)} {text : Text} {w : Value}
    (h : schema.readFrom (.afterItem place items stack) text = .ok w) :
    ∃ later rest,
      schema.readFrom (deliver (.array (items.reverse ++ later)) stack) rest = .ok w := by
  obtain ⟨_, c, text, rfl, -, hspace, hread⟩ :=
    (schema.rests (.afterItem place items stack) rfl).exists_of_readFrom rfl h
  rcases cases_of_readOn_afterItem hspace hread with ⟨-, hread⟩ | ⟨-, next, hitem, hread⟩
  · exact ⟨[], text, by simpa using hread⟩
  · obtain ⟨later, _, rest, -, -, -, hread⟩ :=
      region.exists_itemsSpelling_of_readFrom hplace hitem hread
    exact ⟨later, rest, hread⟩

/-- Behind some members of an object the object must be read to its end. -/
theorem Region.exists_object_of_readFrom_afterMember (region : schema.Region kept places)
    {place : σ} (hplace : places place) {members : List (Text × Value)} {stack : List (Frame σ)}
    {text : Text} {w : Value}
    (h : schema.readFrom (.afterMember place members stack) text = .ok w) :
    ∃ later rest,
      schema.readFrom (deliver (.object (members.reverse ++ later)) stack) rest = .ok w := by
  obtain ⟨_, c, text, rfl, -, hspace, hread⟩ :=
    (schema.rests (.afterMember place members stack) rfl).exists_of_readFrom rfl h
  rcases cases_of_readOn_afterMember hspace hread with ⟨-, -, hread⟩ | ⟨-, hread⟩
  · exact ⟨[], text, by simpa using hread⟩
  · obtain ⟨later, _, rest, -, -, -, -, hread⟩ :=
      region.exists_membersSpelling_of_readFrom hplace hread
    exact ⟨later, rest, hread⟩

/-- A value that has been read stands in the value of the whole text. -/
theorem Region.within_of_readFrom_deliver (region : schema.Region kept fun _ => True)
    {value : Value} {stack : List (Frame σ)} {text : Text} {w : Value}
    (h : schema.readFrom (deliver value stack) text = .ok w) : value.Within w := by
  induction stack generalizing value text with
  | nil =>
    obtain ⟨rfl, -⟩ := readFrom_done_eq_ok_iff.mp h
    exact .refl
  | cons frame stack ih =>
    cases frame with
    | item place items =>
      obtain ⟨later, rest, hread⟩ := region.exists_array_of_readFrom_afterItem trivial h
      have hmem : value ∈ (value :: items).reverse ++ later := by simp
      exact .trans (.item hmem .refl) (ih hread)
    | member place members key =>
      obtain ⟨later, rest, hread⟩ := region.exists_object_of_readFrom_afterMember trivial h
      have hmem : (key, value) ∈ ((key, value) :: members).reverse ++ later := by simp
      exact .trans (.member hmem .refl) (ih hread)

/-- Where a number is being read, there is one in the value of the whole text. -/
theorem Region.exists_number_of_readFrom (region : schema.Region kept fun _ => True) {place : σ}
    {scan : NumberScan} {stack : List (Frame σ)} {text : Text} {w : Value}
    (h : schema.readFrom (.number place scan stack) text = .ok w) :
    ∃ n, (Value.number n).Within w := by
  rw [readFrom_number] at h
  cases hend : scan.read text with
  | refused => rw [hend] at h; cases h
  | unfinished => rw [hend] at h; cases h
  | stopped n rest =>
    rw [hend, afterNumber] at h
    rcases schema.closeNumber_cases place n stack with hclose | ⟨fault, hclose⟩
    · rw [hclose, readOn_ok] at h
      exact ⟨n, region.within_of_readFrom_deliver h⟩
    · rw [hclose] at h
      cases h

/-! ## The end of what is left -/

/-- Outside numbers a reading that is not done wants more. -/
theorem finish_eq_truncated_or (state : State σ) :
    schema.finish state = .error .truncated ∨ (∃ value, state = .done value)
      ∨ ∃ place scan stack, state = .number place scan stack := by
  cases state with
  | done value => exact .inr (.inl ⟨value, rfl⟩)
  | number place scan stack => exact .inr (.inr ⟨place, scan, stack, rfl⟩)
  | _ => exact .inl rfl

/-- What is left of a text that says a value without numbers is truncated, unless only white space
is missing. -/
theorem Region.read_of_read_append (region : schema.Region kept fun _ => True) {place : σ}
    {a b : Text} {w : Value} (h : schema.read place (a ++ b) = .ok w)
    (noNumbers : ∀ n, ¬ (Value.number n).Within w) :
    schema.read place a = .error .truncated ∨ (schema.read place a = .ok w ∧ Spaces b) := by
  unfold read at h ⊢
  rw [run_append] at h
  cases hrun : schema.run (.value place []) a with
  | error fault => rw [hrun] at h; cases h
  | ok state =>
    rw [hrun] at h
    have hread : schema.readFrom state b = .ok w := h
    rcases schema.finish_eq_truncated_or state with
      htruncated | ⟨value, rfl⟩ | ⟨place, scan, stack, rfl⟩
    · exact .inl htruncated
    · obtain ⟨rfl, spaces⟩ := readFrom_done_eq_ok_iff.mp hread
      exact .inr ⟨rfl, spaces⟩
    · obtain ⟨n, hwithin⟩ := region.exists_number_of_readFrom hread
      exact absurd hwithin (noNumbers n)

end Schema

end FeatureLines.Json
