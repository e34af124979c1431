import FeatureLines.Text.Basic

/-!
# Decimal digits

Numbers are written with decimal digits and read back from them. `digit?` knows
the ten ASCII digits only; `digitChar` writes them.
-/

namespace FeatureLines

/-- The value of a decimal digit. -/
def digit? (c : Char) : Option Nat :=
  if '0' ≤ c ∧ c ≤ '9' then some (c.toNat - '0'.toNat) else none

def digitChar (d : Nat) : Char := Char.ofNat ('0'.toNat + d)

/-- The number that digits write, the most significant first. -/
def ofDigits (digits : List Nat) : Nat := digits.foldl (fun n d => n * 10 + d) 0

def decimal (n : Nat) : Text := Nat.toDigits 10 n

/-- The number that a text of digits writes. -/
def ofDecimal? (text : Text) : Option Nat :=
  if text.isEmpty then none else (text.mapM digit?).map ofDigits

example : ofDecimal? (decimal 1234567890) = some 1234567890 := by cbv

theorem digit?_digitChar {d : Nat} (h : d < 10) : digit? (digitChar d) = some d := by
  revert d
  decide

theorem digit?_lt {c : Char} {d : Nat} (h : digit? c = some d) : d < 10 := by
  unfold digit? at h
  split at h
  · next hc =>
    have h9 : c.toNat ≤ '9'.toNat := hc.2
    simp only [Option.some.injEq] at h
    subst h
    change c.toNat - 48 < 10
    have : '9'.toNat = 57 := rfl
    omega
  · simp at h

end FeatureLines
