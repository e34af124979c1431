import FeatureLines.Text.Basic

/-!
# White space

`isBlank` is the Unicode property White_Space: twenty-five characters. Trimming
cuts characters of this class only, at one end or at both, and what a trim
leaves neither starts nor (for `trim`) ends with one of them.
-/

namespace FeatureLines

/-- The code points with the Unicode property White_Space. -/
def blankCodes : List Nat :=
  [0x9, 0xA, 0xB, 0xC, 0xD, 0x20, 0x85, 0xA0, 0x1680,
   0x2000, 0x2001, 0x2002, 0x2003, 0x2004, 0x2005, 0x2006, 0x2007, 0x2008, 0x2009, 0x200A,
   0x2028, 0x2029, 0x202F, 0x205F, 0x3000]

def isBlank (c : Char) : Bool := blankCodes.contains c.toNat

example : blankCodes.length = 25 ∧ blankCodes.Pairwise (· < ·) := by decide

def allBlank (text : Text) : Bool := text.all isBlank

def trimStart (text : Text) : Text := text.dropWhile isBlank

def trimEnd (text : Text) : Text := (text.reverse.dropWhile isBlank).reverse

def trim (text : Text) : Text := trimEnd (trimStart text)

/-! ## What a trim leaves -/

theorem trimStart_eq_self {text : Text} (h : ∀ c, text.head? = some c → isBlank c = false) :
    trimStart text = text := by
  cases text with
  | nil => rfl
  | cons c rest => simp [trimStart, h c rfl]

theorem isBlank_head_trimStart {text : Text} {c : Char}
    (h : (trimStart text).head? = some c) : isBlank c = false := by
  induction text with
  | nil => simp [trimStart] at h
  | cons d rest ih =>
    cases hd : isBlank d with
    | true =>
      have : trimStart (d :: rest) = trimStart rest := by simp [trimStart, hd]
      exact ih (this ▸ h)
    | false =>
      have : trimStart (d :: rest) = d :: rest := by simp [trimStart, hd]
      rw [this] at h
      simp at h
      exact h ▸ hd

/-- Nothing but leading white space is lost. -/
theorem exists_append_trimStart (text : Text) :
    ∃ blank, allBlank blank = true ∧ text = blank ++ trimStart text := by
  refine ⟨text.takeWhile isBlank, ?_, (List.takeWhile_append_dropWhile).symm⟩
  induction text with
  | nil => rfl
  | cons c rest ih =>
    by_cases hc : isBlank c = true <;> simp_all [allBlank]

/-- Leading white space does not matter to a trim at the start. -/
theorem trimStart_append_of_allBlank {blank : Text} (h : allBlank blank = true) (text : Text) :
    trimStart (blank ++ text) = trimStart text := by
  induction blank with
  | nil => rfl
  | cons c rest ih =>
    simp only [allBlank, List.all_cons, Bool.and_eq_true] at h
    simpa [trimStart, h.1] using ih (by simpa [allBlank] using h.2)

@[simp] theorem trimStart_trimStart (text : Text) : trimStart (trimStart text) = trimStart text :=
  trimStart_eq_self fun _ h => isBlank_head_trimStart h

/-- Nothing but white space at the end is lost. -/
theorem exists_append_trimEnd (text : Text) :
    ∃ blank, allBlank blank = true ∧ text = trimEnd text ++ blank := by
  obtain ⟨blank, hblank, htext⟩ := exists_append_trimStart text.reverse
  refine ⟨blank.reverse, ?_, ?_⟩
  · rw [allBlank, List.all_reverse]
    exact hblank
  · calc
      text = text.reverse.reverse := (List.reverse_reverse text).symm
      _ = (blank ++ trimStart text.reverse).reverse := congrArg List.reverse htext
      _ = trimEnd text ++ blank.reverse := List.reverse_append

theorem isBlank_getLast_trimEnd {text : Text} {c : Char}
    (h : (trimEnd text).getLast? = some c) : isBlank c = false := by
  rw [trimEnd, List.getLast?_reverse] at h
  exact isBlank_head_trimStart h

/-- A trim loses nothing but white space at either end. -/
theorem exists_append_trim (text : Text) :
    ∃ a b, allBlank a = true ∧ allBlank b = true ∧ text = a ++ trim text ++ b := by
  obtain ⟨a, ha, htext⟩ := exists_append_trimStart text
  obtain ⟨b, hb, hstart⟩ := exists_append_trimEnd (trimStart text)
  refine ⟨a, b, ha, hb, ?_⟩
  rw [List.append_assoc, trim, ← hstart]
  exact htext

theorem isBlank_head_trim {text : Text} {c : Char} (h : (trim text).head? = some c) :
    isBlank c = false := by
  obtain ⟨b, -, hstart⟩ := exists_append_trimEnd (trimStart text)
  obtain ⟨rest, hrest⟩ := List.head?_eq_some_iff.mp h
  have hhead : (trimStart text).head? = some c := by
    rw [hstart, ← trim, hrest]
    rfl
  exact isBlank_head_trimStart hhead

end FeatureLines
