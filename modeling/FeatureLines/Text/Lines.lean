import FeatureLines.Text.Basic

/-!
# Lines of a text

A line ends at a line feed; one carriage return directly before that feed
belongs to the line end. What stands after the last feed is a line only if it
is not empty, and it keeps a carriage return at its end. No line holds a line
feed.
-/

namespace FeatureLines

/-- Puts a character in front of the first line. -/
def consLine (c : Char) : List Text → List Text
  | [] => [[c]]
  | line :: lines => (c :: line) :: lines

/-- The lines of a text, without their line ends. -/
def linesOf : Text → List Text
  | [] => []
  | '\r' :: '\n' :: rest => [] :: linesOf rest
  | c :: rest => if c = '\n' then [] :: linesOf rest else consLine c (linesOf rest)

example : linesOf "a\r\nb\r\r\n\nc\r".toList =
    ["a".toList, "b\r".toList, [], "c\r".toList] := by decide

example : linesOf "a\n".toList = ["a".toList] := by decide

theorem newline_notMem_of_mem_linesOf {text line : Text} (h : line ∈ linesOf text) :
    '\n' ∉ line := by
  fun_induction linesOf text generalizing line with
  | case1 => simp at h
  | case2 rest ih =>
    rcases List.mem_cons.1 h with rfl | h
    · simp
    · exact ih h
  | case3 rest hr ih =>
    rcases List.mem_cons.1 h with rfl | h
    · simp
    · exact ih h
  | case4 c rest hr hc ih =>
    cases hl : linesOf rest with
    | nil =>
      simp only [hl, consLine, List.mem_singleton] at h
      subst h
      simpa using fun e => hc e.symm
    | cons first lines =>
      simp only [hl, consLine, List.mem_cons] at h
      rcases h with rfl | h
      · have := @ih first (by simp [hl])
        simp only [List.mem_cons, not_or]
        exact ⟨fun e => hc e.symm, this⟩
      · exact ih (by simp [hl, h])

end FeatureLines
